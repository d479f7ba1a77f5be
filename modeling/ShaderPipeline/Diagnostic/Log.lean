import ShaderPipeline.Diagnostic
/-! Logs of the stages that process a source, read line by line. -/

namespace ShaderPipeline

structure WarningPolicy where
  asErrors : Bool := false
  suppress : Bool := false
  deriving DecidableEq, Repr

inductive LogLine
  | ignored
  | located (level : Level) (line text : String)
  | global (level : Level) (text : String)
  | summary
  | unknown (text : String)
  deriving DecidableEq, Repr

namespace LogLine

def ignoredLines : List String :=
  (["310", "400", "410", "420", "430", "440", "450"].map fun v =>
    s!"Warning, version {v} is not yet complete; " ++
    "most version-specific features are present, but some are missing.") ++
  (["vertex", "fragment", "tessellation control", "tessellation evaluation", "geometry",
    "compute"].map
    fun stage => s!"Linked {stage} stage:")

def isSummary (cs : List Char) : Bool :=
  cs.head?.any Char.isDigit &&
    (" compilation errors.".toList.isPrefixOf (cs.dropWhile Char.isDigit) ||
      " compilation warnings.".toList.isPrefixOf (cs.dropWhile Char.isDigit))

def splitLocation? (cs : List Char) : Option (List Char × List Char) := do
  let (_, rest) ← Text.splitAt? ':' cs
  let (line, text) ← Text.splitAt? ':' rest
  if !line.isEmpty && line.all Char.isDigit then some (line, text) else none

def ofRest (level : Level) (rest : List Char) : LogLine :=
  if isSummary rest then .summary
  else match splitLocation? rest with
    | some (line, text) => .located level (.ofList line) (.ofList (Text.stripChars text))
    | none => .global level (.ofList (Text.stripChars rest))

def parse (policy : WarningPolicy) (s : String) : LogLine :=
  if s.isEmpty || s ∈ ignoredLines then .ignored
  else match Text.afterPrefix? "WARNING: ".toList s.toList with
    | some rest =>
      if policy.asErrors then ofRest .error rest
      else if policy.suppress then .ignored
      else ofRest .warning rest
    | none =>
      match Text.afterPrefix? "ERROR: ".toList s.toList with
      | some rest => ofRest .error rest
      | none => if isSummary s.toList then .summary else .unknown s

/-- The message that a line stands for. It speaks of `tag`, whatever source the line names. -/
def message? (tag : String) : LogLine → Option Message
  | .ignored | .summary => none
  | .located level line text => some ⟨some level, tag, some (LineNumber.ofText line), text⟩
  | .global level text => some (.global level tag text)
  | .unknown text => some (.unclassified tag text)

end LogLine

namespace Log

def dropCarriageReturn (s : String) : String :=
  if s.toList.getLast? = some '\r' then .ofList s.toList.dropLast else s

def messages (tag : String) (policy : WarningPolicy) (log : String) : List Message :=
  (Text.lines log).filterMap fun line =>
    (LogLine.parse policy (dropCarriageReturn line)).message? tag

def filter (tag : String) (policy : WarningPolicy) (log : String) : Bool × Diagnostics :=
  let d := Diagnostics.ofMessages (messages tag policy log)
  (d.tally.errors = 0, d)

end Log

end ShaderPipeline
