import ShaderPipeline.Condition
import ShaderPipeline.Macro.Replace
import ShaderPipeline.Preamble
import ShaderPipeline.Preprocess.Item
import ShaderPipeline.Token.Lexer
/-! What a run keeps: the run itself, which all its units share, and the place that it has reached
in one unit. -/

namespace ShaderPipeline.Preprocess

inductive Cause
  | replacement (e : Macro.Error)
  | condition (e : Condition.Error)
  | inclusion (e : IncludeError)
  | requested (text : String)
  | invalidDirective
  | missingName
  | elifWithoutIf
  | elifAfterElse
  | elseWithoutIf
  | elseAfterElse
  | endifWithoutIf
  | missingEndif
  | badParameters (name : String)
  | badVersion
  | missingExtension
  | missingBehavior
  | unsupportedBehavior (text : String)
  | extraTokens
  | lineNotIntegral
  | includesDisabled
  | emptyFileName
  | missingFileName
  | includeTooDeep
  deriving DecidableEq, Repr

def Cause.message : Cause → String
  | .replacement e => e.message
  | .condition e => e.message
  | .inclusion e => e.message
  | .requested text => text
  | .invalidDirective => "invalid directive"
  | .missingName => "must be followed by macro name"
  | .elifWithoutIf => "#elif without #if"
  | .elifAfterElse => "#elif after #else"
  | .elseWithoutIf => "#else without #if"
  | .elseAfterElse => "#else after #else"
  | .endifWithoutIf => "#endif without #if"
  | .missingEndif => "missing #endif"
  | .badParameters name => s!"bad macro parameter list: {name}"
  | .badVersion => "bad version number"
  | .missingExtension => "extension name expected"
  | .missingBehavior => "behavior expected"
  | .unsupportedBehavior text => s!"behavior not supported: {text}"
  | .extraTokens => "extra tokens after extension behavior"
  | .lineNotIntegral => "must be followed by an integral literal"
  | .includesDisabled => s!"required extension not requested: {Preamble.includeExtension}"
  | .emptyFileName => "empty include file name"
  | .missingFileName => "expected include file name"
  | .includeTooDeep => "maximum include depth exceeded"

structure Fault where
  unit : String
  line : LineNumber
  directive : String
  cause : Cause
  deriving DecidableEq, Repr

def Fault.text (f : Fault) : String :=
  s!"ERROR: {f.unit}:{f.line}: '{f.directive}' : {f.cause.message}\n"

inductive Opener
  | condition
  | defined
  | undefined
  deriving DecidableEq, Repr

def Opener.directive : Opener → String
  | .condition => "#if"
  | .defined => "#ifdef"
  | .undefined => "#ifndef"

/-- A conditional group that is open. It is `taken` once one of its branches was active. -/
structure Group where
  opener : Opener
  line : LineNumber
  parentActive : Bool
  taken : Bool
  active : Bool
  seenElse : Bool
  deriving DecidableEq, Repr

/-- Text that ends within an invocation, with the builtins of its first line. -/
structure Held where
  tokens : List Token
  lines : Nat
  builtins : Macro.Builtins
  deriving DecidableEq, Repr

structure Place where
  name : String
  depth : Nat
  file : Nat
  line : LineNumber := 1
  groups : List Group := []
  renumber : Option LineNumber := none
  held : Option Held := none
  deriving DecidableEq, Repr

def Place.isSkipping (p : Place) : Bool :=
  p.groups.head?.any fun g => !g.active

def Place.advance (p : Place) : Place :=
  { p with line := p.renumber.getD (p.line.advance 1), renumber := none }

structure Run (σ : Type) where
  table : Macro.Table
  includer : σ
  version : Version
  forced : Bool
  declared : Bool
  nextLine : Bool
  includeEnabled : Bool
  files : Nat
  items : Array Item
  faults : List Fault

namespace Run

variable {σ : Type}

def esName : String := "GL_ES"

def setVersion (run : Run σ) (v : Version) : Run σ :=
  { run with
    version := v
    nextLine := v.numbersNextLine
    table :=
      if v.profile = .es ∨ v.number = 100 then run.table.insert esName (.object [.number "1"])
      else run.table.erase esName }

def start (version : Version) (forced : Bool) (includer : σ) : Run σ :=
  setVersion
    { table := .empty, includer, version, forced, declared := false, nextLine := false,
      includeEnabled := false, files := 0, items := #[], faults := [] } version

def emit (run : Run σ) (x : Item) : Run σ :=
  { run with items := run.items.push x }

def out (run : Run σ) : String :=
  Item.renderAll run.items.toList

def log (run : Run σ) : String :=
  String.join (run.faults.map Fault.text) ++
    if run.faults.isEmpty then ""
    else s!"ERROR: {run.faults.length} compilation errors.  No code generated.\n"

end Run

structure Reading (σ : Type) where
  place : Place
  run : Run σ

namespace Reading

variable {σ : Type}

def emit (r : Reading σ) (x : Item) : Reading σ :=
  { r with run := r.run.emit x }

def newline (r : Reading σ) : Reading σ :=
  r.emit .blank

def fault (r : Reading σ) (directive : String) (cause : Cause) : Reading σ :=
  { r with run := { r.run with
      faults := r.run.faults ++ [⟨r.place.name, r.place.line, directive, cause⟩] } }

def builtins (r : Reading σ) : Macro.Builtins :=
  ⟨r.place.line, r.place.file, r.run.version.number⟩

end Reading

end ShaderPipeline.Preprocess
