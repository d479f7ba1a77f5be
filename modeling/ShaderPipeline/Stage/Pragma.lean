import ShaderPipeline.Diagnostic
import ShaderPipeline.Stage
/-! Stage pragmas are numbered by logical lines, and their order against code is that of the
physical lines. -/

namespace ShaderPipeline

structure StagePragma where
  line : LineNumber
  name : String
  deriving DecidableEq, Repr

structure StagePragmas where
  pragmas : List StagePragma := []
  firstIndex : Option Nat := none
  codeIndex : Option Nat := none
  deriving DecidableEq, Repr

inductive StageFault
  | afterCode (line : LineNumber)
  | invalidStage (line : LineNumber) (name : String)
  | conflict (line : LineNumber) (name : String) (firstLine : LineNumber) (firstName : String)
  deriving DecidableEq, Repr

namespace StageFault

def line : StageFault → LineNumber
  | .afterCode line | .invalidStage line _ | .conflict line .. => line

def text (tag : String) : StageFault → String
  | .afterCode _ =>
    "'#pragma': the first 'shader_stage' #pragma must appear before any non-preprocessing code"
  | .invalidStage _ name => s!"'#pragma': invalid stage for 'shader_stage' #pragma: '{name}'"
  | .conflict _ name firstLine firstName =>
    s!"'#pragma': conflicting stages for 'shader_stage' #pragma: '{name}' (was " ++
      s!"'{firstName}' at {tag}:{firstLine})"

end StageFault

structure StageError where
  tag : String
  faults : List StageFault
  deriving DecidableEq, Repr

namespace StageError

def message (e : StageError) : String :=
  match e.faults.length with
  | 1 => s!"invalid 'shader_stage' #pragma in {e.tag}"
  | n => s!"{n} problems with 'shader_stage' #pragma in {e.tag}"

def describe (e : StageError) : List Message :=
  e.faults.map fun f => .errorAt e.tag f.line (f.text e.tag)

end StageError

namespace StagePragmas

def pragma : String := "#pragma shader_stage"

def isParenthesis (c : Char) : Bool := c == '(' || c == ')'

def delimited? (rest : List Char) : Option (List Char) := do
  let (_, inner) ← Text.splitAt? '(' rest
  let (argument, _) ← Text.splitAt? ')' inner
  some argument

/-- The argument of a pragma. One that is not delimited reaches to the end of the line. -/
def argument (rest : List Char) : List Char :=
  Text.stripChars <| (delimited? rest).getD <|
    (((Text.stripChars rest).dropWhile isParenthesis).reverse.dropWhile isParenthesis).reverse

def lineAfter (nextLine : Bool) (logical : LineNumber) (stripped : List Char) : LineNumber :=
  match Text.afterPrefix? LineNumber.directive.toList stripped with
  | some rest => (LineNumber.ofChars rest).following nextLine
  | none => logical.advance 1

def note (s : StagePragmas) (index : Nat) (logical : LineNumber) (stripped : List Char) :
    StagePragmas :=
  match Text.afterPrefix? pragma.toList stripped with
  | some rest =>
    { s with
      pragmas := s.pragmas ++ [⟨logical, .ofList (argument rest)⟩]
      firstIndex := s.firstIndex.or (some index) }
  | none =>
    if stripped = [] ∨ stripped.head? = some '#' then s
    else { s with codeIndex := s.codeIndex.or (some index) }

def notes (nextLine : Bool) (index : Nat) (logical : LineNumber) (s : StagePragmas) :
    List String → StagePragmas
  | [] => s
  | line :: rest =>
    let stripped := Text.stripChars line.toList
    notes nextLine (index + 1) (lineAfter nextLine logical stripped) (s.note index logical stripped)
      rest

def ofText (text : String) (nextLine : Bool) : StagePragmas :=
  notes nextLine 0 1 {} (Text.lines text)

def isAfterCode (s : StagePragmas) : Bool :=
  match s.firstIndex, s.codeIndex with
  | some first, some code => code < first
  | _, _ => false

def faults (s : StagePragmas) (first : StagePragma) (others : List StagePragma) : List StageFault :=
  (if s.isAfterCode then [.afterCode first.line] else []) ++
  (if (Stage.ofName? first.name).isNone then [.invalidStage first.line first.name] else []) ++
  (others.filter (·.name ≠ first.name)).map fun p => .conflict p.line p.name first.line first.name

def stage (s : StagePragmas) (tag : String) : Except StageError (Option Stage) :=
  match s.pragmas with
  | [] => .ok none
  | first :: others =>
    match s.faults first others with
    | [] => .ok (Stage.ofName? first.name)
    | faults => .error ⟨tag, faults⟩

end StagePragmas

def Stage.declared (text tag : String) (nextLine : Bool) : Except StageError (Option Stage) :=
  (StagePragmas.ofText text nextLine).stage tag

end ShaderPipeline
