/-! Comment removal and line splicing. Newlines removed by splices are written at the end of the
spliced line. -/

namespace ShaderPipeline.Text

inductive Piece
  | char (c : Char)
  | splice
  deriving DecidableEq, Repr

def pieces : List Char → List Piece
  | '\\' :: '\n' :: cs => .splice :: pieces cs
  | '\\' :: '\r' :: '\n' :: cs => .splice :: pieces cs
  | c :: cs => .char c :: pieces cs
  | [] => []

namespace Clean

inductive Mode
  | code
  | slash
  | lineComment
  | blockComment (last : Char)
  deriving DecidableEq, Repr

/-- `owed` newlines were spliced away and not yet written again. -/
structure State where
  mode : Mode
  owed : Nat
  deriving DecidableEq, Repr

def State.start : State := ⟨.code, 0⟩

def newlines (n : Nat) : List Char := List.replicate n '\n'

def State.nextCode (owed : Nat) : Piece → State
  | .splice => ⟨.code, owed + 1⟩
  | .char '/' => ⟨.slash, owed⟩
  | .char '\n' => ⟨.code, 0⟩
  | .char _ => ⟨.code, owed⟩

def writeCode (owed : Nat) : Piece → List Char
  | .splice => []
  | .char '/' => []
  | .char '\n' => '\n' :: newlines owed
  | .char c => [c]

def State.next (s : State) (p : Piece) : State :=
  match s.mode with
  | .code => nextCode s.owed p
  | .slash =>
    match p with
    | .char '/' => ⟨.lineComment, s.owed⟩
    | .char '*' => ⟨.blockComment '\x00', s.owed⟩
    | p => nextCode s.owed p
  | .lineComment =>
    match p with
    | .splice => ⟨.lineComment, s.owed + 1⟩
    | .char '\n' => ⟨.code, 0⟩
    | .char _ => s
  | .blockComment last =>
    match p with
    | .splice => ⟨.blockComment '\n', s.owed⟩
    | .char c => if last = '*' ∧ c = '/' then ⟨.code, s.owed⟩ else ⟨.blockComment c, s.owed⟩

def State.write (s : State) (p : Piece) : List Char :=
  match s.mode with
  | .code => writeCode s.owed p
  | .slash =>
    match p with
    | .char '/' | .char '*' => [' ']
    | p => '/' :: writeCode s.owed p
  | .lineComment =>
    match p with
    | .splice => []
    | .char '\n' => '\n' :: newlines s.owed
    | .char _ => []
  | .blockComment _ =>
    match p with
    | .splice | .char '\n' => ['\n']
    | .char _ => []

def State.finish (s : State) : List Char :=
  match s.mode with
  | .slash => '/' :: newlines s.owed
  | _ => newlines s.owed

def run (s : State) : List Piece → List Char
  | [] => s.finish
  | p :: ps => s.write p ++ run (s.next p) ps

end Clean

def clean (s : String) : String :=
  .ofList (Clean.run .start (pieces s.toList))

end ShaderPipeline.Text
