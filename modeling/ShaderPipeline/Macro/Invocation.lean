import ShaderPipeline.Macro

namespace ShaderPipeline.Macro

/-- A token that waits, or the mark behind a replacement, where its macro may be replaced again. -/
inductive Pending
  | token (t : Token)
  | enable (name : String)
  deriving DecidableEq, Repr

namespace Pending

def ofTokens (ts : List Token) : List Pending := ts.map .token
def marks (names : List String) : List Pending := names.map .enable

end Pending

structure Arguments where
  args : List (List Token)
  enables : List String
  rest : List Pending
  deriving DecidableEq, Repr

namespace Arguments

def push (t : Token) (a : Arguments) : Arguments :=
  match a.args with
  | [] => { a with args := [[t]] }
  | arg :: args => { a with args := (t :: arg) :: args }

def mark (name : String) (a : Arguments) : Arguments :=
  { a with enables := name :: a.enables }

def nextArgument (a : Arguments) : Arguments :=
  { a with args := [] :: a.args }

def depthAfter (depth : Nat) (t : Token) : Nat :=
  if t.isPunct "(" then depth + 1 else if t.isPunct ")" then depth - 1 else depth

def collect? (depth : Nat) : List Pending → Option Arguments
  | [] => none
  | .enable name :: q => (collect? depth q).map (mark name)
  | .token t :: q =>
    if depth = 0 ∧ t.isPunct ")" then some ⟨[[]], [], q⟩
    else if depth = 0 ∧ t.isPunct "," then (collect? 0 q).map nextArgument
    else (collect? (depthAfter depth t) q).map (push t)

end Arguments

inductive Opening
  | paren (enables : List String) (rest : List Pending)
  | other
  | ended
  deriving DecidableEq, Repr

def opening : List Pending → Opening
  | [] => .ended
  | .enable name :: q =>
    match opening q with
    | .paren names rest => .paren (name :: names) rest
    | o => o
  | .token t :: q =>
    if t.isSpace then opening q
    else if t.isPunct "(" then .paren [] q
    else .other

inductive Invocation
  | arguments (a : Arguments)
  | notInvoked
  | incomplete (unterminated : Bool)
  deriving DecidableEq, Repr

def invocation (q : List Pending) : Invocation :=
  match opening q with
  | .ended => .incomplete false
  | .other => .notInvoked
  | .paren names q =>
    match Arguments.collect? 0 q with
    | none => .incomplete true
    | some a => .arguments ⟨a.args.map Token.trim, names ++ a.enables, a.rest⟩

/-- A macro without parameters takes one empty argument. -/
def fits (params : List String) (args : List (List Token)) : Bool :=
  args.length = params.length ∨ (params = [] ∧ args = [[]])

def substitute (body : List Token) (params : List String) (args : List (List Token)) : List Token :=
  body.flatMap fun t =>
    if t.kind = .ident then ((params.zip args).lookup t.text).getD [t] else [t]

end ShaderPipeline.Macro
