namespace ShaderPipeline.CommandLine

inductive GrammarError
  | unrecognized (name : String)
  | missingArgument (name : String)
  | unexpectedArgument (name : String)
  | missingOption (name : String)
  | duplicated (name : String)
  deriving DecidableEq, Repr

def GrammarError.message : GrammarError → String
  | .unrecognized name => s!"Unrecognized option: '{name}'"
  | .missingArgument name => s!"Argument to option '{name}' missing"
  | .unexpectedArgument name => s!"Option '{name}' does not take an argument"
  | .missingOption name => s!"Required option '{name}' missing"
  | .duplicated name => s!"Option '{name}' given more than once"

structure Matches (F : Type) where
  given : List (F × Option String) := []
  free : List String := []
  deriving DecidableEq, Repr

namespace Matches

variable {F : Type}

def addFree (arg : String) (m : Matches F) : Matches F := { m with free := arg :: m.free }
def addFlags (fs : List F) (m : Matches F) : Matches F :=
  { m with given := fs.map (·, none) ++ m.given }
def addValue (f : F) (value : String) (m : Matches F) : Matches F :=
  { m with given := (f, some value) :: m.given }

variable [DecidableEq F]

def has (m : Matches F) (f : F) : Bool := m.given.any (·.1 = f)
def values (m : Matches F) (f : F) : List String :=
  m.given.filterMap fun g => if g.1 = f then g.2 else none
def value? (m : Matches F) (f : F) : Option String := (m.values f).head?

end Matches

end ShaderPipeline.CommandLine
