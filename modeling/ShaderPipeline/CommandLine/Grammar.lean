import ShaderPipeline.CommandLine.Matches
/-! The grammar of command lines. Options may stand before and after the free arguments, until a
double dash. -/

namespace ShaderPipeline.CommandLine

/-- The words `help` explain an option in the usage text, and `hint` stands there for its value if
it takes one. -/
structure OptionSpec where
  short : Option Char := none
  long : Option String := none
  hint : Option String := none
  repeats : Bool := false
  help : String
  deriving DecidableEq, Repr

inductive OptionName
  | short (c : Char)
  | long (s : String)
  deriving DecidableEq, Repr

namespace OptionName

def ofText (s : String) : OptionName :=
  match s.toList with
  | [c] => if s.utf8ByteSize = 1 then .short c else .long s
  | _ => .long s

def text : OptionName → String
  | .short c => c.toString
  | .long s => s

end OptionName

namespace OptionSpec

def name (s : OptionSpec) : OptionName :=
  match s.long, s.short with
  | some l, _ => .long l
  | none, some c => .short c
  | none, none => .long ""

def answersTo (s : OptionSpec) (n : OptionName) : Bool :=
  s.name = n ∨ s.short.map .short = some n

def takesValue (s : OptionSpec) : Bool := s.hint.isSome

end OptionSpec

structure Grammar (F : Type) where
  flags : List F
  spec : F → OptionSpec

namespace Grammar

variable {F : Type} [DecidableEq F]

def find? (g : Grammar F) (n : OptionName) : Option F :=
  g.flags.find? fun f => (g.spec f).answersTo n

structure Word (F : Type) where
  flags : List F := []
  option : Option (F × OptionName × Option String) := none

def group (g : Grammar F) : List Char → Except GrammarError (Word F)
  | [] => .ok {}
  | c :: cs =>
    match g.find? (.short c) with
    | none => .error (.unrecognized c.toString)
    | some f =>
      if (g.spec f).takesValue then
        .ok { option := some (f, .short c, if cs.isEmpty then none else some (.ofList cs)) }
      else (group g cs).map fun w => { w with flags := f :: w.flags }

def long (g : Grammar F) (cs : List Char) : Except GrammarError (Word F) :=
  let name := OptionName.ofText (.ofList (cs.takeWhile (· != '=')))
  let value? := match cs.dropWhile (· != '=') with
    | [] => none
    | _ :: value => some (String.ofList value)
  match g.find? name with
  | none => .error (.unrecognized name.text)
  | some f =>
    if (g.spec f).takesValue then .ok { option := some (f, name, value?) }
    else if value?.isSome then .error (.unexpectedArgument name.text)
    else .ok { flags := [f] }

def word? (g : Grammar F) (arg : String) : Option (Except GrammarError (Word F)) :=
  match arg.toList with
  | '-' :: '-' :: cs => some (g.long cs)
  | '-' :: c :: cs => some (g.group (c :: cs))
  | _ => none

def read (g : Grammar F) (args : List String) : Except GrammarError (Matches F) :=
  match args with
  | [] => .ok {}
  | arg :: rest =>
    if arg = "--" then .ok { free := rest }
    else match g.word? arg with
      | none => (read g rest).map (.addFree arg)
      | some (.error e) => .error e
      | some (.ok w) =>
        match w.option with
        | none => (read g rest).map (.addFlags w.flags)
        | some (f, _, some value) =>
          (read g rest).map fun m => (m.addValue f value).addFlags w.flags
        | some (f, name, none) =>
          match rest with
          | [] => .error (.missingArgument name.text)
          | value :: rest => (read g rest).map fun m => (m.addValue f value).addFlags w.flags

def duplicate? (g : Grammar F) (m : Matches F) : Option F :=
  g.flags.find? fun f => !(g.spec f).repeats && 1 < (m.given.filter (·.1 = f)).length

def parse (g : Grammar F) (args : List String) : Except GrammarError (Matches F) :=
  match g.read args with
  | .error e => .error e
  | .ok m =>
    match g.duplicate? m with
    | some f => .error (.duplicated (g.spec f).name.text)
    | none => .ok m

def nameWidth : Nat := 24

def blanks (n : Nat) : String := .ofList (List.replicate n ' ')

def heading (s : OptionSpec) : String :=
  "    " ++
  (match s.short, s.long with
    | none, _ => "    "
    | some c, none => s!"-{c} "
    | some c, some _ => s!"-{c}, ") ++
  (match s.long with
    | none => ""
    | some l => s!"--{l} ") ++
  s.hint.getD ""

def usageRow (s : OptionSpec) : String :=
  let names := heading s
  (if names.length < nameWidth then names ++ blanks (nameWidth - names.length)
    else names ++ "\n" ++ blanks nameWidth) ++ s.help

def usage (g : Grammar F) (brief : String) : String :=
  brief ++ "\n\nOptions:\n" ++ String.intercalate "\n" (g.flags.map fun f => usageRow (g.spec f)) ++
    "\n"

end Grammar

end ShaderPipeline.CommandLine
