import ShaderPipeline.Text

namespace ShaderPipeline.PathName

def splitSlashes : List Char → List (List Char)
  | [] => [[]]
  | c :: cs =>
    if c = '/' then [] :: splitSlashes cs
    else match splitSlashes cs with
      | [] => [[c]]
      | part :: parts => (c :: part) :: parts

def joinSlashes : List (List Char) → List Char
  | [] => []
  | [part] => part
  | part :: parts => part ++ '/' :: joinSlashes parts

inductive Start
  | root
  | current
  | plain
  deriving DecidableEq, Repr

def start : List Char → Start
  | '/' :: _ => .root
  | ['.'] => .current
  | '.' :: '/' :: _ => .current
  | _ => .plain

def splitStart (cs : List Char) : List Char × List Char :=
  match start cs with
  | .plain => ([], cs)
  | _ => (cs.take 1, cs.drop 1)

def isIdle (part : List Char) : Bool := part = [] ∨ part = ['.']

def dropIdleEnd (parts : List (List Char)) : List (List Char) :=
  (parts.reverse.dropWhile isIdle).reverse

def parts (cs : List Char) : List (List Char) :=
  dropIdleEnd (splitSlashes (splitStart cs).2)

def parent? (path : String) : Option String :=
  let cs := path.toList
  match parts cs, start cs with
  | [], .current => some ""
  | [], _ => none
  | ps, _ => some (.ofList ((splitStart cs).1 ++ joinSlashes (dropIdleEnd ps.dropLast)))

def fileName? (path : String) : Option String :=
  match (parts path.toList).getLast? with
  | none => none
  | some part => if part = ['.', '.'] then none else some (.ofList part)

def extension? (path : String) : Option String := do
  let name ← fileName? path
  let (after, before) ← Text.splitAt? '.' name.toList.reverse
  if before.isEmpty then none else some (.ofList after.reverse)

def join (dir name : String) : String :=
  if Text.startsWith name "/" then name
  else if dir.isEmpty || dir.toList.getLast? = some '/' then dir ++ name
  else dir ++ "/" ++ name

end ShaderPipeline.PathName
