import ShaderPipeline.Text

namespace ShaderPipeline

/-- A logical line number. Directives may set any value of at most `LineNumber.limit` in
magnitude. -/
abbrev LineNumber := Int

namespace LineNumber

def limit : Nat := 0x7fffffffffffffff

def saturate (n : Nat) : Nat := min n limit

def advance (n : LineNumber) (k : Nat) : LineNumber :=
  min (n + k) limit

def ofDigits (ds : List Char) : Nat :=
  ds.foldl (fun n c => saturate (saturate (n * 10) + (c.toNat - '0'.toNat))) 0

def ofChars (cs : List Char) : LineNumber :=
  match cs.dropWhile Text.isBlank with
  | '-' :: rest => -(ofDigits (rest.takeWhile Char.isDigit) : Int)
  | '+' :: rest => ofDigits (rest.takeWhile Char.isDigit)
  | rest => ofDigits (rest.takeWhile Char.isDigit)

def ofText (s : String) : LineNumber :=
  ofChars s.toList

def directive : String := "#line"

def following (n : LineNumber) (nextLine : Bool) : LineNumber :=
  n.advance (if nextLine then 0 else 1)

def resume (nextLine : Bool) (n : LineNumber) (name : String) : String :=
  s!"{directive} {n.advance (if nextLine then 1 else 0)} \"{name}\"\n"

end LineNumber

end ShaderPipeline
