import ShaderPipeline.Text

namespace ShaderPipeline

inductive Profile
  | none
  | core
  | compatibility
  | es
  deriving DecidableEq, Repr, Inhabited

namespace Profile

def ofKeyword? : String → Option Profile
  | "" => some .none
  | "core" => some .core
  | "compatibility" => some .compatibility
  | "es" => some .es
  | _ => Option.none

def keyword : Profile → String
  | .none => ""
  | .core => "core"
  | .compatibility => "compatibility"
  | .es => "es"

end Profile

structure Version where
  number : Nat
  profile : Profile
  deriving DecidableEq, Repr

namespace Version

def default : Version := ⟨110, .none⟩

instance : Inhabited Version := ⟨default⟩

def isKnown (number : Nat) : Bool :=
  number ∈ [100, 110, 120, 130, 140, 150, 300, 310, 320, 330, 400, 410, 420, 430, 440, 450, 460]

def number? (ds : List Char) : Option Nat :=
  (Text.natOfDigits? 10 ds).filter (· < UInt32.size)

def ofChars? (cs : List Char) : Option Version := do
  let number ← number? (cs.takeWhile Char.isDigit)
  let profile ← Profile.ofKeyword? (.ofList (cs.dropWhile Char.isDigit))
  if isKnown number then some ⟨number, profile⟩ else none

def ofText? (s : String) : Option Version :=
  ofChars? s.toList

def invalidMessage (s : String) : String :=
  s!"invalid version/profile `{s}`"

def directive : String := "#version"

def declared? (text : String) : Option Version := do
  let rest ← Text.afterFirst? directive.toList text.toList
  ofChars? ((rest.takeWhile (· != '\n')).filter (· != ' '))

/-- The version in force: the configured one if it is forced, or else unless the text declares
one. -/
def effective (text : String) (configured : Version) (forced : Bool) : Version :=
  if forced then configured else (declared? text).getD configured

def numbersNextLine (v : Version) : Bool :=
  v.profile = .es ∨ 330 ≤ v.number

instance : ToString Version := ⟨fun v => s!"{v.number}{v.profile.keyword}"⟩

end Version

end ShaderPipeline
