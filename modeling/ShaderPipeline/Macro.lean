import ShaderPipeline.LineNumber
import ShaderPipeline.Token

namespace ShaderPipeline

structure Macro where
  params : Option (List String)
  body : List Token
  deriving DecidableEq, Repr, Inhabited

namespace Macro

inductive Error
  | predefined (name : String)
  | redefined (name : String)
  | tokenPasting (name : String)
  | unterminated (name : String)
  | arity (name : String) (expected found : Nat)
  | badDefined
  deriving DecidableEq, Repr

def Error.message : Error → String
  | .predefined name => s!"predefined names can't be (un)defined: {name}"
  | .redefined name => s!"Macro redefined; different substitutions: {name}"
  | .tokenPasting name => s!"token pasting is not supported: {name}"
  | .unterminated name => s!"end of line in macro substitution: {name}"
  | .arity name expected found =>
    s!"wrong number of arguments in macro {name}: expected {expected}, found {found}"
  | .badDefined => "expected identifier after 'defined'"

def object (body : List Token) : Macro := ⟨none, body⟩
def function (params : List String) (body : List Token) : Macro := ⟨some params, body⟩

def isEquivalent (m n : Macro) : Bool :=
  m.params = n.params ∧ Token.canonical m.body = Token.canonical n.body

def isPredefined (name : String) : Bool :=
  name ∈ ["__LINE__", "__FILE__", "__VERSION__", "GL_ES"]

structure Builtins where
  line : LineNumber
  file : Nat
  version : Nat
  deriving DecidableEq, Repr

def Builtins.value? (b : Builtins) : String → Option Token
  | "__LINE__" => some (.number (toString b.line))
  | "__FILE__" => some (.number (toString b.file))
  | "__VERSION__" => some (.number (toString b.version))
  | _ => none

structure Table where
  entries : List (String × Macro) := []
  deriving Repr

namespace Table

def empty : Table := {}

def find? (t : Table) (name : String) : Option Macro :=
  t.entries.lookup name

def erase (t : Table) (name : String) : Table :=
  ⟨t.entries.filter (·.1 != name)⟩

def insert (t : Table) (name : String) (m : Macro) : Table :=
  ⟨(name, m) :: (t.erase name).entries⟩

def names (t : Table) : List String :=
  t.entries.map (·.1)

def define (t : Table) (name : String) (m : Macro) : Except Error Table :=
  if isPredefined name then .error (.predefined name)
  else if m.body.any (·.isPunct "##") then .error (.tokenPasting name)
  else match t.find? name with
    | some old => if old.isEquivalent m then .ok (t.insert name m) else .error (.redefined name)
    | none => .ok (t.insert name m)

def undefine (t : Table) (name : String) : Except Error Table :=
  if isPredefined name then .error (.predefined name) else .ok (t.erase name)

def isDefined (t : Table) (name : String) : Bool :=
  (t.find? name).isSome || (isPredefined name && name != "GL_ES")

def definedToken (t : Table) (name : String) : Token :=
  .number (if t.isDefined name then "1" else "0")

end Table

def testedName? (ts : List Token) : Option (String × List Token) :=
  match Token.trimStart ts with
  | [] => none
  | t :: rest =>
    if t.kind = .ident then some (t.text, rest)
    else if t.isPunct "(" then
      match Token.trimStart rest with
      | [] => none
      | name :: rest =>
        match Token.trimStart rest with
        | [] => none
        | close :: rest =>
          if name.kind = .ident ∧ close.isPunct ")" then some (name.text, rest) else none
    else none

theorem length_lt_of_testedName? {ts rest : List Token} {name : String}
    (h : testedName? ts = some (name, rest)) : rest.length < ts.length := by
  have h₀ := Token.length_trimStart_le ts
  unfold testedName? at h
  split at h
  · simp at h
  · rename_i t rest₁ e₁
    rw [e₁, List.length_cons] at h₀
    split at h
    · simp only [Option.some.injEq, Prod.mk.injEq] at h
      obtain ⟨_, rfl⟩ := h
      omega
    split at h
    · have h₁ := Token.length_trimStart_le rest₁
      split at h
      · simp at h
      · rename_i name rest₂ e₂
        have h₂ := Token.length_trimStart_le rest₂
        rw [e₂, List.length_cons] at h₁
        split at h
        · simp at h
        · rename_i close rest₃ e₃
          rw [e₃, List.length_cons] at h₂
          split at h
          · simp only [Option.some.injEq, Prod.mk.injEq] at h
            obtain ⟨_, rfl⟩ := h
            omega
          · simp at h
    · simp at h

def Table.resolveDefined (t : Table) : List Token → Except Error (List Token)
  | [] => .ok []
  | tok :: rest =>
    if tok.isIdent "defined" then
      match _h : testedName? rest with
      | none => .error .badDefined
      | some (name, after) => (resolveDefined t after).map (t.definedToken name :: ·)
    else (resolveDefined t rest).map (tok :: ·)
termination_by ts => ts.length
decreasing_by
  · exact Nat.lt_succ_of_lt (length_lt_of_testedName? _h)
  · exact Nat.lt_succ_self _

end Macro

end ShaderPipeline
