namespace ShaderPipeline

inductive Token.Kind
  | ident
  | number
  | str
  | punct
  | space
  deriving DecidableEq, Repr, Inhabited

structure Token where
  kind : Token.Kind
  text : String
  deriving DecidableEq, Repr, Inhabited

namespace Token

def ident (text : String) : Token := ⟨.ident, text⟩
def number (text : String) : Token := ⟨.number, text⟩
def punct (text : String) : Token := ⟨.punct, text⟩
def blank : Token := ⟨.space, " "⟩

def isSpace (t : Token) : Bool := t.kind = .space
def isIdent (t : Token) (name : String) : Bool := t.kind = .ident ∧ t.text = name
def isPunct (t : Token) (text : String) : Bool := t.kind = .punct ∧ t.text = text

def join (ts : List Token) : String :=
  String.join (ts.map (·.text))

def solid (ts : List Token) : List Token :=
  ts.filter fun t => !t.isSpace

def trimStart (ts : List Token) : List Token :=
  ts.dropWhile isSpace

def trimEnd (ts : List Token) : List Token :=
  (ts.reverse.dropWhile isSpace).reverse

def trim (ts : List Token) : List Token :=
  trimEnd (trimStart ts)

theorem length_trimStart_le (ts : List Token) : (trimStart ts).length ≤ ts.length :=
  (List.dropWhile_sublist _).length_le

theorem length_trim_le (ts : List Token) : (trim ts).length ≤ ts.length := by
  have h₁ := length_trimStart_le ts
  have h₂ := length_trimStart_le (trimStart ts).reverse
  simp only [trim, trimEnd, trimStart, List.length_reverse] at h₁ h₂ ⊢
  omega

def canonicalText (t : Token) : String :=
  if t.isSpace then " " else t.text

/-- The trimmed tokens with every run of white space written as one space. -/
def canonical (ts : List Token) : String :=
  String.join ((trim ts).map canonicalText)

end Token

end ShaderPipeline
