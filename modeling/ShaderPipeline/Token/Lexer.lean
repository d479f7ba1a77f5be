import ShaderPipeline.Text
import ShaderPipeline.Token
/-! Splitting a logical line into tokens by maximal munch. -/

namespace ShaderPipeline.Token

def isIdentStart (c : Char) : Bool := c.isAlpha || c == '_'
def isIdentChar (c : Char) : Bool := c.isAlphanum || c == '_'

def digraphs : List (Char × Char) :=
  [('<', '<'), ('>', '>'), ('<', '='), ('>', '='), ('=', '='), ('!', '='), ('&', '&'), ('|', '|'),
    ('^', '^'), ('+', '+'), ('-', '-'), ('+', '='), ('-', '='), ('*', '='), ('/', '='), ('%', '='),
    ('&', '='), ('|', '='), ('#', '#')]

/-- Whether `c` after `last` goes on with a number: a sign does so only after an exponent letter. -/
def continuesNumber (last c : Char) : Bool :=
  isIdentChar c || c == '.' || ((c == '+' || c == '-') && (last == 'e' || last == 'E'))

def spanNumber (last : Char) : List Char → List Char × List Char
  | [] => ([], [])
  | c :: cs =>
    if continuesNumber last c then (c :: (spanNumber c cs).1, (spanNumber c cs).2)
    else ([], c :: cs)

def spanString (cs : List Char) : List Char × List Char :=
  match cs.dropWhile (· != '"') with
  | [] => (cs, [])
  | quote :: rest => (cs.takeWhile (· != '"') ++ [quote], rest)

def spanPunct (c : Char) : List Char → List Char × List Char
  | [] => ([], [])
  | d :: cs => if (c, d) ∈ digraphs then ([d], cs) else ([], d :: cs)

def startsNumber (c : Char) (cs : List Char) : Bool :=
  c.isDigit || (c == '.' && cs.head?.any Char.isDigit)

def munch (c : Char) (cs : List Char) : Kind × List Char × List Char :=
  if Text.isBlank c then (.space, cs.takeWhile Text.isBlank, cs.dropWhile Text.isBlank)
  else if isIdentStart c then (.ident, cs.takeWhile isIdentChar, cs.dropWhile isIdentChar)
  else if startsNumber c cs then (.number, spanNumber c cs)
  else if c = '"' then (.str, spanString cs)
  else (.punct, spanPunct c cs)

theorem spanNumber_append (last : Char) (cs : List Char) :
    (spanNumber last cs).1 ++ (spanNumber last cs).2 = cs := by
  induction cs generalizing last with
  | nil => rfl
  | cons c cs ih => by_cases h : continuesNumber last c <;> simp [spanNumber, h, ih]

theorem spanString_append (cs : List Char) : (spanString cs).1 ++ (spanString cs).2 = cs := by
  unfold spanString
  split
  · simp
  · rename_i q rest h
    rw [List.append_assoc, List.singleton_append, ← h, List.takeWhile_append_dropWhile]

theorem spanPunct_append (c : Char) (cs : List Char) :
    (spanPunct c cs).1 ++ (spanPunct c cs).2 = cs := by
  cases cs with
  | nil => rfl
  | cons d cs => by_cases h : (c, d) ∈ digraphs <;> simp [spanPunct, h]

theorem munch_append (c : Char) (cs : List Char) : (munch c cs).2.1 ++ (munch c cs).2.2 = cs := by
  unfold munch
  split
  · exact List.takeWhile_append_dropWhile
  split
  · exact List.takeWhile_append_dropWhile
  split
  · exact spanNumber_append c cs
  split
  · exact spanString_append cs
  · exact spanPunct_append c cs

theorem length_munch_rest_le (c : Char) (cs : List Char) : (munch c cs).2.2.length ≤ cs.length := by
  have h := congrArg List.length (munch_append c cs)
  rw [List.length_append] at h
  omega

def scan : List Char → List Token
  | [] => []
  | c :: cs => ⟨(munch c cs).1, .ofList (c :: (munch c cs).2.1)⟩ :: scan (munch c cs).2.2
termination_by cs => cs.length
decreasing_by exact Nat.lt_succ_of_le (length_munch_rest_le c cs)

def tokenize (line : String) : List Token :=
  scan line.toList

theorem scan_nil : scan [] = [] := by
  rw [scan]

theorem scan_cons (c : Char) (cs : List Char) : scan (c :: cs) =
    ⟨(munch c cs).1, .ofList (c :: (munch c cs).2.1)⟩ :: scan (munch c cs).2.2 := by
  rw [scan]

end ShaderPipeline.Token
