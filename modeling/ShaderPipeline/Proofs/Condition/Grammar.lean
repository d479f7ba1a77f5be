import Mathlib.Tactic.Lemma
import ShaderPipeline.Condition

/-! The grammar of conditions. A condition has at most one syntax tree, which is found by reading
from the left. -/

namespace ShaderPipeline.Condition

inductive Sign
  | not
  | complement
  | minus
  | plus
  deriving DecidableEq, Repr

def Sign.text : Sign → String
  | .not => "!"
  | .complement => "~"
  | .minus => "-"
  | .plus => "+"

def Operator.text : Operator → String
  | .or => "||"
  | .and => "&&"
  | .bitOr => "|"
  | .bitXor => "^"
  | .bitAnd => "&"
  | .eq => "=="
  | .ne => "!="
  | .lt => "<"
  | .gt => ">"
  | .le => "<="
  | .ge => ">="
  | .shiftLeft => "<<"
  | .shiftRight => ">>"
  | .add => "+"
  | .sub => "-"
  | .mul => "*"
  | .div => "/"
  | .rem => "%"

namespace Operator

lemma ofText_eq_some_iff {s : String} {op : Operator} : ofText? s = some op ↔ op.text = s := by
  constructor
  · intro h
    unfold ofText? at h
    split at h
    case h_19 => cases h
    all_goals
      obtain rfl := Option.some.inj h
      rfl
  · rintro rfl
    cases op <;> rfl

lemma ofToken_eq_some_iff {t : Token} {op : Operator} :
    ofToken? t = some op ↔ t.isPunct op.text := by
  rw [ofToken?, Option.ite_none_right_eq_some, ofText_eq_some_iff, Token.isPunct, decide_eq_true_eq,
    eq_comm (a := op.text)]

lemma text_unique {t : Token} {op op' : Operator} (h : t.isPunct op.text)
    (h' : t.isPunct op'.text) : op = op' :=
  Option.some.inj ((ofToken_eq_some_iff.mpr h).symm.trans (ofToken_eq_some_iff.mpr h'))

end Operator

inductive Expr
  | name (text : String)
  | literal (text : String)
  | unary (s : Sign) (e : Expr)
  | binary (op : Operator) (l r : Expr)
  deriving DecidableEq, Repr

-- one more than every precedence, so that no operator stands outside parentheses and signs
def tightest : Nat := 11

/-- Tokens that spell an expression whose operators outside parentheses have a precedence of at
least the given one. -/
inductive Derives : Nat → List Token → Expr → Prop
  | name {n : Nat} {t : Token} : t.kind = .ident → Derives n [t] (.name t.text)
  | literal {n : Nat} {t : Token} : t.kind = .number → Derives n [t] (.literal t.text)
  | unary {n : Nat} {t : Token} {s : Sign} {ts : List Token} {e : Expr} :
      t.isPunct s.text → Derives tightest ts e → Derives n (t :: ts) (.unary s e)
  | paren {n : Nat} {t close : Token} {ts : List Token} {e : Expr} :
      t.isPunct "(" → close.isPunct ")" → Derives 0 ts e → Derives n (t :: (ts ++ [close])) e
  | binary {n : Nat} {t : Token} {op : Operator} {ls rs : List Token} {l r : Expr} :
      n ≤ op.precedence → t.isPunct op.text → Derives op.precedence ls l →
      Derives (op.precedence + 1) rs r → Derives n (ls ++ t :: rs) (.binary op l r)

lemma precedence_lt_tightest (op : Operator) : op.precedence < tightest := by
  cases op <;> decide

lemma Derives.mono {m n : Nat} {ts : List Token} {e : Expr} (h : Derives n ts e) (hm : m ≤ n) :
    Derives m ts e := by
  cases h with
  | name hk => exact .name hk
  | literal hk => exact .literal hk
  | unary hs he => exact .unary hs he
  | paren ho hc he => exact .paren ho hc he
  | binary hn ho hl hr => exact .binary (Nat.le_trans hm hn) ho hl hr

def Stops (least : Nat) (ts : List Token) : Prop :=
  ∀ t, ts.head? = some t → ∀ op : Operator, t.isPunct op.text → op.precedence < least

lemma stops_nil (least : Nat) : Stops least [] := by
  rintro t ⟨⟩

lemma stops_tightest (ts : List Token) : Stops tightest ts :=
  fun _ _ op _ => precedence_lt_tightest op

lemma stops_cons_of_operator {least : Nat} {t : Token} {ts : List Token} {op : Operator}
    (h : t.isPunct op.text) : Stops least (t :: ts) ↔ op.precedence < least := by
  constructor
  · intro hs
    exact hs t rfl op h
  · rintro hlt t' ⟨⟩ op' h'
    obtain rfl := Operator.text_unique h h'
    exact hlt

lemma stops_cons_of_none {least : Nat} {t : Token} {ts : List Token}
    (h : Operator.ofToken? t = none) : Stops least (t :: ts) := by
  rintro t' ⟨⟩ op hop
  cases h.symm.trans (Operator.ofToken_eq_some_iff.mpr hop)

lemma stops_cons_of_close {least : Nat} {t : Token} {ts : List Token} (h : t.isPunct ")") :
    Stops least (t :: ts) := by
  rintro t' ⟨⟩ op hop
  simp only [Token.isPunct, decide_eq_true_eq] at h hop
  have hop : op.text = ")" := hop.2.symm.trans h.2
  cases op <;> exact absurd hop (by decide)

lemma Stops.mono {m n : Nat} {ts : List Token} (h : Stops m ts) (hm : m ≤ n) : Stops n ts :=
  fun t ht op hop => Nat.lt_of_lt_of_le (h t ht op hop) hm

inductive Task
  | operand
  | climb (least : Nat) (left : Expr)

inductive Reads : Task → List Token → Expr → List Token → Prop
  | name {t : Token} {rest : List Token} : t.kind = .ident →
    Reads .operand (t :: rest) (.name t.text) rest
  | literal {t : Token} {rest : List Token} :
      t.kind = .number → Reads .operand (t :: rest) (.literal t.text) rest
  | unary {t : Token} {s : Sign} {ts rest : List Token} {e : Expr} :
      t.isPunct s.text → Reads .operand ts e rest → Reads .operand (t :: ts) (.unary s e) rest
  | paren {t close : Token} {ts mid rest : List Token} {x e : Expr} :
      t.isPunct "(" → close.isPunct ")" → Reads .operand ts x mid →
        Reads (.climb 0 x) mid e (close :: rest) →
      Reads .operand (t :: ts) e rest
  | stop {least : Nat} {l : Expr} {ts : List Token} :
      Stops least ts → Reads (.climb least l) ts l ts
  | step {least : Nat} {t : Token} {op : Operator} {l x r e : Expr}
      {ts mid after rest : List Token} :
      t.isPunct op.text → least ≤ op.precedence → Reads .operand ts x mid →
      Reads (.climb (op.precedence + 1) x) mid r after →
        Reads (.climb least (.binary op l r)) after e rest →
      Reads (.climb least l) (t :: ts) e rest

namespace Reads

variable {k : Task} {ts rest rest' : List Token} {e e' : Expr}

lemma eq_of_tightest {l : Expr} (h : Reads (.climb tightest l) ts e rest) : l = e ∧ ts = rest := by
  cases h with
  | stop => exact ⟨rfl, rfl⟩
  | step ho hle => exact absurd hle (Nat.not_le.mpr (precedence_lt_tightest _))

lemma sign_unique {t : Token} {s s' : Sign} (h : t.isPunct s.text) (h' : t.isPunct s'.text) :
    s = s' := by
  simp only [Token.isPunct, decide_eq_true_eq] at h h'
  have ht : s.text = s'.text := h.2.symm.trans h'.2
  cases s <;> cases s' <;> first | rfl | exact absurd ht (by decide)

lemma not_sign_of_open {t : Token} (h : t.isPunct "(") (s : Sign) : ¬ t.isPunct s.text := by
  simp only [Token.isPunct, decide_eq_true_eq] at h ⊢
  rintro ⟨-, ht⟩
  have hs : s.text = "(" := ht.symm.trans h.2
  cases s <;> exact absurd hs (by decide)

lemma kind_of_isPunct {t : Token} {s : String} (h : t.isPunct s) : t.kind = .punct := by
  simp only [Token.isPunct, decide_eq_true_eq] at h
  exact h.1

theorem unique (h : Reads k ts e rest) (h' : Reads k ts e' rest') : e = e' ∧ rest = rest' := by
  -- the first token of what is left decides which rule applies
  induction h generalizing e' rest' with
  | name hk =>
    cases h' with
    | name => exact ⟨rfl, rfl⟩
    | literal hk' => simp [hk] at hk'
    | unary hs => simp [kind_of_isPunct hs] at hk
    | paren ho => simp [kind_of_isPunct ho] at hk
  | literal hk =>
    cases h' with
    | name hk' => simp [hk] at hk'
    | literal => exact ⟨rfl, rfl⟩
    | unary hs => simp [kind_of_isPunct hs] at hk
    | paren ho => simp [kind_of_isPunct ho] at hk
  | unary hs _ ih =>
    cases h' with
    | name hk => simp [kind_of_isPunct hs] at hk
    | literal hk => simp [kind_of_isPunct hs] at hk
    | unary hs' he =>
      obtain rfl := sign_unique hs hs'
      obtain ⟨rfl, rfl⟩ := ih he
      exact ⟨rfl, rfl⟩
    | paren ho => exact (not_sign_of_open ho _ hs).elim
  | paren ho _ _ _ ihx ihe =>
    cases h' with
    | name hk => simp [kind_of_isPunct ho] at hk
    | literal hk => simp [kind_of_isPunct ho] at hk
    | unary hs => exact (not_sign_of_open ho _ hs).elim
    | paren _ _ hx he =>
      obtain ⟨rfl, rfl⟩ := ihx hx
      obtain ⟨rfl, hrest⟩ := ihe he
      exact ⟨rfl, (List.cons.inj hrest).2⟩
  | stop hs =>
    cases h' with
    | stop => exact ⟨rfl, rfl⟩
    | step ho hle => exact absurd hle (Nat.not_le.mpr ((stops_cons_of_operator ho).mp hs))
  | step ho hle _ _ _ ihx ihr ihe =>
    cases h' with
    | stop hs => exact absurd hle (Nat.not_le.mpr ((stops_cons_of_operator ho).mp hs))
    | step ho' _ hx hr he =>
      obtain rfl := Operator.text_unique ho ho'
      obtain ⟨rfl, rfl⟩ := ihx hx
      obtain ⟨rfl, rfl⟩ := ihr hr
      exact ihe he

end Reads

lemma stops_tightest_succ (ts : List Token) : Stops (tightest + 1) ts :=
  (stops_tightest ts).mono (Nat.le_succ _)

lemma Derives.reads {n least : Nat} {ts rest rest' : List Token} {e e' : Expr} (h : Derives n ts e)
    (hn : least ≤ n) (hs : Stops (n + 1) rest) (hr : Reads (.climb least e) rest e' rest') :
    ∃ x mid, Reads .operand (ts ++ rest) x mid ∧ Reads (.climb least x) mid e' rest' := by
  -- what is read behind `ts` is left open: behind a left operand it is the operator and what
  -- follows
  induction h generalizing least rest e' rest' with
  | name hk => exact ⟨_, _, .name hk, hr⟩
  | literal hk => exact ⟨_, _, .literal hk, hr⟩
  | unary ht _ ih =>
    obtain ⟨x, mid, hx, hc⟩ :=
      ih (Nat.le_refl _) (stops_tightest_succ rest) (.stop (stops_tightest rest))
    obtain ⟨rfl, rfl⟩ := hc.eq_of_tightest
    exact ⟨_, _, .unary ht hx, hr⟩
  | paren ho hc _ ih =>
    obtain ⟨x, mid, hx, he⟩ :=
      ih (Nat.le_refl _) (stops_cons_of_close hc) (.stop (stops_cons_of_close hc))
    refine ⟨_, _, .paren ho hc ?_ he, hr⟩
    simpa using hx
  | binary hle ho _ _ ihl ihr =>
    have hafter := hs.mono (Nat.succ_le_succ hle)
    obtain ⟨x, mid, hx, hc⟩ := ihr (Nat.le_refl _) (hafter.mono (Nat.le_succ _)) (.stop hafter)
    have hstep := Reads.step ho (Nat.le_trans hn hle) hx hc hr
    rw [List.append_assoc]
    exact ihl (Nat.le_trans hn hle) ((stops_cons_of_operator ho).mpr (Nat.lt_succ_self _)) hstep

def Task.Found : Task → List Token → Expr → List Token → Prop
  | .operand, ts, e, rest => ∃ us, ts = us ++ rest ∧ Derives tightest us e
  | .climb least l, ts, e, rest =>
    Stops least rest ∧ ∀ m ls, Derives m ls l → least ≤ m → Stops (m + 1) ts →
      ∃ us, ts = us ++ rest ∧ Derives least (ls ++ us) e

lemma Reads.found {k : Task} {ts rest : List Token} {e : Expr} (h : Reads k ts e rest) :
    k.Found ts e rest := by
  induction h with
  | name hk => exact ⟨_, rfl, .name hk⟩
  | literal hk => exact ⟨_, rfl, .literal hk⟩
  | unary ht _ ih =>
    obtain ⟨us, rfl, he⟩ := ih
    exact ⟨_, rfl, .unary ht he⟩
  | paren ho hc _ _ ihx ihe =>
    obtain ⟨us, rfl, hx⟩ := ihx
    obtain ⟨-, hclimb⟩ := ihe
    obtain ⟨vs, rfl, he⟩ := hclimb tightest us hx (Nat.zero_le _) (stops_tightest_succ _)
    exact ⟨_, by simp, .paren ho hc he⟩
  | stop hs => exact ⟨hs, fun m ls hl hm _ => ⟨[], rfl, by simpa using hl.mono hm⟩⟩
  | @step least t op l x r e ts mid after rest ho hle _ _ _ ihx ihr ihe =>
    obtain ⟨us, rfl, hx⟩ := ihx
    obtain ⟨hafter, hright⟩ := ihr
    obtain ⟨vs, rfl, hr⟩ :=
      hright tightest us hx (precedence_lt_tightest op) (stops_tightest_succ _)
    obtain ⟨hrest, hmore⟩ := ihe
    refine ⟨hrest, fun m ls hl hm hs => ?_⟩
    have hp : op.precedence ≤ m := Nat.le_of_lt_succ ((stops_cons_of_operator ho).mp hs)
    have hb := Derives.binary (Nat.le_refl _) ho (hl.mono hp) hr
    obtain ⟨ws, rfl, he⟩ := hmore _ _ hb hle hafter
    exact ⟨t :: (us ++ vs ++ ws), by simp, by simpa using he⟩

theorem derives_iff {ts : List Token} {e : Expr} :
    Derives 0 ts e ↔ ∃ x mid, Reads .operand ts x mid ∧ Reads (.climb 0 x) mid e [] := by
  constructor
  · intro h
    simpa using h.reads (Nat.le_refl 0) (stops_nil 1) (.stop (stops_nil 0))
  · rintro ⟨x, mid, hx, he⟩
    obtain ⟨us, rfl, hoperand⟩ := hx.found
    obtain ⟨vs, rfl, hall⟩ :=
      he.found.2 tightest us hoperand (Nat.zero_le _) (stops_tightest_succ _)
    simpa using hall

theorem Derives.unique {ts : List Token} {e e' : Expr} (h : Derives 0 ts e) (h' : Derives 0 ts e') :
    e = e' := by
  obtain ⟨x, mid, hx, he⟩ := derives_iff.mp h
  obtain ⟨x', mid', hx', he'⟩ := derives_iff.mp h'
  obtain ⟨rfl, rfl⟩ := hx.unique hx'
  exact (he.unique he').1

end ShaderPipeline.Condition
