import Mathlib
import ShaderPipeline.Proofs.Condition.Grammar
import ShaderPipeline.Token.Lexer

/-! The value of an expression, from the values of its parts, and the evaluator that computes it as
it reads. -/

namespace ShaderPipeline.Condition

namespace Operator

def shiftCount (b : Int64) : Nat :=
  (b.toInt % 64).toNat

def meaning (op : Operator) (a b : Int64) : Option Int64 :=
  match op with
  | .or => some (truth (a ≠ 0 ∨ b ≠ 0))
  | .and => some (truth (a ≠ 0 ∧ b ≠ 0))
  | .bitOr => some (a ||| b)
  | .bitXor => some (a ^^^ b)
  | .bitAnd => some (a &&& b)
  | .eq => some (truth (a.toInt = b.toInt))
  | .ne => some (truth (a.toInt ≠ b.toInt))
  | .lt => some (truth (a.toInt < b.toInt))
  | .gt => some (truth (b.toInt < a.toInt))
  | .le => some (truth (a.toInt ≤ b.toInt))
  | .ge => some (truth (b.toInt ≤ a.toInt))
  | .shiftLeft => some (.ofInt (a.toInt * 2 ^ shiftCount b))
  | .shiftRight => some (.ofInt (a.toInt / 2 ^ shiftCount b))
  | .add => some (.ofInt (a.toInt + b.toInt))
  | .sub => some (.ofInt (a.toInt - b.toInt))
  | .mul => some (.ofInt (a.toInt * b.toInt))
  | .div => if b = 0 then none else some (.ofInt (a.toInt.tdiv b.toInt))
  | .rem => if b = 0 then none else some (.ofInt (a.toInt.tmod b.toInt))

lemma toNat_smod (b : Int64) : (b.toBitVec.smod 64).toNat = shiftCount b := by
  have hf : (b.toBitVec.smod 64).toInt = b.toInt % 64 := by
    rw [BitVec.toInt_smod]
    exact Int.fmod_eq_emod_of_nonneg _ (by decide)
  have hlt := (b.toBitVec.smod 64).isLt
  rw [BitVec.toInt_eq_toNat_cond] at hf
  have hlo : 0 ≤ b.toInt % 64 := Int.emod_nonneg _ (by decide)
  have hhi : b.toInt % 64 < 64 := Int.emod_lt_of_pos _ (by decide)
  rw [shiftCount, ← hf]
  split at hf <;> split <;> omega

lemma shiftLeft_eq (a b : Int64) : Int64.ofInt (a.toInt * 2 ^ shiftCount b) = a <<< b := by
  rw [← Int64.toInt_inj, Int64.toInt_ofInt]
  have h : (a <<< b).toInt = (a.toBitVec <<< shiftCount b).toInt := by
    rw [← toNat_smod, ← BitVec.shiftLeft_eq', ← Int64.toBitVec_shiftLeft]
    rfl
  have ha : a.toInt = (a.toBitVec.toNat : Int).bmod (2 ^ 64) := BitVec.toInt_eq_toNat_bmod _
  rw [h, BitVec.toInt_shiftLeft, Nat.shiftLeft_eq, ha]
  simp [Int64.size]

lemma shiftRight_eq (a b : Int64) : Int64.ofInt (a.toInt / 2 ^ shiftCount b) = a >>> b := by
  have h : (a >>> b).toInt = (a.toBitVec.sshiftRight (shiftCount b)).toInt := by
    rw [← toNat_smod, ← BitVec.sshiftRight_eq', ← Int64.toBitVec_shiftRight]
    rfl
  rw [← Int64.ofInt_toInt (a >>> b), h, BitVec.toInt_sshiftRight, Int.shiftRight_eq_div_pow]
  simp

lemma truth_congr {b : Bool} {p : Prop} [Decidable p] (h : b = true ↔ p) : truth b = truth p :=
  congrArg truth (Bool.eq_iff_iff.mpr (by simpa using h))

theorem apply_eq (op : Operator) (a b : Int64) :
    op.apply a b = (op.meaning a b).elim (.error .divisionByZero) .ok := by
  cases op with
  | or => exact congrArg Except.ok (truth_congr (by simp))
  | and => exact congrArg Except.ok (truth_congr (by simp))
  | bitOr | bitXor | bitAnd => rfl
  | eq => exact congrArg Except.ok (truth_congr (by simp [Int64.toInt_inj]))
  | ne => exact congrArg Except.ok (truth_congr (by simp [Int64.toInt_inj]))
  | lt => exact congrArg Except.ok (truth_congr (by simp [Int64.lt_iff_toInt_lt]))
  | gt => exact congrArg Except.ok (truth_congr (by simp [Int64.lt_iff_toInt_lt]))
  | le => exact congrArg Except.ok (truth_congr (by simp [Int64.le_iff_toInt_le]))
  | ge => exact congrArg Except.ok (truth_congr (by simp [Int64.le_iff_toInt_le]))
  | shiftLeft => simp only [apply, meaning, shiftLeft_eq, Option.elim_some]
  | shiftRight => simp only [apply, meaning, shiftRight_eq, Option.elim_some]
  | add => simp [apply, meaning, Int64.ofInt_add, Int64.ofInt_toInt]
  | sub => simp [apply, meaning, Int64.ofInt_sub, Int64.ofInt_toInt]
  | mul => simp [apply, meaning, Int64.ofInt_mul, Int64.ofInt_toInt]
  | div =>
    have h : Int64.ofInt (a.toInt.tdiv b.toInt) = a / b := by
      rw [← Int64.toInt_inj, Int64.toInt_ofInt, Int64.toInt_div]
    simp only [apply, meaning, h]
    split <;> rfl
  | rem =>
    have h : Int64.ofInt (a.toInt.tmod b.toInt) = a % b := by
      rw [← Int64.toInt_mod, Int64.ofInt_toInt]
    simp only [apply, meaning, h]
    split <;> rfl

lemma meaning_eq_none_iff {op : Operator} {a b : Int64} :
    op.meaning a b = none ↔ (op = .div ∨ op = .rem) ∧ b = 0 := by
  cases op <;> simp [meaning]

end Operator

def Sign.meaning : Sign → Int64 → Int64
  | .not, a => Operator.truth (a = 0)
  | .complement, a => ~~~a
  | .minus, a => .ofInt (-a.toInt)
  | .plus, a => a

namespace Expr

def value : Expr → Option Int64
  | .name _ => some 0
  | .literal text => (Condition.literal text).toOption
  | .unary s e => e.value.map s.meaning
  | .binary op l r => l.value.bind fun a => r.value.bind (op.meaning a)

inductive Undefined : Expr → Prop
  | literal {text : String} : Condition.literal text = .error (.badInteger text) →
    Undefined (.literal text)
  | zeroDivisor {op : Operator} {l r : Expr} :
      op = .div ∨ op = .rem → r.value = some 0 → Undefined (.binary op l r)
  | unary {s : Sign} {e : Expr} : Undefined e → Undefined (.unary s e)
  | left {op : Operator} {l r : Expr} : Undefined l → Undefined (.binary op l r)
  | right {op : Operator} {l r : Expr} : Undefined r → Undefined (.binary op l r)

lemma literal_cases (text : String) :
    (∃ v, Condition.literal text = .ok v) ∨ Condition.literal text = .error (.badInteger text) := by
  simp only [Condition.literal]
  split
  · exact .inl ⟨_, rfl⟩
  · exact .inr rfl

lemma undefined_of_value {e : Expr} (h : e.value = none) : e.Undefined := by
  induction e with
  | name text => cases h
  | literal text =>
    rcases literal_cases text with ⟨v, hv⟩ | he
    · simp [value, hv, Except.toOption] at h
    · exact .literal he
  | unary s e ih => exact .unary (ih (by simpa [value] using h))
  | binary op l r ihl ihr =>
    cases hl : l.value with
    | none => exact .left (ihl hl)
    | some a =>
      cases hr : r.value with
      | none => exact .right (ihr hr)
      | some b =>
        simp only [value, hl, hr, Option.bind_some, Operator.meaning_eq_none_iff] at h
        obtain ⟨ho, rfl⟩ := h
        exact .zeroDivisor ho hr

lemma Undefined.value {e : Expr} (h : e.Undefined) : e.value = none := by
  induction h with
  | literal h => simp [Expr.value, h, Except.toOption]
  | unary _ ih => simp [Expr.value, ih]
  | left _ ih => simp [Expr.value, ih]
  | right _ ih => simp [Expr.value, ih]
  | @zeroDivisor op l r ho hr =>
    have hz : ∀ a, op.meaning a 0 = none := fun a => Operator.meaning_eq_none_iff.mpr ⟨ho, rfl⟩
    simp [Expr.value, hr, hz]

theorem value_eq_none_iff {e : Expr} : e.value = none ↔ e.Undefined :=
  ⟨undefined_of_value, Undefined.value⟩

end Expr

def outcome {n : Nat} (r : Except Error (Parsed n)) : Except Error (Int64 × List Token) :=
  r.map fun p => (p.value, p.rest)

lemma outcome_map {m n : Nat} (r : Except Error (Parsed m)) (f : Int64 → Int64) (h : m ≤ n) :
    outcome (r.map (·.map f h)) = (outcome r).map fun p => (f p.1, p.2) := by
  cases r <;> rfl

lemma outcome_map_id {m n : Nat} (r : Except Error (Parsed m)) (h : m ≤ n) :
    outcome (r.map (·.map id h)) = outcome r := by
  cases r <;> rfl

lemma outcome_name {t : Token} (rest : List Token) (h : t.kind = .ident) :
    outcome (operand (t :: rest)) = .ok (0, rest) := by
  rw [operand, h]
  rfl

lemma outcome_literal {t : Token} (rest : List Token) (h : t.kind = .number) :
    outcome (operand (t :: rest)) = (literal t.text).map fun v => (v, rest) := by
  rw [operand, h]
  cases literal t.text <;> rfl

lemma outcome_unary {t : Token} {s : Sign} (rest : List Token) (h : t.isPunct s.text) :
    outcome (operand (t :: rest)) = (outcome (operand rest)).map fun p => (s.meaning p.1, p.2) := by
  simp only [Token.isPunct, decide_eq_true_eq] at h
  have hn : ∀ v : Int64, Sign.meaning .not v = Operator.truth (v == 0) :=
    fun v => (Operator.truth_congr (by simp)).symm
  have hm : ∀ v : Int64, Sign.meaning .minus v = -v :=
    fun v => by simp [Sign.meaning, Int64.ofInt_neg]
  cases s with
  | not =>
    rw [operand, h.1, h.2]
    simp only [hn]
    exact outcome_map _ _ _
  | minus =>
    rw [operand, h.1, h.2]
    simp only [hm]
    exact outcome_map _ _ _
  | complement | plus =>
    rw [operand, h.1, h.2]
    exact outcome_map _ _ _

lemma outcome_open {t : Token} (rest : List Token) (h : t.isPunct "(") :
    outcome (operand (t :: rest)) = (outcome (expression 0 rest)).bind fun p =>
      match p.2 with
      | [] => .error .missingCloseParen
      | close :: after =>
        if close.isPunct ")" then .ok (p.1, after) else .error (.unexpected close.text) := by
  simp only [Token.isPunct, decide_eq_true_eq] at h
  rw [operand, h.1, h.2]
  rcases expression 0 rest with e | ⟨v, _ | ⟨close, after⟩, hlt⟩
  · rfl
  · rfl
  · by_cases hc : close.isPunct ")" <;> simp [hc, outcome, Except.map, Except.bind]

lemma outcome_expression (least : Nat) (ts : List Token) :
    outcome (expression least ts) = (outcome (operand ts)).bind fun p =>
      outcome (climb least p.1 p.2) := by
  rw [expression]
  rcases operand ts with e | ⟨v, rest, h⟩
  · rfl
  · exact outcome_map_id (climb least v rest) _

lemma outcome_climb_of_stops {least : Nat} {left : Int64} {ts : List Token} (h : Stops least ts) :
    outcome (climb least left ts) = .ok (left, ts) := by
  cases ts with
  | nil =>
    rw [climb]
    rfl
  | cons t rest =>
    rw [climb]
    cases ho : Operator.ofToken? t with
    | none => rfl
    | some op =>
      have hlt := (stops_cons_of_operator (Operator.ofToken_eq_some_iff.mp ho)).mp h
      simp only [hlt, if_true]
      rfl

lemma outcome_climb {least : Nat} {left : Int64} {t : Token} {op : Operator} (rest : List Token)
    (ho : Operator.ofToken? t = some op) (hle : least ≤ op.precedence) :
    outcome (climb least left (t :: rest)) =
      (outcome (expression (op.precedence + 1) rest)).bind fun p =>
        (op.apply left p.1).bind fun v => outcome (climb least v p.2) := by
  rw [climb]
  simp only [ho, Nat.not_lt.mpr hle, if_false]
  rcases expression (op.precedence + 1) rest with e | ⟨right, after, hlt⟩
  · rfl
  · cases ha : op.apply left right with
    | error e => simp [ha, outcome, Except.map, Except.bind]
    | ok v =>
      simp only [ha]
      rw [outcome_map_id]
      simp [ha, outcome, Except.map, Except.bind]

def Task.Evaluates : Task → List Token → Expr → List Token → Prop
  | .operand, ts, e, rest => ∀ v, e.value = some v → outcome (Condition.operand ts) = .ok (v, rest)
  | .climb least l, ts, e, rest => ∀ v, e.value = some v →
      ∃ left, l.value = some left ∧ outcome (Condition.climb least left ts) = .ok (v, rest)

lemma Reads.evaluates {k : Task} {ts rest : List Token} {e : Expr} (h : Reads k ts e rest) :
    k.Evaluates ts e rest := by
  induction h with
  | name hk =>
    rintro v ⟨⟩
    exact outcome_name _ hk
  | @literal t rest hk =>
    intro v hv
    obtain ⟨v', hl⟩ | he := Expr.literal_cases t.text
    · obtain rfl : v' = v := by simpa [Expr.value, hl, Except.toOption] using hv
      rw [outcome_literal _ hk, hl]
      rfl
    · simp [Expr.value, he, Except.toOption] at hv
  | unary ht _ ih =>
    intro v hv
    obtain ⟨a, ha, rfl⟩ := Option.map_eq_some_iff.mp hv
    rw [outcome_unary _ ht, ih a ha]
    rfl
  | paren ho hc _ _ ihx ihe =>
    intro v hv
    obtain ⟨a, ha, hclimb⟩ := ihe v hv
    rw [outcome_open _ ho, outcome_expression, ihx a ha]
    simp only [Except.bind, hclimb, hc, if_true]
  | stop hs =>
    intro v hv
    exact ⟨v, hv, outcome_climb_of_stops hs⟩
  | @step least t op l x r e ts mid after rest ho hle _ _ _ ihx ihr ihe =>
    intro v hv
    obtain ⟨c, hc, hrest⟩ := ihe v hv
    obtain ⟨a, ha, hb⟩ := Option.bind_eq_some_iff.mp hc
    obtain ⟨b, hb, hop⟩ := Option.bind_eq_some_iff.mp hb
    obtain ⟨y, hy, hright⟩ := ihr b hb
    refine ⟨a, ha, ?_⟩
    rw [outcome_climb _ (Operator.ofToken_eq_some_iff.mpr ho) hle, outcome_expression, ihx y hy]
    simp only [Except.bind, hright, Operator.apply_eq, hop, Option.elim_some, hrest]

lemma reads_unary {t : Token} {s : Sign} {rest : List Token} (ht : t.isPunct s.text)
    (ih : ∀ v after, outcome (operand rest) = .ok (v, after) → ∃ e, Reads .operand rest e after ∧
      e.value = some v)
    {v : Int64} {after : List Token} (h : outcome (operand (t :: rest)) = .ok (v, after)) :
    ∃ e, Reads .operand (t :: rest) e after ∧ e.value = some v := by
  rw [outcome_unary rest ht] at h
  cases ho : outcome (operand rest) with
  | error e =>
    rw [ho] at h
    cases h
  | ok p =>
    rw [ho] at h
    obtain ⟨rfl, rfl⟩ := Prod.mk.inj (Except.ok.inj h)
    obtain ⟨e, hr, he⟩ := ih p.1 p.2 ho
    exact ⟨.unary s e, .unary ht hr, by simp [Expr.value, he]⟩

lemma isPunct_of_text {t : Token} {s : String} (hk : t.kind = .punct) (ht : t.text = s) :
    t.isPunct s := by
  simp [Token.isPunct, hk, ht]

lemma reads_of_outcome :
    (∀ ts v rest, outcome (operand ts) = .ok (v, rest) → ∃ e, Reads .operand ts e rest ∧
      e.value = some v) ∧
    (∀ least ts v rest, outcome (expression least ts) = .ok (v, rest) →
      ∃ x mid e, Reads .operand ts x mid ∧ Reads (.climb least x) mid e rest ∧ e.value = some v) ∧
    ∀ least left ts l v rest, l.value = some left → outcome (climb least left ts) = .ok (v, rest) →
      ∃ e, Reads (.climb least l) ts e rest ∧ e.value = some v := by
  -- the evaluator knows only the value of what stands to the left, so the expression `l` there is
  -- any with that value
  refine operand.mutual_induct
    (fun ts => ∀ v rest, outcome (operand ts) = .ok (v, rest) → ∃ e, Reads .operand ts e rest ∧
      e.value = some v)
    (fun least ts => ∀ v rest, outcome (expression least ts) = .ok (v, rest) →
      ∃ x mid e, Reads .operand ts x mid ∧ Reads (.climb least x) mid e rest ∧ e.value = some v)
    (fun least left ts => ∀ l v rest, l.value = some left →
      outcome (climb least left ts) = .ok (v, rest) →
      ∃ e, Reads (.climb least l) ts e rest ∧ e.value = some v)
    ?empty ?name ?literal ?not ?complement ?minus ?plus ?openError ?openEnd ?close ?openOther
      ?punct ?other
    ?noOperand ?operand ?climbEnd ?noOperator ?loose ?noRight ?noResult ?step
  case empty =>
    intro v rest h
    rw [operand] at h
    cases h
  case name =>
    intro t rest hk v after h
    rw [outcome_name rest hk] at h
    cases h
    exact ⟨_, .name hk, rfl⟩
  case literal =>
    intro t rest hk v after h
    rw [outcome_literal rest hk] at h
    obtain ⟨v', hl⟩ | he := Expr.literal_cases t.text
    · rw [hl] at h
      cases h
      exact ⟨_, .literal hk, by simp [Expr.value, hl, Except.toOption]⟩
    · rw [he] at h
      cases h
  case not =>
    intro t rest hk ht ih v after h
    exact reads_unary (s := .not) (isPunct_of_text hk ht) ih h
  case complement =>
    intro t rest hk ht ih v after h
    exact reads_unary (s := .complement) (isPunct_of_text hk ht) ih h
  case minus =>
    intro t rest hk ht ih v after h
    exact reads_unary (s := .minus) (isPunct_of_text hk ht) ih h
  case plus =>
    intro t rest hk ht ih v after h
    exact reads_unary (s := .plus) (isPunct_of_text hk ht) ih h
  case openError =>
    intro t rest hk ht e he ih v after h
    rw [outcome_open rest (isPunct_of_text hk ht), he] at h
    cases h
  case openEnd =>
    intro t rest hk ht a hlt he ih v after h
    rw [outcome_open rest (isPunct_of_text hk ht), he] at h
    cases h
  case openOther =>
    intro t rest hk ht a close after' hlt he hc ih v after h
    rw [outcome_open rest (isPunct_of_text hk ht), he] at h
    simp [outcome, Except.map, Except.bind, hc] at h
  case close =>
    intro t rest hk ht a close after' hlt he hc ih v after h
    rw [outcome_open rest (isPunct_of_text hk ht), he] at h
    obtain ⟨rfl, rfl⟩ : a = v ∧ after' = after := by
      simpa [outcome, Except.map, Except.bind, hc] using h
    obtain ⟨x, mid, e, hx, hclimb, hv⟩ := ih a (close :: after') (by rw [he]; rfl)
    exact ⟨e, .paren (isPunct_of_text hk ht) hc hx hclimb, hv⟩
  case punct =>
    intro t rest hk hn hc hm hp ho v after h
    rw [operand, hk] at h
    simp only at h
    cases h
  case other =>
    intro t rest hi hn hp v after h
    rw [operand] at h
    split at h
    · exact (hi ‹_›).elim
    · exact (hn ‹_›).elim
    · exact (hp ‹_›).elim
    · cases h
  case noOperand =>
    intro least ts e he ih v rest h
    rw [outcome_expression, he] at h
    cases h
  case operand =>
    intro least ts a mid hlt he ih ihc v rest h
    rw [outcome_expression, he] at h
    obtain ⟨x, hx, hv⟩ := ih a mid (by rw [he]; rfl)
    obtain ⟨e, hclimb, hv⟩ := ihc x v rest hv h
    exact ⟨x, mid, e, hx, hclimb, hv⟩
  case climbEnd =>
    intro least left l v rest hl h
    rw [outcome_climb_of_stops (stops_nil least)] at h
    cases h
    exact ⟨l, .stop (stops_nil least), hl⟩
  case noOperator =>
    intro least left t ts ho l v rest hl h
    have hs : Stops least (t :: ts) := stops_cons_of_none ho
    rw [outcome_climb_of_stops hs] at h
    cases h
    exact ⟨l, .stop hs, hl⟩
  case loose =>
    intro least left t ts op ho hlt l v rest hl h
    have hs : Stops least (t :: ts) :=
      (stops_cons_of_operator (Operator.ofToken_eq_some_iff.mp ho)).mpr hlt
    rw [outcome_climb_of_stops hs] at h
    cases h
    exact ⟨l, .stop hs, hl⟩
  case noRight =>
    intro least left t ts op ho hle e he ih l v rest hl h
    rw [outcome_climb ts ho (Nat.not_lt.mp hle), he] at h
    cases h
  case noResult =>
    intro least left t ts op ho hle b after hlt he e ha ih l v rest hl h
    rw [outcome_climb ts ho (Nat.not_lt.mp hle), he] at h
    simp [outcome, Except.map, Except.bind, ha] at h
  case step =>
    intro least left t ts op ho hle b after hlt he c ha ihr ihc l v rest hl h
    rw [outcome_climb ts ho (Nat.not_lt.mp hle), he] at h
    obtain ⟨x, mid, r, hx, hr, hb⟩ := ihr b after (by rw [he]; rfl)
    have hm : op.meaning left b = some c := by
      rw [Operator.apply_eq] at ha
      cases hm : op.meaning left b with
      | none => simp [hm] at ha
      | some c' => simpa [hm] using ha
    obtain ⟨e, hclimb, hv⟩ := ihc (.binary op l r) v rest (by simp [Expr.value, hl, hb, hm])
      (by simpa [outcome, Except.map, Except.bind, ha] using h)
    have htext := Operator.ofToken_eq_some_iff.mp ho
    exact ⟨e, .step htext (Nat.not_lt.mp hle) hx hr hclimb, hv⟩

lemma evaluate_eq_ok {ts : List Token} {v : Int64} :
    evaluate ts = .ok v ↔ outcome (expression 0 (Token.solid ts)) = .ok (v, []) := by
  rw [evaluate]
  rcases expression 0 (Token.solid ts) with e | ⟨a, _ | ⟨t, rest⟩, h⟩ <;> simp [outcome, Except.map]

lemma evaluate_eq_ok_iff {ts : List Token} {v : Int64} :
    evaluate ts = .ok v ↔ ∃ e, Derives 0 (Token.solid ts) e ∧ e.value = some v := by
  rw [evaluate_eq_ok]
  constructor
  · intro h
    obtain ⟨x, mid, e, hx, he, hv⟩ := reads_of_outcome.2.1 0 _ v [] h
    exact ⟨e, derives_iff.mpr ⟨x, mid, hx, he⟩, hv⟩
  · rintro ⟨e, he, hv⟩
    obtain ⟨x, mid, hx, he⟩ := derives_iff.mp he
    obtain ⟨a, ha, hrest⟩ := he.evaluates v hv
    rw [outcome_expression, hx.evaluates a ha]
    exact hrest

/-- The value is that of the one expression that the tokens spell. There is none if they spell none,
or one in which a literal is malformed or something is divided by zero, in whatever part. -/
theorem evaluate_eq_derived_value (ts : List Token) :
    (∀ e e', Derives 0 (Token.solid ts) e → Derives 0 (Token.solid ts) e' → e = e') ∧
    (∀ v, evaluate ts = .ok v ↔ ∃ e, Derives 0 (Token.solid ts) e ∧ e.value = some v) ∧
    ((∃ err, evaluate ts = .error err) ↔ ∀ e, Derives 0 (Token.solid ts) e → e.Undefined) := by
  refine ⟨fun e e' => Derives.unique, fun v => evaluate_eq_ok_iff, ?_⟩
  constructor
  · rintro ⟨err, herr⟩ e he
    apply Expr.value_eq_none_iff.mp
    cases hv : e.value with
    | none => rfl
    | some v =>
      have hok := evaluate_eq_ok_iff.mpr ⟨e, he, hv⟩
      rw [herr] at hok
      cases hok
  · intro h
    cases hv : evaluate ts with
    | error err => exact ⟨err, rfl⟩
    | ok v =>
      obtain ⟨e, he, hval⟩ := evaluate_eq_ok_iff.mp hv
      rw [(h e he).value] at hval
      cases hval

example :
    evaluate (Token.tokenize "7 - 2 - 1 == 4 && (-9223372036854775807 - 1) / -1 < 0") = .ok 1 := by
  cbv

end ShaderPipeline.Condition
