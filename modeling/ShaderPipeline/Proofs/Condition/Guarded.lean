import ShaderPipeline.Proofs.Condition.Value

/-! Conditions that divide by zero. Every operand is evaluated, one that cannot matter as well. -/

namespace ShaderPipeline.Condition

namespace Expr

def IsNumeric : Expr → Prop
  | .name _ => True
  | .literal text => ∃ v, Condition.literal text = .ok v
  | .unary _ e => e.IsNumeric
  | .binary _ l r => l.IsNumeric ∧ r.IsNumeric

inductive DividesByZero : Expr → Prop
  | zeroDivisor {op : Operator} {l r : Expr} : op = .div ∨ op = .rem → r.value = some 0 →
    DividesByZero (.binary op l r)
  | unary {s : Sign} {e : Expr} : DividesByZero e → DividesByZero (.unary s e)
  | left {op : Operator} {l r : Expr} : DividesByZero l → DividesByZero (.binary op l r)
  | right {op : Operator} {l r : Expr} : DividesByZero r → DividesByZero (.binary op l r)

lemma DividesByZero.undefined {e : Expr} (h : e.DividesByZero) : e.Undefined := by
  induction h with
  | zeroDivisor ho hr => exact .zeroDivisor ho hr
  | unary _ ih => exact .unary ih
  | left _ ih => exact .left ih
  | right _ ih => exact .right ih

lemma Undefined.dividesByZero {e : Expr} (h : e.Undefined) (hn : e.IsNumeric) :
    e.DividesByZero := by
  induction h with
  | literal herr =>
    obtain ⟨v, hv⟩ := hn
    cases herr.symm.trans hv
  | zeroDivisor ho hr => exact .zeroDivisor ho hr
  | unary _ ih => exact .unary (ih hn)
  | left _ ih => exact .left (ih hn.1)
  | right _ ih => exact .right (ih hn.2)

theorem value_eq_none_iff_dividesByZero {e : Expr} (hn : e.IsNumeric) :
    e.value = none ↔ e.DividesByZero :=
  ⟨fun h => (value_eq_none_iff.mp h).dividesByZero hn, fun h => value_eq_none_iff.mpr h.undefined⟩

end Expr

def Task.Numeric : Task → Prop
  | .operand => True
  | .climb _ l => l.IsNumeric

lemma Reads.numeric {k : Task} {ts rest : List Token} {e : Expr} (h : Reads k ts e rest)
    (hn : e.IsNumeric) : k.Numeric := by
  induction h with
  | stop => exact hn
  | step _ _ _ _ _ _ _ ihe => exact (ihe hn).1
  | _ => trivial

def Task.Fails : Task → List Token → Expr → Prop
  | .operand, ts, e => e.value = none → outcome (Condition.operand ts) = .error .divisionByZero
  | .climb least l, ts, e => e.value = none → l.value = none ∨
      ∃ left, l.value = some left ∧ outcome (Condition.climb least left ts) = .error .divisionByZero

lemma Reads.expression_fails {least : Nat} {ts mid : List Token} {x e : Expr}
    (hx : Reads .operand ts x mid) (hfx : Task.operand.Fails ts x)
    (hfe : (Task.climb least x).Fails mid e) (he : e.value = none) :
    outcome (Condition.expression least ts) = .error .divisionByZero := by
  rw [outcome_expression]
  rcases hfe he with hnone | ⟨left, hleft, hclimb⟩
  · rw [hfx hnone]
    rfl
  · rw [hx.evaluates left hleft]
    exact hclimb

lemma Reads.fails {k : Task} {ts rest : List Token} {e : Expr} (h : Reads k ts e rest)
    (hn : e.IsNumeric) : k.Fails ts e := by
  induction h with
  | name => exact nofun
  | literal =>
    intro he
    obtain ⟨v, hv⟩ := hn
    simp [Expr.value, hv, Except.toOption] at he
  | unary ht _ ih =>
    intro he
    rw [outcome_unary _ ht, ih hn (by simpa [Expr.value] using he)]
    rfl
  | paren ho _ hx he ihx ihe =>
    intro hv
    rw [outcome_open _ ho, hx.expression_fails (ihx (he.numeric hn)) (ihe hn) hv]
    rfl
  | stop => exact Or.inl
  | @step least t op l x r e ts mid after rest ho hle hx hr he ihx ihr ihe =>
    intro hv
    have hnr : r.IsNumeric := (he.numeric hn).2
    cases hl : l.value with
    | none => exact .inl rfl
    | some a =>
      refine .inr ⟨a, rfl, ?_⟩
      rw [outcome_climb _ (Operator.ofToken_eq_some_iff.mpr ho) hle]
      cases hrv : r.value with
      | none =>
        rw [hx.expression_fails (ihx (hr.numeric hnr)) (ihr hnr) hrv]
        rfl
      | some b =>
        obtain ⟨y, hy, hright⟩ := hr.evaluates b hrv
        rw [outcome_expression, hx.evaluates y hy]
        simp only [Except.bind, hright, Operator.apply_eq]
        rcases ihe hn hv with hnone | ⟨c, hc, hclimb⟩
        · rw [show op.meaning a b = none by simpa [Expr.value, hl, hrv] using hnone]
          rfl
        · rw [show op.meaning a b = some c by simpa [Expr.value, hl, hrv] using hc]
          exact hclimb

theorem evaluate_eq_elim {ts : List Token} {e : Expr} (h : Derives 0 (Token.solid ts) e)
    (hn : e.IsNumeric) : evaluate ts = e.value.elim (.error .divisionByZero) .ok := by
  cases hv : e.value with
  | some v => exact evaluate_eq_ok_iff.mpr ⟨e, h, hv⟩
  | none =>
    obtain ⟨x, mid, hx, he⟩ := derives_iff.mp h
    have hfail := hx.expression_fails (hx.fails (he.numeric hn)) (he.fails hn) hv
    rw [evaluate]
    cases hr : expression 0 (Token.solid ts) with
    | error err =>
      rw [hr] at hfail
      obtain rfl := Except.error.inj hfail
      rfl
    | ok r =>
      rw [hr] at hfail
      cases hfail

def guarded (n operator : String) (ts : List Token) : List Token :=
  .number n :: .blank :: .punct operator :: .blank :: .punct "(" :: (ts ++ [.punct ")"])

lemma derives_guarded {n operator : String} {op : Operator} {ts : List Token} {e : Expr}
    (ho : op.text = operator) (h : Derives 0 (Token.solid ts) e) :
    Derives 0 (Token.solid (guarded n operator ts)) (.binary op (.literal n) e) := by
  have hsolid : Token.solid (guarded n operator ts) =
      [.number n] ++ .punct operator :: .punct "(" :: (Token.solid ts ++ [.punct ")"]) := by
    simp [guarded, Token.solid, Token.isSpace, Token.number, Token.punct, Token.blank]
  have hpunct : (Token.punct operator).isPunct op.text := decide_eq_true ⟨rfl, ho.symm⟩
  rw [hsolid]
  exact .binary (Nat.zero_le _) hpunct (.literal rfl) (.paren rfl rfl h)

lemma evaluate_guarded {n operator : String} {op : Operator} {a c : Int64}
    {ts : List Token} {e : Expr} (hn : literal n = .ok a) (ho : op.text = operator)
    (hop : ∀ v, op.meaning a v = some c) (h : Derives 0 (Token.solid ts) e) (he : e.IsNumeric) :
    (¬ e.DividesByZero → evaluate (guarded n operator ts) = .ok c) ∧
      (e.DividesByZero → evaluate (guarded n operator ts) = .error .divisionByZero) := by
  have hvalue : (Expr.binary op (.literal n) e).value = e.value.bind fun _ => some c := by
    simp [Expr.value, hn, Except.toOption, hop]
  rw [evaluate_eq_elim (derives_guarded ho h) ⟨⟨a, hn⟩, he⟩, hvalue,
    ← Expr.value_eq_none_iff_dividesByZero he]
  cases e.value with
  | none => exact ⟨fun hnone => (hnone rfl).elim, fun _ => rfl⟩
  | some v => exact ⟨fun _ => rfl, fun hnone => (Option.some_ne_none v hnone).elim⟩

/-- A left operand that decides the value does not keep the right one from being evaluated. -/
theorem guarded_iff {ts : List Token} {e : Expr} (h : Derives 0 (Token.solid ts) e)
    (he : e.IsNumeric) :
    (evaluate (guarded "0" "&&" ts) = .ok 0 ↔ ¬ e.DividesByZero) ∧
    (evaluate (guarded "1" "||" ts) = .ok 1 ↔ ¬ e.DividesByZero) ∧
    (e.DividesByZero → evaluate (guarded "0" "&&" ts) = .error .divisionByZero ∧
      evaluate (guarded "1" "||" ts) = .error .divisionByZero) := by
  have hzero : literal "0" = .ok 0 := by cbv
  have hone : literal "1" = .ok 1 := by cbv
  have hconj : Operator.text .and = "&&" := rfl
  have hdisj : Operator.text .or = "||" := rfl
  have hand : ∀ v, Operator.meaning .and 0 v = some 0 := fun _ => rfl
  have hor : ∀ v, Operator.meaning .or 1 v = some 1 :=
    fun v => by simp [Operator.meaning, Operator.truth]
  obtain ⟨hfalse, hfalse'⟩ := evaluate_guarded hzero hconj hand h he
  obtain ⟨htrue, htrue'⟩ := evaluate_guarded hone hdisj hor h he
  refine ⟨⟨fun hok hz => ?_, hfalse⟩, ⟨fun hok hz => ?_, htrue⟩, fun hz => ⟨hfalse' hz, htrue' hz⟩⟩
  · cases (hfalse' hz).symm.trans hok
  · cases (htrue' hz).symm.trans hok

theorem guarded_iff_of_quotient :
    ∃ e, Derives 0 (Token.solid (Token.tokenize "N + 8 / 2u")) e ∧ e.IsNumeric ∧ ¬ e.DividesByZero ∧
      evaluate (Token.tokenize "0 && (N + 8 / 2u)") = .ok 0 ∧
      evaluate (Token.tokenize "1 || (N + 8 / 2u)") = .ok 1 := by
  have htokens : Token.solid (Token.tokenize "N + 8 / 2u") =
      [.ident "N"] ++ .punct "+" :: ([.number "8"] ++ .punct "/" :: [.number "2u"]) := by cbv
  have hderives : Derives 0 (Token.solid (Token.tokenize "N + 8 / 2u"))
      (.binary .add (.name "N") (.binary .div (.literal "8") (.literal "2u"))) := by
    rw [htokens]
    exact .binary (by decide) rfl (.name rfl)
      (.binary (by decide) rfl (.literal rfl) (.literal rfl))
  have hnumeric :
      Expr.IsNumeric (.binary .add (.name "N") (.binary .div (.literal "8") (.literal "2u"))) :=
    ⟨trivial, ⟨8, by cbv⟩, 2, by cbv⟩
  have hvalue :
      Expr.value (.binary .add (.name "N") (.binary .div (.literal "8") (.literal "2u"))) =
        some 4 := by cbv
  have hdivides :
      ¬ Expr.DividesByZero (.binary .add (.name "N") (.binary .div (.literal "8")
        (.literal "2u"))) := by
    rw [← Expr.value_eq_none_iff_dividesByZero hnumeric, hvalue]
    exact Option.some_ne_none 4
  have hand :
      Token.tokenize "0 && (N + 8 / 2u)" = guarded "0" "&&" (Token.tokenize "N + 8 / 2u") := by cbv
  have hor :
      Token.tokenize "1 || (N + 8 / 2u)" = guarded "1" "||" (Token.tokenize "N + 8 / 2u") := by cbv
  obtain ⟨hfalse, htrue, -⟩ := guarded_iff hderives hnumeric
  rw [hand, hor]
  exact ⟨_, hderives, hnumeric, hdivides, hfalse.mpr hdivides, htrue.mpr hdivides⟩

theorem guarded_quotient_fails :
    ∃ e, Derives 0 (Token.solid (Token.tokenize "1 / 0")) e ∧ e.IsNumeric ∧
      Token.tokenize "0 && (1 / 0)" = guarded "0" "&&" (Token.tokenize "1 / 0") ∧
      evaluate (Token.tokenize "0 && (1 / 0)") = .error .divisionByZero ∧
      Token.tokenize "1 || (1 / 0)" = guarded "1" "||" (Token.tokenize "1 / 0") ∧
      evaluate (Token.tokenize "1 || (1 / 0)") = .error .divisionByZero := by
  have htokens :
      Token.solid (Token.tokenize "1 / 0") = [.number "1"] ++ .punct "/" :: [.number "0"] := by cbv
  have hderives :
      Derives 0 (Token.solid (Token.tokenize "1 / 0"))
        (.binary .div (.literal "1") (.literal "0")) := by
    rw [htokens]
    exact .binary (by decide) rfl (.literal rfl) (.literal rfl)
  exact ⟨_, hderives, ⟨⟨1, by cbv⟩, 0, by cbv⟩, by cbv, by cbv, by cbv, by cbv⟩

end ShaderPipeline.Condition
