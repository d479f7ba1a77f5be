import ShaderPipeline.Proofs.Condition.Value
import ShaderPipeline.Proofs.Token.Lexemes

/-! Integer literals of conditions, by their base and their digits. -/

namespace ShaderPipeline

namespace Condition

variable {base n : Nat} {c : Char} {cs ds : List Char}

def digits : List Char :=
  ['0', '1', '2', '3', '4', '5', '6', '7', '8', '9', 'a', 'b', 'c', 'd', 'e', 'f']

def digitValue (c : Char) : Nat :=
  digits.idxOf c.toLower

structure Denotes (base : Nat) (ds : List Char) (n : Nat) : Prop where
  nonempty : ds ≠ []
  inBase : ∀ d ∈ ds, digitValue d < base
  value : n = Nat.ofDigits base (ds.map digitValue).reverse

inductive IsInteger : List Char → Nat → Prop
  | hexadecimal {x : Char} {ds : List Char} {n : Nat} : x = 'x' ∨ x = 'X' → Denotes 16 ds n →
      IsInteger ('0' :: x :: ds) n
  | octal {ds : List Char} {n : Nat} : Denotes 8 ds n → IsInteger ('0' :: ds) n
  | zero : IsInteger ['0'] 0
  | decimal {d : Char} {ds : List Char} {n : Nat} :
      d ≠ '0' → Denotes 10 (d :: ds) n → IsInteger (d :: ds) n

inductive IsLiteral (n : Nat) : List Char → Prop
  | plain {cs : List Char} : n < 2 ^ 64 → IsInteger cs n → IsLiteral n cs
  | unsigned {cs : List Char} {u : Char} :
      n < 2 ^ 64 → IsInteger cs n → u = 'u' ∨ u = 'U' → IsLiteral n (cs ++ [u])

lemma digit_sixteen (c : Char) :
    Text.digit? 16 c = if digitValue c < 16 then some (digitValue c) else none := by
  by_cases hascii : c.toNat < 128
  · have htable : ∀ k < 128, Text.digit? 16 (.ofNat k) =
        if digitValue (.ofNat k) < 16 then some (digitValue (.ofNat k)) else none := by
      decide +kernel
    rw [← Char.ofNat_toNat c]
    exact htable _ hascii
  · -- no other character is a digit, nor has it a place in the list
    obtain ⟨hdigit, hlower, hupper⟩ :
        c.isDigit = false ∧ c.isLower = false ∧ c.isUpper = false := by
      simp only [Char.isDigit, Char.isLower, Char.isUpper, Char.toNat, UInt32.le_iff_toNat_le]
        at hascii ⊢
      grind
    have hself : c.toLower = c := by
      rw [Char.toLower, dif_neg]
      simpa [Char.isUpper] using hupper
    have hnone : c ∉ digits := fun hmem =>
      hascii (of_decide_eq_true (List.all_eq_true.mp (show digits.all (·.toNat < 128) = true by
        decide) c hmem))
    have hvalue : digitValue c = 16 := by
      rw [digitValue, hself, List.idxOf_eq_length hnone]
      rfl
    simp [Text.digit?, hdigit, hlower, hupper, hvalue]

lemma digit_eq (hb : base ≤ 16) (c : Char) :
    Text.digit? base c = if digitValue c < base then some (digitValue c) else none := by
  have hfilter : Text.digit? base c = (Text.digit? 16 c).filter (· < base) := by
    simp only [Text.digit?, Option.filter_filter]
    congr 1
    funext v
    grind
  rw [hfilter, digit_sixteen]
  by_cases h : digitValue c < 16
  · simp [h, Option.filter]
  · have hnot : ¬ digitValue c < base := by omega
    simp [h, hnot]

lemma foldlM_digit_iff (hb : base ≤ 16) (a : Nat) (ds : List Char) :
    ds.foldlM (fun n c => (Text.digit? base c).map (n * base + ·)) a = some n ↔
      (∀ d ∈ ds, digitValue d < base) ∧
        n = a * base ^ ds.length + Nat.ofDigits base (ds.map digitValue).reverse := by
  induction ds generalizing a with
  | nil => simp [pure, eq_comm]
  | cons d ds ih =>
    rw [List.foldlM_cons, digit_eq hb]
    by_cases hd : digitValue d < base
    · have hvalue : (a * base + digitValue d) * base ^ ds.length + Nat.ofDigits base
          (ds.map digitValue).reverse =
          a * base ^ (d :: ds).length + Nat.ofDigits base ((d :: ds).map digitValue).reverse := by
        rw [List.map_cons, List.reverse_cons, Nat.ofDigits_append, Nat.ofDigits_singleton,
          List.length_reverse, List.length_map, List.length_cons]
        ring
      simp only [hd, if_true, Option.map_some]
      change (ds.foldlM _ (a * base + digitValue d)) = some n ↔ _
      rw [ih, hvalue, List.forall_mem_cons, and_iff_right hd]
    · simp [hd]

lemma natOfDigits_eq_some_iff (hb : base ≤ 16) :
    Text.natOfDigits? base ds = some n ↔ Denotes base ds n := by
  cases ds with
  | nil => exact iff_of_false nofun fun h => h.nonempty rfl
  | cons d ds =>
    rw [Text.natOfDigits?, foldlM_digit_iff hb, Nat.zero_mul, Nat.zero_add]
    · exact ⟨fun h => ⟨List.cons_ne_nil d ds, h.1, h.2⟩, fun h => ⟨h.inBase, h.value⟩⟩
    · nofun

lemma denotes_nil : ¬ Denotes base [] n :=
  fun h => h.nonempty rfl

lemma Denotes.head (h : Denotes base (c :: ds) n) : digitValue c < base :=
  h.inBase c (.head _)

lemma Denotes.last (h : Denotes base ds n) : ∀ c, ds.getLast? = some c → digitValue c < base :=
  fun c hc => h.inBase c (List.mem_of_getLast? hc)

lemma denotes_zero : Denotes 10 ['0'] n ↔ n = 0 := by
  have hzero : digitValue '0' = 0 := by decide
  constructor
  · exact fun h => by simpa [hzero] using h.value
  · rintro rfl
    exact ⟨List.cons_ne_nil _ _, by simp [hzero], by simp [hzero]⟩

lemma isInteger_iff : IsInteger cs n ↔ Denotes (splitBase cs).1 (splitBase cs).2 n := by
  have hx : digitValue 'x' = 16 ∧ digitValue 'X' = 16 := by decide
  constructor
  · intro h
    cases h with
    | hexadecimal hx h => rcases hx with rfl | rfl <;> exact h
    | @octal ds _ h =>
      rcases ds with _ | ⟨d, ds⟩
      · exact (denotes_nil h).elim
      · -- the letter of a hexadecimal number is no octal digit
        have hd := h.head
        have hother : splitBase ('0' :: d :: ds) = (8, d :: ds) := by
          rw [splitBase.eq_def]
          split <;> grind
        rwa [hother]
    | zero => exact denotes_zero.mpr rfl
    | @decimal d ds _ hd h =>
      have hother : splitBase (d :: ds) = (10, d :: ds) := by
        rw [splitBase.eq_def]
        split <;> grind
      rwa [hother]
  · intro h
    rw [splitBase.eq_def] at h
    split at h
    · exact .hexadecimal (.inl rfl) h
    · exact .hexadecimal (.inr rfl) h
    · exact .octal h
    · rename_i hoctal
      rcases cs with _ | ⟨d, ds⟩
      · exact (denotes_nil h).elim
      by_cases hd : d = '0'
      · subst hd
        rcases ds with _ | ⟨d, ds⟩
        · obtain rfl := denotes_zero.mp h
          exact .zero
        · exact (hoctal d ds rfl).elim
      · exact .decimal hd h

lemma IsInteger.notSuffix (h : IsInteger cs n) {c : Char} (hc : cs.getLast? = some c) :
    c ≠ 'u' ∧ c ≠ 'U' := by
  have hlast : digitValue c < 16 := by
    cases h with
    | @hexadecimal x ds _ hx h =>
      rw [← List.nil_append ds, ← List.cons_append, ← List.cons_append,
        List.getLast?_append_of_ne_nil _ h.nonempty] at hc
      exact h.last c hc
    | octal h =>
      rw [← List.singleton_append, List.getLast?_append_of_ne_nil _ h.nonempty] at hc
      exact (h.last c hc).trans (by decide)
    | zero =>
      obtain rfl := Option.some.inj hc
      decide
    | decimal hd h => exact (h.last c hc).trans (by decide)
  constructor <;> (rintro rfl; exact absurd hlast (by decide))

lemma dropUnsignedSuffix_eq (h : IsInteger cs n) : dropUnsignedSuffix cs = cs := by
  rw [dropUnsignedSuffix]
  split
  · rename_i hc
    exact ((h.notSuffix hc).1 rfl).elim
  · rename_i hc
    exact ((h.notSuffix hc).2 rfl).elim
  · rfl

lemma dropUnsignedSuffix_append {u : Char} (hu : u = 'u' ∨ u = 'U') (cs : List Char) :
    dropUnsignedSuffix (cs ++ [u]) = cs := by
  rcases hu with rfl | rfl <;> simp [dropUnsignedSuffix]

lemma isLiteral_iff : IsLiteral n cs ↔ n < 2 ^ 64 ∧ IsInteger (dropUnsignedSuffix cs) n := by
  constructor
  · rintro (⟨hn, h⟩ | ⟨hn, h, hu⟩)
    · rw [dropUnsignedSuffix_eq h]
      exact ⟨hn, h⟩
    · rw [dropUnsignedSuffix_append hu]
      exact ⟨hn, h⟩
  · rintro ⟨hn, h⟩
    rw [dropUnsignedSuffix] at h
    split at h
    · rename_i hc
      obtain ⟨ds, rfl⟩ := List.getLast?_eq_some_iff.mp hc
      rw [List.dropLast_concat] at h
      exact .unsigned hn h (.inl rfl)
    · rename_i hc
      obtain ⟨ds, rfl⟩ := List.getLast?_eq_some_iff.mp hc
      rw [List.dropLast_concat] at h
      exact .unsigned hn h (.inr rfl)
    · exact .plain hn h

def Signless (cs : List Char) : Prop :=
  ∀ d, cs.head? = some d → d ≠ '-' ∧ d ≠ '+'

lemma word_eq (h : Signless ds) (base : Nat) : word? base ds =
    (Text.natOfDigits? base ds).bind fun n => if n < UInt64.size then some (.ofNat n)
      else none := by
  rw [word?.eq_def]
  split
  · exact ((h _ rfl).1 rfl).elim
  · exact ((h _ rfl).2 rfl).elim
  · rfl

open Token in
lemma isChain_of_spanNumber {last : Char} {s : List Char} (h : spanNumber last s = (s, [])) :
    (last :: s).IsChain fun a b => continuesNumber a b = true := by
  induction s generalizing last with
  | nil => exact .singleton last
  | cons c s ih =>
    cases hc : continuesNumber last c with
    | false => simp [spanNumber, hc] at h
    | true =>
      simp only [spanNumber, hc, if_true, Prod.mk.injEq, List.cons.injEq, true_and] at h
      exact .cons_cons hc (ih (Prod.ext h.1 h.2))

open Token in
lemma exists_number {t : Token} (h : t.IsLexeme) (hk : t.kind = .number) :
    ∃ c s, t.text.toList = c :: s ∧
    (c.isDigit = true ∨ c = '.') ∧ (c :: s).IsChain fun a b => continuesNumber a b = true := by
  obtain ⟨c, s, ht, hm⟩ := h.exists_munch
  rw [munch, hk] at hm
  split at hm
  · simp at hm
  split at hm
  · simp at hm
  split at hm
  · rename_i hstart
    refine ⟨c, s, ht, ?_, isChain_of_spanNumber (Prod.mk.inj hm).2⟩
    simp only [startsNumber, Bool.or_eq_true, Bool.and_eq_true, beq_iff_eq] at hstart
    exact hstart.imp_right And.left
  split at hm
  · simp at hm
  · simp at hm

lemma dropUnsignedSuffix_prefix (cs : List Char) : dropUnsignedSuffix cs <+: cs := by
  rw [dropUnsignedSuffix]
  split
  · exact List.dropLast_prefix cs
  · exact List.dropLast_prefix cs
  · exact List.prefix_refl cs

lemma signless_behind {last : Char} (hlast : last ≠ 'e' ∧ last ≠ 'E')
    (h : (last :: ds).IsChain fun a b => Token.continuesNumber a b = true) : Signless ds := by
  intro d hd
  have hnext := (List.isChain_cons.mp h).1 d hd
  constructor <;> (rintro rfl; simp [Token.continuesNumber, Token.isIdentChar, Char.isAlphanum,
    hlast] at hnext)

lemma signless_digits {t : Token} (h : t.IsLexeme) (hk : t.kind = .number) :
    Signless (splitBase (dropUnsignedSuffix t.text.toList)).2 := by
  obtain ⟨c, s, ht, hc, hchain⟩ := exists_number h hk
  obtain ⟨u, hu⟩ := dropUnsignedSuffix_prefix t.text.toList
  generalize dropUnsignedSuffix t.text.toList = p at hu ⊢
  rw [← ht, ← hu] at hchain
  have hp := hchain.left_of_append
  rw [splitBase.eq_def]
  split
  · exact signless_behind (by decide) (List.isChain_cons_cons.mp hp).2
  · exact signless_behind (by decide) (List.isChain_cons_cons.mp hp).2
  · exact signless_behind (by decide) hp
  · intro d hd
    obtain ⟨p, rfl⟩ := List.head?_eq_some_iff.mp hd
    obtain rfl : d = c := (List.cons.inj (hu.trans ht)).1
    constructor <;> (rintro rfl; rcases hc with hc | hc <;> simp at hc)

lemma toInt_ofNat (h : n < 2 ^ 64) :
    (Int64.ofNat n).toInt = if n < 2 ^ 63 then (n : Int) else n - 2 ^ 64 := by
  rw [Int64.toInt_ofNat', Int.bmod, Int64.size]
  split <;> split <;> omega

lemma literal_eq_ok {text : String} (h : Signless (splitBase (dropUnsignedSuffix text.toList)).2)
    (v : Int64) : literal text = .ok v ↔ ∃ n, IsLiteral n text.toList ∧ v = .ofNat n := by
  have hbase : (splitBase (dropUnsignedSuffix text.toList)).1 ≤ 16 := by
    rw [splitBase.eq_def]
    split <;> simp
  have hsome : literal text = .ok v ↔
      word? (splitBase (dropUnsignedSuffix text.toList)).1
        (splitBase (dropUnsignedSuffix text.toList)).2 = some v := by
    simp only [literal]
    rcases splitBase (dropUnsignedSuffix text.toList) with ⟨base, ds⟩
    cases word? base ds <;> simp
  rw [hsome, word_eq h, Option.bind_eq_some_iff]
  refine exists_congr fun n => ?_
  rw [natOfDigits_eq_some_iff hbase, ← isInteger_iff, isLiteral_iff,
    and_comm (a := n < _), and_assoc]
  refine and_congr_right fun _ => ?_
  rw [show UInt64.size = 2 ^ 64 from rfl, Option.ite_none_right_eq_some, Option.some.injEq,
    eq_comm (a := v)]

theorem literal_iff_isLiteral {line : String} {t : Token} (ht : t ∈ Token.tokenize line)
    (hk : t.kind = .number) :
    (∀ v, literal t.text = .ok v ↔ ∃ n, IsLiteral n t.text.toList ∧
      v.toInt = if n < 2 ^ 63 then (n : Int) else n - 2 ^ 64) ∧
    (literal t.text = .error (.badInteger t.text) ↔ ∀ n, ¬ IsLiteral n t.text.toList) := by
  have hok := literal_eq_ok (signless_digits (Token.isLexeme_of_scan t ht) hk)
  constructor
  · intro v
    rw [hok]
    refine exists_congr fun n => and_congr_right fun hn => ?_
    rw [← toInt_ofNat (isLiteral_iff.mp hn).1, Int64.toInt_inj]
  · constructor
    · intro herr n hn
      cases herr.symm.trans ((hok (.ofNat n)).mpr ⟨n, hn, rfl⟩)
    · intro hnone
      rcases Expr.literal_cases t.text with ⟨v, hv⟩ | herr
      · obtain ⟨n, hn, -⟩ := (hok v).mp hv
        exact (hnone n hn).elim
      · exact herr

def leastLiteral : Token :=
  .number "0x8000000000000000u"

theorem literal_iff_isLiteral_of_least :
    leastLiteral ∈ Token.tokenize "-0x8000000000000000u < 09" ∧
    IsLiteral (2 ^ 63) leastLiteral.text.toList ∧
      literal leastLiteral.text = .ok Int64.minValue ∧
      .number "09" ∈ Token.tokenize "-0x8000000000000000u < 09" ∧
      ∀ n, ¬ IsLiteral n "09".toList := by
  have htokens : Token.tokenize "-0x8000000000000000u < 09" =
      [.punct "-", leastLiteral, .blank, .punct "<", .blank, .number "09"] := by cbv
  have hleast : leastLiteral ∈ Token.tokenize "-0x8000000000000000u < 09" := by simp [htokens]
  have hnine : .number "09" ∈ Token.tokenize "-0x8000000000000000u < 09" := by simp [htokens]
  have hbase : ("8000000000000000".toList.all fun d => digitValue d < 16) = true := by decide
  have hdigits : Denotes 16 "8000000000000000".toList (2 ^ 63) :=
    ⟨by decide, fun d hd => of_decide_eq_true (List.all_eq_true.mp hbase d hd), by decide⟩
  have hinteger : IsLiteral (2 ^ 63) ("0x8000000000000000".toList ++ ['u']) :=
    .unsigned (by decide) (.hexadecimal (.inl rfl) hdigits) (.inl rfl)
  refine ⟨hleast, hinteger,
    ((literal_iff_isLiteral hleast rfl).1 _).mpr ⟨2 ^ 63, hinteger, by decide⟩, hnine, ?_⟩
  exact (literal_iff_isLiteral hnine rfl).2.mp (by cbv)

end Condition

end ShaderPipeline
