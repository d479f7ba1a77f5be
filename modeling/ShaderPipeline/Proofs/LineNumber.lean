import Mathlib.Data.List.Induction
import Mathlib.Data.List.TakeWhile
import ShaderPipeline.LineNumber
import ShaderPipeline.Proofs.Text.Strip

namespace ShaderPipeline.LineNumber

lemma advance_advance (n : LineNumber) (j k : Nat) :
    (n.advance j).advance k = n.advance (j + k) := by
  have h : ∀ (m l : Int) (a b : Nat), min (min (m + a) l + b) l = min (m + (a + b : Nat)) l := by
    intro m l a b
    omega
  exact h n limit j k

def InRange (n : LineNumber) : Prop :=
  -(limit : Int) ≤ n ∧ n ≤ limit

lemma InRange.advance {n : LineNumber} (h : n.InRange) (k : Nat) : (n.advance k).InRange := by
  have hm : ∀ (m l : Int) (a : Nat), 0 ≤ l → -l ≤ m → -l ≤ min (m + a) l ∧ min (m + a) l ≤ l := by
    intro m l a
    omega
  exact hm n limit k (by decide) h.1

lemma ofDigits_concat (ds : List Char) (c : Char) :
    ofDigits (ds ++ [c]) = saturate (saturate (ofDigits ds * 10) + (c.toNat - '0'.toNat)) := by
  simp [ofDigits, List.foldl_append]

lemma ofDigits_eq (ds : List Char) : ofDigits ds = min (Nat.ofDigitChars 10 ds 0) limit := by
  induction ds using List.reverseRecOn with
  | nil => rfl
  | append_singleton ds c ih =>
    rw [ofDigits_concat, ih, Nat.ofDigitChars_append]
    simp only [saturate, Nat.ofDigitChars_cons, Nat.ofDigitChars_nil]
    omega

lemma ofDigits_toDigits {n : Nat} (h : n ≤ limit) : ofDigits (Nat.toDigits 10 n) = n := by
  rw [ofDigits_eq, Nat.ofDigitChars_ten_toDigits]
  exact Nat.min_eq_left h

lemma ofDigits_le (ds : List Char) : ofDigits ds ≤ limit := by
  rw [ofDigits_eq]
  exact Nat.min_le_right _ _

lemma inRange_ofChars (cs : List Char) : (ofChars cs).InRange := by
  have hm : ∀ n : Nat, n ≤ limit → InRange (n : Int) ∧ InRange (-n : Int) := by
    intro n h
    have hl :
        ∀ l : Nat, n ≤ l → (-(l : Int) ≤ n ∧ (n : Int) ≤ l) ∧ -(l : Int) ≤ -n ∧ -(n : Int) ≤ l := by
      omega
    exact hl limit h
  simp only [ofChars]
  split
  · exact (hm _ (ofDigits_le _)).2
  · exact (hm _ (ofDigits_le _)).1
  · exact (hm _ (ofDigits_le _)).1

lemma ofChars_cons_blank {c : Char} (h : Text.isBlank c = true) (cs : List Char) :
    ofChars (c :: cs) = ofChars cs := by
  simp [ofChars, h]

lemma isBlank_of_isDigit {c : Char} (h : c.isDigit = true) : Text.isBlank c = false :=
  Text.notBlank_of (by decide) h

lemma ofChars_of_notBlank {c : Char} (h : Text.isBlank c = false) (cs : List Char) :
    ofChars (c :: cs) =
      if c = '-' then -(ofDigits (cs.takeWhile Char.isDigit) : Int)
      else if c = '+' then (ofDigits (cs.takeWhile Char.isDigit) : Int)
      else (ofDigits ((c :: cs).takeWhile Char.isDigit) : Int) := by
  simp only [ofChars, List.dropWhile_cons, h, Bool.false_eq_true, if_false]
  split <;> simp_all

lemma takeWhile_isDigit {ds cs : List Char} (h : ∀ d ∈ ds, d.isDigit = true)
    (hc : ∀ c, cs.head? = some c → c.isDigit = false) : (ds ++ cs).takeWhile Char.isDigit = ds := by
  rw [List.takeWhile_append_of_pos h]
  cases cs with
  | nil => simp
  | cons c cs => simp [hc c rfl]

lemma isDigit_of_mem_toDigits {n : Nat} : ∀ d ∈ Nat.toDigits 10 n, d.isDigit = true :=
  fun _ => Nat.isDigit_of_mem_toDigits (by decide) (by decide)

lemma ofChars_toDigits {n : Nat} (h : n ≤ limit) {cs : List Char}
    (hc : ∀ c, cs.head? = some c → c.isDigit = false) : ofChars (Nat.toDigits 10 n ++ cs) = n := by
  have hds := isDigit_of_mem_toDigits (n := n)
  have hn := ofDigits_toDigits h
  cases hd : Nat.toDigits 10 n with
  | nil => exact (Nat.toDigits_ne_nil hd).elim
  | cons d ds =>
    rw [hd] at hds hn
    have hdigit := hds d (by simp)
    have hm : d ≠ '-' := by
      rintro rfl
      exact absurd hdigit (by decide)
    have hp : d ≠ '+' := by
      rintro rfl
      exact absurd hdigit (by decide)
    rw [List.cons_append, ofChars_of_notBlank (isBlank_of_isDigit hdigit), if_neg hm, if_neg hp,
      ← List.cons_append, takeWhile_isDigit hds hc, hn]

theorem ofChars_toString {n : LineNumber} (h : n.InRange) {cs : List Char}
    (hc : ∀ c, cs.head? = some c → c.isDigit = false) :
    ofChars ((toString n).toList ++ cs) = n := by
  rw [Int.toString_eq_repr, Int.repr_eq_if]
  split
  · rename_i hn
    have hl : n.toNat ≤ limit := Int.toNat_le.mpr h.2
    rw [Nat.repr_eq_ofList_toDigits, String.toList_ofList, ofChars_toDigits hl hc]
    exact Int.toNat_of_nonneg hn
  · rename_i hn
    have hl : (-n).toNat ≤ limit := Int.toNat_le.mpr (Int.neg_le_of_neg_le h.1)
    have hds := isDigit_of_mem_toDigits (n := (-n).toNat)
    rw [Nat.repr_eq_ofList_toDigits, String.toList_append, String.toList_ofList,
      String.toList_ofList, List.append_assoc]
    change ofChars ('-' :: (Nat.toDigits 10 (-n).toNat ++ cs)) = n
    rw [ofChars_of_notBlank (by decide), if_pos rfl, takeWhile_isDigit hds hc, ofDigits_toDigits hl]
    have hneg : ∀ m : Int, ¬ 0 ≤ m → -((-m).toNat : Int) = m := by omega
    exact hneg n hn

lemma InRange.ofText_toString {n : LineNumber} (h : n.InRange) : ofText (toString n) = n := by
  have hnil : ∀ c, ([] : List Char).head? = some c → c.isDigit = false := nofun
  have hread := ofChars_toString h hnil
  rw [List.append_nil] at hread
  exact hread

theorem ofChars_append_blank (cs : List Char) {bs : List Char}
    (h : ∀ b ∈ bs, Text.isBlank b = true) : ofChars (cs ++ bs) = ofChars cs := by
  have hb : ∀ b ∈ bs, b.isDigit = false := by
    intro b hb
    by_contra hd
    have hn := isBlank_of_isDigit (by simpa using hd)
    rw [h b hb] at hn
    cases hn
  have hd : ∀ ds : List Char, (ds ++ bs).takeWhile Char.isDigit = ds.takeWhile Char.isDigit := by
    intro ds
    induction ds with
    | nil =>
      cases bs with
      | nil => rfl
      | cons b bs => simp [hb b (by simp)]
    | cons d ds ih => simp only [List.cons_append, List.takeWhile_cons, ih]
  induction cs with
  | nil =>
    have hnil : bs.dropWhile Text.isBlank = [] := List.dropWhile_eq_nil_iff.mpr h
    simp [ofChars, hnil]
  | cons c cs ih =>
    cases hc : Text.isBlank c with
    | true => rw [List.cons_append, ofChars_cons_blank hc, ofChars_cons_blank hc, ih]
    | false =>
      rw [List.cons_append, ofChars_of_notBlank hc, ofChars_of_notBlank hc, hd cs,
        ← List.cons_append, hd (c :: cs)]

end ShaderPipeline.LineNumber
