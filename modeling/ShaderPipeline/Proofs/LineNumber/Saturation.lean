import Mathlib.Data.Nat.Digits.Defs
import ShaderPipeline.Proofs.LineNumber

/-! Saturation at every digit gives what the exact value does if it is cut off once. -/

namespace ShaderPipeline.LineNumber

variable {cs blanks signs ds rest : List Char}

def valueOf (ds : List Char) : Nat :=
  Nat.ofDigits 10 (ds.map fun d => d.toNat - '0'.toNat).reverse

structure Leading (cs blanks signs ds rest : List Char) : Prop where
  text : cs = blanks ++ (signs ++ (ds ++ rest))
  blank : ∀ c ∈ blanks, Text.isBlank c = true
  sign : signs = [] ∨ signs = ['-'] ∨ signs = ['+']
  digit : ∀ d ∈ ds, d.isDigit = true
  digitsEnd : ∀ c, rest.head? = some c → c.isDigit = false
  unsigned : signs = [] → ∀ c, (ds ++ rest).head? = some c → Text.isBlank c = false ∧
    c ≠ '-' ∧ c ≠ '+'

lemma valueOf_eq (ds : List Char) : valueOf ds = Nat.ofDigitChars 10 ds 0 := by
  induction ds using List.reverseRecOn with
  | nil => rfl
  | append_singleton ds d ih =>
    have hvalue : valueOf (ds ++ [d]) = (d.toNat - '0'.toNat) + 10 * valueOf ds := by
      simp [valueOf, Nat.ofDigits_cons]
    rw [hvalue, ih, Nat.ofDigitChars_append, Nat.ofDigitChars_cons, Nat.ofDigitChars_nil,
      Nat.add_comm]

lemma Leading.of_signs {t : List Char} (hblanks : ∀ c ∈ blanks, Text.isBlank c = true)
    (hsigns : signs = [] ∨ signs = ['-'] ∨ signs = ['+'])
    (hunsigned : signs = [] → ∀ c, t.head? = some c → Text.isBlank c = false ∧ c ≠ '-' ∧ c ≠ '+') :
    Leading (blanks ++ (signs ++ t)) blanks signs (t.takeWhile Char.isDigit)
      (t.dropWhile Char.isDigit) := by
  have hall : t.takeWhile Char.isDigit ++ t.dropWhile Char.isDigit = t :=
    List.takeWhile_append_dropWhile
  exact ⟨by rw [hall], hblanks, hsigns, List.all_eq_true.mp List.all_takeWhile,
    fun _ => Text.eq_false_of_head_dropWhile, by rwa [hall]⟩

lemma exists_leading (cs : List Char) :
    ∃ blanks signs ds rest, Leading cs blanks signs ds rest := by
  have hblanks : ∀ c ∈ cs.takeWhile Text.isBlank, Text.isBlank c = true :=
    List.all_eq_true.mp List.all_takeWhile
  suffices ∃ signs t, cs.dropWhile Text.isBlank = signs ++ t ∧
      (signs = [] ∨ signs = ['-'] ∨ signs = ['+']) ∧
      (signs = [] → ∀ c, t.head? = some c → Text.isBlank c = false ∧ c ≠ '-' ∧ c ≠ '+') by
    obtain ⟨signs, t, ht, hsigns, hunsigned⟩ := this
    have hleading := Leading.of_signs hblanks hsigns hunsigned
    rw [← ht, List.takeWhile_append_dropWhile] at hleading
    exact ⟨_, _, _, _, hleading⟩
  cases hrest : cs.dropWhile Text.isBlank with
  | nil => exact ⟨[], [], rfl, .inl rfl, nofun⟩
  | cons c t =>
    by_cases hminus : c = '-'
    · exact ⟨['-'], t, by rw [hminus]; rfl, .inr (.inl rfl), nofun⟩
    by_cases hplus : c = '+'
    · exact ⟨['+'], t, by rw [hplus]; rfl, .inr (.inr rfl), nofun⟩
    refine ⟨[], c :: t, rfl, .inl rfl, fun _ d hd => ?_⟩
    obtain rfl := Option.some.inj hd
    exact ⟨Text.eq_false_of_head_dropWhile (congrArg List.head? hrest), hminus, hplus⟩

lemma Leading.ofChars_eq (h : Leading cs blanks signs ds rest) :
    ofChars cs = (if signs = ['-'] then -1 else 1) * (ofDigits ds : Int) := by
  have hds := takeWhile_isDigit h.digit h.digitsEnd
  have hblanks : ∀ t : List Char, ofChars (blanks ++ t) = ofChars t := fun t => by
    rw [ofChars, List.dropWhile_append_of_pos h.blank, ofChars]
  rw [h.text, hblanks]
  rcases h.sign with hs | rfl | rfl
  · rw [hs, List.nil_append, if_neg (List.cons_ne_nil _ _).symm, Int.one_mul]
    cases ht : ds ++ rest with
    | nil =>
      obtain ⟨rfl, -⟩ := List.append_eq_nil_iff.mp ht
      rfl
    | cons c t =>
      obtain ⟨hc, hminus, hplus⟩ := h.unsigned hs c (by rw [ht, List.head?_cons])
      rw [ofChars_of_notBlank hc, if_neg hminus, if_neg hplus, ← ht, hds]
  · rw [List.singleton_append, ofChars_of_notBlank (by decide), if_pos rfl, hds, if_pos rfl,
      Int.neg_one_mul]
  · rw [List.singleton_append, ofChars_of_notBlank (by decide), if_neg (by decide), if_pos rfl, hds,
      if_neg (by decide), Int.one_mul]

def nearest (n : Int) : Int64 :=
  .ofInt (max (-2 ^ 63) (min n (2 ^ 63 - 1)))

lemma toInt_nearest (n : Int) : (nearest n).toInt = max (-2 ^ 63) (min n (2 ^ 63 - 1)) := by
  apply Int64.toInt_ofInt_of_le <;> omega

def wordOfDigits (ds : List Char) : Int64 :=
  ds.foldl (fun w d => nearest ((nearest (w.toInt * 10)).toInt + (d.toNat - '0'.toNat : Nat))) 0

lemma toInt_wordOfDigits (ds : List Char) : (wordOfDigits ds).toInt = ofDigits ds := by
  induction ds using List.reverseRecOn with
  | nil => rfl
  | append_singleton ds d ih =>
    have hword : wordOfDigits (ds ++ [d]) =
        nearest ((nearest ((wordOfDigits ds).toInt * 10)).toInt + (d.toNat - '0'.toNat : Nat)) := by
      simp [wordOfDigits, List.foldl_append]
    have hlimit : limit = 2 ^ 63 - 1 := rfl
    rw [hword, toInt_nearest, toInt_nearest, ih, ofDigits_concat, saturate, saturate, hlimit]
    omega

lemma toInt_neg_wordOfDigits (ds : List Char) :
    (-wordOfDigits ds).toInt = -(ofDigits ds : Int) := by
  have hle := ofDigits_le ds
  have hlimit : limit = 2 ^ 63 - 1 := rfl
  rw [Int64.toInt_neg, toInt_wordOfDigits]
  apply Int.bmod_eq_of_le <;> omega

lemma inRange_toInt_iff (n : Int64) : InRange n.toInt ↔ n ≠ Int64.minValue := by
  have hbounds :
      ∀ m : Int, -2 ^ 63 ≤ m → m < 2 ^ 63 →
        (-(2 ^ 63 - 1) ≤ m ∧ m ≤ 2 ^ 63 - 1 ↔ ¬ m = -2 ^ 63) := by
    omega
  rw [Ne, ← Int64.toInt_inj, Int64.toInt_minValue]
  exact hbounds n.toInt n.le_toInt n.toInt_lt

theorem ofText_saturates :
    (∀ s : String, ∃ blanks signs ds rest, Leading s.toList blanks signs ds rest) ∧
      (∀ (s : String) (blanks signs ds rest : List Char), Leading s.toList blanks signs ds rest →
        ofText s = (if signs = ['-'] then -1 else 1) * (min (valueOf ds) (2 ^ 63 - 1) : Nat)) ∧
      (∀ ds : List Char, ofDigits ds = min (valueOf ds) (2 ^ 63 - 1) ∧
        (wordOfDigits ds).toInt = ofDigits ds ∧
        (-wordOfDigits ds).toInt = -(ofDigits ds : Int)) ∧
      ∀ n : Int64, ofText (toString n) = n.toInt ↔ n ≠ Int64.minValue := by
  have hvalue : ∀ ds, ofDigits ds = min (valueOf ds) (2 ^ 63 - 1) := fun ds => by
    rw [ofDigits_eq, valueOf_eq]
    rfl
  refine ⟨fun s => exists_leading s.toList, fun s blanks signs ds rest h => ?_,
    fun ds => ⟨hvalue ds, toInt_wordOfDigits ds, toInt_neg_wordOfDigits ds⟩, fun n => ?_⟩
  · rw [ofText, h.ofChars_eq, hvalue]
  · rw [← inRange_toInt_iff]
    exact ⟨fun h => h ▸ inRange_ofChars _, InRange.ofText_toString⟩

theorem ofText_saturates_of_long_run :
    let s := " \t-0099999999999999999999x7"
    Leading s.toList [' ', '\t'] ['-'] "0099999999999999999999".toList "x7".toList ∧
      ofText s = -(2 ^ 63 - 1) := by
  intro s
  have hleading : Leading s.toList [' ', '\t'] ['-'] "0099999999999999999999".toList "x7".toList :=
    ⟨by decide, List.all_eq_true.mp rfl, by decide, List.all_eq_true.mp rfl,
      by rintro c ⟨⟩; rfl, nofun⟩
  exact ⟨hleading, (ofText_saturates.2.1 s _ _ _ _ hleading).trans (by decide)⟩

end ShaderPipeline.LineNumber
