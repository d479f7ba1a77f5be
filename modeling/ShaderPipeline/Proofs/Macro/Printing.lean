import ShaderPipeline.Proofs.LineNumber
import ShaderPipeline.Proofs.Token.Lexemes

namespace ShaderPipeline

namespace Token

lemma isIdentStart_of_isDigit {c : Char} (h : c.isDigit = true) : isIdentStart c = false := by
  have hu : c ≠ '_' := by
    rintro rfl
    cases h
  have hd : 48 ≤ c.toNat ∧ c.toNat ≤ 57 := by
    simpa [Char.isDigit, UInt32.le_iff_toNat_le] using h
  have hupper : c.isUpper = false := by
    simp only [Char.isUpper, Char.reduceVal, ge_iff_le, UInt32.le_iff_toNat_le, UInt32.reduceToNat,
      Char.toNat_val, Bool.decide_and, Bool.and_eq_false_imp, decide_eq_true_eq,
      decide_eq_false_iff_not]
    omega
  have hlower : c.isLower = false := by
    simp only [Char.isLower, Char.reduceVal, ge_iff_le, UInt32.le_iff_toNat_le, UInt32.reduceToNat,
      Char.toNat_val, Bool.and_eq_false_imp, decide_eq_true_eq, decide_eq_false_iff_not]
    omega
  simp [isIdentStart, Char.isAlpha, hupper, hlower, hu]

lemma spanNumber_digits {last : Char} {ds : List Char} (h : ∀ d ∈ ds, d.isDigit = true) :
    spanNumber last ds = (ds, []) := by
  induction ds generalizing last with
  | nil => rfl
  | cons d ds ih =>
    obtain ⟨hd, hds⟩ := List.forall_mem_cons.mp h
    simp [spanNumber, continuesNumber, isIdentChar, Char.isAlphanum, hd, ih hds]

lemma munch_digits {d : Char} {ds : List Char} (h : ∀ e ∈ d :: ds, e.isDigit = true) :
    munch d ds = (.number, ds, []) := by
  obtain ⟨hd, hds⟩ := List.forall_mem_cons.mp h
  simp [munch, LineNumber.isBlank_of_isDigit hd, isIdentStart_of_isDigit hd, startsNumber, hd,
    spanNumber_digits hds]

lemma isLexeme_number (n : Nat) : (number (toString n)).IsLexeme := by
  have hdigits := LineNumber.isDigit_of_mem_toDigits (n := n)
  rcases hn : Nat.toDigits 10 n with _ | ⟨d, ds⟩
  · exact (Nat.toDigits_ne_nil hn).elim
  · rw [hn] at hdigits
    apply isLexeme_iff.mpr
    apply head_scan_iff.mpr
    refine ⟨d, ds, ?_, ?_⟩
    · simpa [number] using hn
    · rw [List.append_nil]
      exact munch_digits hdigits

lemma not_isLexeme_negative (cs : List Char) : ¬ (number (.ofList ('-' :: cs))).IsLexeme := by
  intro h
  obtain ⟨c, s, ht, hm⟩ := h.exists_munch
  obtain ⟨rfl, rfl⟩ : '-' = c ∧ cs = s := by simpa [number] using ht
  simp [munch, Text.isBlank, isIdentStart, startsNumber, number] at hm

end Token

namespace Macro

variable {t : Table} {b : Builtins} {out : List Token}

open Token

lemma isLexeme_line_iff (n : LineNumber) : (number (toString n)).IsLexeme ↔ 0 ≤ n := by
  rw [Int.toString_eq_repr, Int.repr_eq_if]
  split
  · rename_i hn
    exact iff_of_true (isLexeme_number n.toNat) hn
  · rename_i hn
    refine iff_of_false (fun h => not_isLexeme_negative (-n).toNat.repr.toList ?_) hn
    rw [← List.singleton_append, String.ofList_append, String.ofList_toList]
    exact h

lemma isLexeme_value {name : String} {v : Token} (h : b.value? name = some v) :
    v.IsLexeme ∨ v = number (toString b.line) := by
  simp only [Builtins.value?] at h
  split at h
  · exact .inr (Option.some.inj h).symm
  · obtain rfl := Option.some.inj h
    exact .inl (isLexeme_number _)
  · obtain rfl := Option.some.inj h
    exact .inl (isLexeme_number _)
  · cases h

/-- Replacement does not see to it that tokens which it brings together stay apart where they are
written. -/
theorem replaced_line_reread_iff (ht : ∀ name m, t.find? name = some m → ∃ s, ∀ x ∈ m.body,
    x ∈ tokenize s)
    (line : String)
    (h : t.expand b (tokenize line) = .ok out ∨ t.expandOpen b (tokenize line) = .ok (some out)) :
    solid (tokenize (join out)) = solid out ↔
      out.IsChain Apart ∧ (number (toString b.line) ∈ out → 0 ≤ b.line) := by
  have hout : t.expand b (tokenize line) = .ok out := h.elim id Table.expand_of_expandOpen
  have hlex : ∀ x ∈ out, x.IsLexeme ∨ x = number (toString b.line) := by
    have hbodies : t.Bodies fun x => x.IsLexeme ∨ x = number (toString b.line) := by
      intro name m hm x hx
      obtain ⟨s, hs⟩ := ht name m hm
      exact .inl (isLexeme_of_scan x (hs x hx))
    have hline : ∀ x ∈ tokenize line, x.IsLexeme ∨ x = number (toString b.line) := fun x hx =>
      .inl (isLexeme_of_scan x hx)
    exact Table.forall_of_expand (fun _ _ => isLexeme_value) hbodies hline hout
  have hspace : ∀ x ∈ out, x.isSpace = true → x.IsLexeme := fun x hx hs => by
    rcases hlex x hx with h | rfl
    · exact h
    · cases hs
  rw [solid_tokenize_join_iff hspace, and_comm, and_congr_right_iff]
  intro _
  constructor
  · exact fun hall hm => (isLexeme_line_iff b.line).mp (hall _ hm)
  · intro hline x hx
    rcases hlex x hx with h | rfl
    · exact h
    · exact (isLexeme_line_iff b.line).mpr (hline hx)

def negation : Table :=
  ⟨[("NEG", .function ["x"] [.punct "-", .ident "x"])]⟩

lemma bodies_negation :
    ∀ name m, negation.find? name = some m → ∃ s, ∀ x ∈ m.body, x ∈ tokenize s := by
  intro name m hm
  have hbody : tokenize "-x" = [.punct "-", .ident "x"] := by cbv
  simp only [negation, Table.find?, List.lookup] at hm
  split at hm <;> cases hm
  exact ⟨"-x", fun x hx => hbody ▸ hx⟩

theorem replaced_line_reread_of_name :
    solid (tokenize (join [.punct "-", .ident "a", .punct "-", .number "1"])) =
      [.punct "-", .ident "a", .punct "-", .number "1"] := by
  have hout : negation.expand ⟨1, 0, 110⟩ (tokenize "NEG(a)-1") =
      .ok [.punct "-", .ident "a", .punct "-", .number "1"] := by cbv
  refine (replaced_line_reread_iff bodies_negation "NEG(a)-1" (.inl hout)).mpr
    ⟨?_, fun _ => by decide⟩
  decide

theorem replaced_line_runs_together :
    (∀ name m, negation.find? name = some m → ∃ s, ∀ x ∈ m.body, x ∈ tokenize s) ∧
    negation.expand ⟨1, 0, 110⟩ (tokenize "NEG(-1.0)") = .ok [.punct "-", .punct "-",
      .number "1.0"] ∧
    tokenize (join [.punct "-", .punct "-", .number "1.0"]) = [.punct "--", .number "1.0"] := by
  exact ⟨bodies_negation, by cbv, by cbv⟩

end Macro

end ShaderPipeline
