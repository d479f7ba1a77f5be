import ShaderPipeline.Proofs.Condition.Literal
import ShaderPipeline.Proofs.Version

/-! A version is a known number with the keyword of a profile behind it, and a text declares the one
in the line of its first directive. -/

namespace ShaderPipeline

lemma Text.isSome_digit_ten (c : Char) : (digit? 10 c).isSome = c.isDigit := by
  rw [digit?]
  by_cases hd : c.isDigit = true
  · have hvalue : c.toNat - '0'.toNat < 10 := by
      simp only [Char.isDigit, Bool.and_eq_true, decide_eq_true_eq, UInt32.le_iff_toNat_le] at hd
      have hnine : c.toNat ≤ 57 := hd.2
      have hzero : '0'.toNat = 48 := rfl
      omega
    simpa [hd, Option.filter] using hvalue
  · -- letters count from ten
    rw [if_neg hd, Bool.eq_false_iff.mpr hd]
    split
    · simp [Option.filter]
    split
    · simp [Option.filter]
    · rfl

lemma Condition.isDigit_iff (c : Char) : c.isDigit = true ↔ digitValue c < 10 := by
  rw [← Text.isSome_digit_ten, digit_eq (by decide)]
  split <;> simp_all

namespace Profile

lemma ofKeyword_eq_some_iff {s : String} {p : Profile} : ofKeyword? s = some p ↔ s = p.keyword := by
  constructor
  · intro h
    rw [ofKeyword?.eq_def] at h
    split at h <;> cases h <;> rfl
  · rintro rfl
    cases p <;> rfl

lemma isDigit_head_keyword (p : Profile) :
    ∀ c, p.keyword.toList.head? = some c → c.isDigit = false := by
  intro c hc
  cases p with
  | none => cases hc
  | core | compatibility | es =>
    obtain rfl := Option.some.inj hc
    decide

end Profile

namespace Version

open Text
open Condition (Denotes)

inductive IsCompact : Version → String → Prop
  | mk {ds : List Char} {n : Nat} (p : Profile) : Denotes 10 ds n → isKnown n = true →
      IsCompact ⟨n, p⟩ (.ofList ds ++ p.keyword)

lemma lt_size_of_isKnown {n : Nat} (h : isKnown n = true) : n < UInt32.size := by
  have hall :
      ∀ n ∈ [100, 110, 120, 130, 140, 150, 300, 310, 320, 330, 400, 410, 420, 430, 440, 450, 460],
      n < UInt32.size := by decide
  exact hall n (of_decide_eq_true h)

lemma number_eq_some_iff {ds : List Char} {n : Nat} :
    number? ds = some n ↔ Denotes 10 ds n ∧ n < UInt32.size := by
  rw [number?, Option.filter_eq_some_iff, Condition.natOfDigits_eq_some_iff (by decide),
    decide_eq_true_iff]

lemma ofChars_eq_some_iff {cs : List Char} {v : Version} : ofChars? cs = some v ↔
    Denotes 10 (cs.takeWhile Char.isDigit) v.number ∧ isKnown v.number = true ∧
      String.ofList (cs.dropWhile Char.isDigit) = v.profile.keyword := by
  simp only [ofChars?, Option.bind_eq_bind, Option.bind_eq_some_iff, number_eq_some_iff,
    Profile.ofKeyword_eq_some_iff, Option.ite_none_right_eq_some]
  constructor
  · rintro ⟨n, ⟨hn, -⟩, p, hp, hknown, ⟨⟩⟩
    exact ⟨hn, hknown, hp⟩
  · rintro ⟨hn, hknown, hp⟩
    exact ⟨v.number, ⟨hn, lt_size_of_isKnown hknown⟩, v.profile, hp, hknown, rfl⟩

theorem ofText_eq_some_iff {s : String} {v : Version} : ofText? s = some v ↔ IsCompact v s := by
  rw [ofText?, ofChars_eq_some_iff]
  constructor
  · rintro ⟨hn, hknown, hp⟩
    obtain ⟨n, p⟩ := v
    have hs : s = .ofList (s.toList.takeWhile Char.isDigit) ++ p.keyword := by
      rw [← hp, ← String.ofList_append, List.takeWhile_append_dropWhile, String.ofList_toList]
    rw [hs]
    exact .mk p hn hknown
  · intro h
    cases h with
    | @mk ds n p hn hknown =>
      have hdigits : ∀ d ∈ ds, d.isDigit = true :=
        fun d hd => (Condition.isDigit_iff d).mpr (hn.inBase d hd)
      have htake := Token.takeWhile_exact_iff.mpr ⟨hdigits, p.isDigit_head_keyword⟩
      have hall := List.takeWhile_append_dropWhile (p := Char.isDigit) (l := ds ++ p.keyword.toList)
      rw [htake] at hall
      rw [String.toList_append, String.toList_ofList, htake, List.append_cancel_left hall,
        String.ofList_toList]
      exact ⟨hn, hknown, rfl⟩

def withoutSpaces (s : String) : String :=
  .ofList (s.toList.filter (· != ' '))

def FirstDirective (text line : String) : Prop :=
  ∃ before after, text.toList = before ++ (directive.toList ++ (line.toList ++ after)) ∧
    ¬ directive.toList <:+: before ∧ '\n' ∉ line.toList ∧ ∀ c, after.head? = some c → c = '\n'

variable {text line : String}

lemma afterFirst_directive_iff {rest : List Char} :
    afterFirst? directive.toList text.toList = some rest ↔
    ∃ before, text.toList = before ++ (directive.toList ++ rest) ∧
    ¬ directive.toList <:+: before := by
  have hdirective : directive.toList = '#' :: "version".toList := by decide
  rw [hdirective]
  exact afterFirst_eq_some_iff (by decide)

lemma firstDirective_iff : FirstDirective text line ↔
    ∃ rest, afterFirst? directive.toList text.toList = some rest ∧ line.toList = bare rest := by
  constructor
  · rintro ⟨before, after, htext, hbefore, hline, hafter⟩
    have hbare : bare after = [] := by
      cases after with
      | nil => rfl
      | cons c after => simp [bare, hafter c rfl]
    refine ⟨line.toList ++ after, afterFirst_directive_iff.mpr ⟨before, htext, hbefore⟩, ?_⟩
    rw [bare_append hline, hbare, List.append_nil]
  · rintro ⟨rest, hrest, hline⟩
    obtain ⟨before, htext, hbefore⟩ := afterFirst_directive_iff.mp hrest
    refine ⟨before, rest.dropWhile (· != '\n'), ?_, hbefore, hline ▸ newline_notMem_bare rest,
      fun c hc => ?_⟩
    · rw [htext, hline, bare, List.takeWhile_append_dropWhile]
    · simpa using eq_false_of_head_dropWhile hc

lemma exists_firstDirective_iff :
    (∃ line, FirstDirective text line) ↔ directive.toList <:+: text.toList := by
  rw [← not_iff_not, ← afterFirst_eq_none_iff, Option.eq_none_iff_forall_ne_some]
  simp only [firstDirective_iff]
  constructor
  · exact fun h rest hrest => h ⟨.ofList (bare rest), rest, hrest, String.toList_ofList⟩
  · rintro h ⟨line, rest, hrest, -⟩
    exact h rest hrest

lemma FirstDirective.declared_eq (h : FirstDirective text line) :
    declared? text = ofText? (withoutSpaces line) := by
  obtain ⟨rest, hrest, hline⟩ := firstDirective_iff.mp h
  rw [Version.declared_eq, hrest, Option.bind_some, ofText?, withoutSpaces,
    String.toList_ofList, hline]

theorem ofText_iff_and_declared_eq :
    (∀ s v, ofText? s = some v ↔ IsCompact v s) ∧
      (∀ text, ¬ directive.toList <:+: text.toList → declared? text = none) ∧
      (∀ text, directive.toList <:+: text.toList → ∃ line, FirstDirective text line) ∧
      (∀ text line, FirstDirective text line → declared? text = ofText? (withoutSpaces line)) ∧
      ∀ text text' line line', FirstDirective text line → FirstDirective text' line' →
        withoutSpaces line = withoutSpaces line' → declared? text = declared? text' := by
  refine ⟨fun s v => ofText_eq_some_iff, fun text => declared_eq_none, fun text =>
    exists_firstDirective_iff.mpr, fun text line => FirstDirective.declared_eq, ?_⟩
  intro text text' line line' h h' hline
  rw [h.declared_eq, h'.declared_eq, hline]

theorem ofText_iff_and_declared_eq_of_zeros :
    let text := "# version 450\n#version 003 10 e s\n#version 450core\n"
    FirstDirective text " 003 10 e s" ∧ declared? text = some ⟨310, .es⟩ ∧
      FirstDirective "//#version00310es" "00310es" ∧
      declared? "//#version00310es" = some ⟨310, .es⟩ ∧
      ofText? "4294967746" = none := by
  obtain ⟨hcompact, -, -, hline, hsame⟩ := ofText_iff_and_declared_eq
  have hfirst :
      FirstDirective "# version 450\n#version 003 10 e s\n#version 450core\n" " 003 10 e s" :=
    ⟨"# version 450\n".toList, "\n#version 450core\n".toList, by decide, by decide, by decide,
      by rintro c ⟨⟩; rfl⟩
  have hlast : FirstDirective "//#version00310es" "00310es" :=
    ⟨"//".toList, [], by decide, by decide, by decide, nofun⟩
  have hten : ("00310".toList.all fun d => Condition.digitValue d < 10) = true := by decide
  have hdigits : Denotes 10 "00310".toList 310 :=
    ⟨by decide, fun d hd => of_decide_eq_true (List.all_eq_true.mp hten d hd), by decide⟩
  have hes : ofText? "00310es" = some ⟨310, .es⟩ := (hcompact _ _).mpr (.mk .es hdigits (by decide))
  have hspaces : withoutSpaces " 003 10 e s" = withoutSpaces "00310es" := by decide
  have hdeclared : declared? "//#version00310es" = some ⟨310, .es⟩ := (hline _ _ hlast).trans hes
  refine ⟨hfirst, (hsame _ _ _ _ hfirst hlast hspaces).trans hdeclared, hlast, hdeclared, by decide⟩

end Version

end ShaderPipeline
