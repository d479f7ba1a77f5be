import Mathlib
import ShaderPipeline.Proofs.Text.Lines
import ShaderPipeline.Proofs.Text.Strip
import ShaderPipeline.Version

namespace ShaderPipeline

namespace Text

variable {p : List Char}

lemma bare_line (cs ds : List Char) : bare (cs ++ '\n' :: ds) = bare cs := by
  induction cs with
  | nil => rfl
  | cons c cs ih =>
    simp only [bare, List.cons_append, List.takeWhile_cons]
    split
    · exact congrArg (c :: ·) ih
    · rfl

lemma afterPrefix_line (hp : '\n' ∉ p) (cs ds : List Char) :
    afterPrefix? p (cs ++ '\n' :: ds) = (afterPrefix? p cs).map (· ++ '\n' :: ds) := by
  by_cases h : p <+: cs
  · obtain ⟨rest, rfl⟩ := h
    rw [List.append_assoc, afterPrefix_append, afterPrefix_append]
    rfl
  · have hline : ¬ p <+: cs ++ '\n' :: ds := by
      rwa [← prefix_bare_iff hp, bare_line, prefix_bare_iff hp]
    rw [afterPrefix_eq_none h, afterPrefix_eq_none hline]
    rfl

theorem afterFirst_line (hp : '\n' ∉ p) (cs ds : List Char) :
    afterFirst? p (cs ++ '\n' :: ds) =
      ((afterFirst? p cs).map (· ++ '\n' :: ds)).or (afterFirst? p ds) := by
  induction cs with
  | nil =>
    have h := afterPrefix_line hp [] ds
    rw [List.nil_append] at h
    rw [List.nil_append, afterFirst?, afterFirst?, h]
  | cons c cs ih =>
    have h := afterPrefix_line hp (c :: cs) ds
    rw [List.cons_append] at h
    rw [List.cons_append, afterFirst?, afterFirst?, h, ih]
    cases afterPrefix? p (c :: cs) <;> rfl

lemma afterFirst_eq_none_iff (cs : List Char) : afterFirst? p cs = none ↔ ¬ p <:+: cs := by
  induction cs with
  | nil => simp [afterFirst?, afterPrefix?]
  | cons c cs ih =>
    rw [afterFirst?, List.infix_cons_iff, not_or, Option.or_eq_none_iff, ih]
    simp [afterPrefix?]

variable {a : Char} {q : List Char}

lemma prefix_append_prefix_iff (ha : a ∉ q) (c : Char) (cs rest : List Char) :
    a :: q <+: c :: (cs ++ (a :: q ++ rest)) ↔ a :: q <+: c :: cs := by
  rw [List.cons_prefix_cons, List.cons_prefix_cons, List.cons_append, prefix_append_cons_iff ha]

theorem afterFirst_eq_some_iff (ha : a ∉ q) {cs rest : List Char} :
    afterFirst? (a :: q) cs = some rest ↔ ∃ before, cs = before ++ (a :: q ++ rest) ∧
    ¬ a :: q <:+: before := by
  have hnil : ¬ a :: q <:+: [] := by simp
  constructor
  · intro h
    induction cs with
    | nil => cases h
    | cons c cs ih =>
      rw [afterFirst?] at h
      by_cases hp : a :: q <+: c :: cs
      · obtain ⟨after, hafter⟩ := hp
        rw [← hafter, afterPrefix_append, Option.some_or] at h
        obtain rfl := Option.some.inj h
        exact ⟨[], hafter.symm, hnil⟩
      · rw [afterPrefix_eq_none hp, Option.none_or] at h
        obtain ⟨before, rfl, hbefore⟩ := ih h
        refine ⟨c :: before, rfl, ?_⟩
        rw [List.infix_cons_iff, not_or]
        exact ⟨fun hc => hp (hc.trans (List.prefix_append _ _)), hbefore⟩
  · rintro ⟨before, rfl, hbefore⟩
    induction before with
    | nil =>
      rw [List.nil_append, List.cons_append, afterFirst?, ← List.cons_append, afterPrefix_append,
        Option.some_or]
    | cons c before ih =>
      rw [List.infix_cons_iff, not_or] at hbefore
      have hp := mt (prefix_append_prefix_iff ha c before rest).mp hbefore.1
      rw [List.cons_append, afterFirst?, afterPrefix_eq_none hp, Option.none_or]
      exact ih hbefore.2

end Text

namespace Version

open Text

lemma newline_notMem_directive : '\n' ∉ directive.toList := by
  decide

lemma declared_eq (text : String) : declared? text =
    (afterFirst? directive.toList text.toList).bind fun rest =>
      ofChars? ((bare rest).filter (· != ' ')) :=
  rfl

lemma declared_eq_none {text : String} (h : ¬ directive.toList <:+: text.toList) :
    declared? text = none := by
  rw [declared_eq, (afterFirst_eq_none_iff _).mpr h]
  rfl

lemma infix_newline (cs : List Char) :
    directive.toList <:+: cs ++ ['\n'] ↔ directive.toList <:+: cs := by
  have hnil : afterFirst? directive.toList [] = none := by decide
  rw [← not_iff_not, ← afterFirst_eq_none_iff, ← afterFirst_eq_none_iff,
    afterFirst_line newline_notMem_directive cs [], hnil, Option.or_none, Option.map_eq_none_iff]

theorem declared_line {line rest text : String}
    (h : text.toList = line.toList ++ '\n' :: rest.toList) :
    declared? text = if directive.toList <:+: line.toList then declared? line
      else declared? rest := by
  rw [declared_eq, h, afterFirst_line newline_notMem_directive]
  cases hl : afterFirst? directive.toList line.toList with
  | none =>
    rw [if_neg ((afterFirst_eq_none_iff _).mp hl)]
    rfl
  | some after =>
    have hm : directive.toList <:+: line.toList := by
      by_contra hn
      rw [(afterFirst_eq_none_iff _).mpr hn] at hl
      cases hl
    rw [if_pos hm, declared_eq, hl]
    simp [bare_line]

lemma declared_newline (line : String) : declared? (line ++ "\n") = declared? line := by
  rw [@declared_line line "" (line ++ "\n") (by simp)]
  split
  · rfl
  · rename_i h
    rw [declared_eq_none h]
    rfl

lemma declared_append {line rest : String} {cs : List Char} (h : line.toList = cs ++ ['\n']) :
    declared? (line ++ rest) = if directive.toList <:+: line.toList then declared? line
      else declared? rest := by
  have hline : line = .ofList cs ++ "\n" := by
    rw [← String.toList_inj, h]
    simp
  have htext : (line ++ rest).toList = (String.ofList cs).toList ++ '\n' :: rest.toList := by
    simp [h]
  rw [declared_line htext, h, String.toList_ofList, hline, declared_newline]
  simp only [infix_newline]

end Version

end ShaderPipeline
