import Mathlib.Tactic.Lemma
import ShaderPipeline.PathName

namespace ShaderPipeline.PathName

lemma splitSlashes_ne_nil (cs : List Char) : splitSlashes cs ≠ [] := by
  cases cs with
  | nil => exact List.cons_ne_nil _ _
  | cons c cs =>
    rw [splitSlashes]
    split
    · exact List.cons_ne_nil _ _
    · split <;> exact List.cons_ne_nil _ _

lemma splitSlashes_append (cs ds : List Char) :
    splitSlashes (cs ++ '/' :: ds) = splitSlashes cs ++ splitSlashes ds := by
  induction cs with
  | nil => rfl
  | cons c cs ih =>
    rw [List.cons_append, splitSlashes, splitSlashes, ih]
    split
    · rfl
    · cases hcs : splitSlashes cs with
      | nil => exact (splitSlashes_ne_nil cs hcs).elim
      | cons part parts => rfl

lemma splitSlashes_of_notMem {cs : List Char} (h : '/' ∉ cs) : splitSlashes cs = [cs] := by
  induction cs with
  | nil => rfl
  | cons c cs ih =>
    obtain ⟨hc, hcs⟩ : '/' ≠ c ∧ '/' ∉ cs := by simpa using h
    rw [splitSlashes, if_neg hc.symm, ih hcs]

lemma splitStart_cons (c : Char) (cs : List Char) :
    (splitStart (c :: cs)).2 = c :: cs ∨ (splitStart (c :: cs)).2 = cs := by
  rw [splitStart]
  split
  · exact .inl rfl
  · exact .inr rfl

lemma fileName_append {dir name : String} (hslash : '/' ∉ name.toList)
    (hidle : isIdle name.toList = false) (hup : name.toList ≠ ['.', '.']) :
    fileName? (dir ++ "/" ++ name) = some name := by
  have hsplit :
      ∃ ps, splitSlashes (splitStart (dir ++ "/" ++ name).toList).2 = ps ++ [name.toList] := by
    have hpath : (dir ++ "/" ++ name).toList = dir.toList ++ '/' :: name.toList := by simp
    rw [hpath]
    cases dir.toList with
    | nil =>
      exact ⟨[], splitSlashes_of_notMem hslash⟩
    | cons d ds =>
      rw [List.cons_append]
      rcases splitStart_cons d (ds ++ '/' :: name.toList) with h | h
      · rw [h, ← List.cons_append, splitSlashes_append, splitSlashes_of_notMem hslash]
        exact ⟨_, rfl⟩
      · rw [h, splitSlashes_append, splitSlashes_of_notMem hslash]
        exact ⟨_, rfl⟩
  obtain ⟨ps, hps⟩ := hsplit
  have hparts : parts (dir ++ "/" ++ name).toList = ps ++ [name.toList] := by
    rw [parts, hps, dropIdleEnd, List.reverse_append, List.reverse_singleton, List.singleton_append,
      List.dropWhile_cons_of_neg (by simp [hidle]), List.reverse_cons, List.reverse_reverse]
  rw [fileName?, hparts, List.getLast?_append, List.getLast?_singleton, Option.some_or]
  dsimp only
  rw [if_neg hup, String.ofList_toList]

end ShaderPipeline.PathName
