import ShaderPipeline.Proofs.Text.Lines

/-! The lines of a text, with their newlines or without them, are the text cut behind each
newline. -/

namespace ShaderPipeline.Text

lemma closedLines_of_lined {ls : List (List Char)} (h : Lined ls) :
    closedLines ls.flatten = ls := by
  induction h with
  | nil => rfl
  | @last l hn hl =>
    obtain ⟨m, hm⟩ : ∃ m, closedLines l = [m] := by
      have hrows := bareLines_eq_map l
      rw [bareLines_of_notMem hn hl] at hrows
      exact List.length_eq_one_iff.mp (by simpa using (congrArg List.length hrows).symm)
    have hflatten := flatten_closedLines l
    rw [hm, List.flatten_singleton] at hflatten
    rw [List.flatten_singleton, hm, hflatten]
  | cons hn _ ih =>
    rw [List.flatten_cons, List.append_assoc, List.singleton_append, closedLines_line hn, ih]

lemma Lined.drop {ls : List (List Char)} (h : Lined ls) (n : Nat) : Lined (ls.drop n) := by
  by_cases hd : ls.drop n = []
  · rw [hd]
    exact .nil
  · exact (Lined.of_append (by rwa [List.take_append_drop]) hd).2

lemma Lined.set {ls : List (List Char)} (h : Lined ls) (n : Nat) {row : List Char}
    (hrow : '\n' ∉ row) : Lined (ls.set n (row ++ ['\n'])) := by
  induction h generalizing n with
  | nil => exact .nil
  | last hn hl =>
    cases n with
    | zero => exact .cons hrow .nil
    | succ n => exact .last hn hl
  | cons hn h ih =>
    cases n with
    | zero => exact .cons hrow h
    | succ n => exact .cons hn (ih n)

lemma linesWithEnds_join_lined {ls : List String} (h : Lined (ls.map String.toList)) :
    linesWithEnds (String.join ls) = ls := by
  rw [linesWithEnds, String.toList_join, List.flatMap_def, closedLines_of_lined h, List.map_map]
  simp

lemma linesWithEnds_join_append {ls : List String} (h : ∀ l ∈ ls, Closed l.toList) (more : String) :
    linesWithEnds (String.join ls ++ more) = ls ++ linesWithEnds more := by
  have hclosed : ∀ l ∈ ls.map String.toList, Closed l := by simpa using h
  rw [linesWithEnds, String.toList_append, String.toList_join, List.flatMap_def,
    closedLines_flatten hclosed, List.map_append, List.map_map, linesWithEnds]
  simp

lemma toList_linesWithEnds (s : String) :
    (linesWithEnds s).map String.toList = closedLines s.toList := by
  simp [linesWithEnds, Function.comp_def]

lemma lined_linesWithEnds (s : String) : Lined ((linesWithEnds s).map String.toList) :=
  toList_linesWithEnds s ▸ lined_closedLines s.toList

lemma lines_eq_map (s : String) :
    lines s = (linesWithEnds s).map fun line => .ofList (bare line.toList) := by
  simp [lines, linesWithEnds, bareLines_eq_map]

theorem lines_partition (s : String) :
    String.join (linesWithEnds s) = s ∧
      (∀ line ∈ linesWithEnds s, line ≠ "" ∧ '\n' ∉ line.toList.dropLast) ∧
      (∀ line ∈ (linesWithEnds s).dropLast, line.toList.getLast? = some '\n') ∧
      (lines s).length = (linesWithEnds s).length ∧
      (∀ (i : Nat) (line : String), (linesWithEnds s)[i]? = some line →
        ∃ row : String, (lines s)[i]? = some row ∧ '\n' ∉ row.toList ∧
        (line = row ++ "\n" ∨ line = row)) ∧
      (linesWithEnds s).length = s.toList.count '\n' + if s.toList.getLast?.any (· != '\n') then 1
        else 0 := by
  have hlined := lined_linesWithEnds s
  refine ⟨?_, fun line hline => ?_, fun line hline => ?_, ?_, fun i line hi => ?_, ?_⟩
  · rw [← String.toList_inj, String.toList_join, List.flatMap_def, toList_linesWithEnds,
      flatten_closedLines]
  · obtain ⟨hne, hdrop⟩ := hlined.newline_notMem_dropLast (List.mem_map_of_mem hline)
    refine ⟨?_, hdrop⟩
    rintro rfl
    exact hne rfl
  · have hmem : line.toList ∈ ((linesWithEnds s).map String.toList).dropLast := by
      rw [← List.map_dropLast]
      exact List.mem_map_of_mem hline
    obtain ⟨row, -, hrow⟩ := hlined.closed_of_mem_dropLast _ hmem
    rw [hrow, List.getLast?_concat]
  · rw [lines_eq_map, List.length_map]
  · refine ⟨.ofList (bare line.toList), ?_, ?_, ?_⟩
    · rw [lines_eq_map, List.getElem?_map, hi, Option.map_some]
    · rw [String.toList_ofList]
      exact newline_notMem_bare _
    · have hline : line ∈ linesWithEnds s := List.mem_of_getElem? hi
      refine (hlined.eq_of_mem (List.mem_map_of_mem hline)).imp (fun hclosed => ?_)
        fun ⟨hlast, _⟩ => ?_
      · rw [← String.toList_inj, String.toList_append, String.toList_ofList]
        exact hclosed
      · rw [← hlast, String.ofList_toList]
  · have hlength := hlined.length_eq
    rwa [List.length_map, toList_linesWithEnds, flatten_closedLines] at hlength

theorem lines_partition_of_open_end :
    let s := "a\n\nb"
    linesWithEnds s = ["a\n", "\n", "b"] ∧ '\n' ∉ "a\n".toList.dropLast ∧
      "\n".toList.getLast? = some '\n' ∧
      (∃ row : String, (lines s)[1]? = some row ∧ '\n' ∉ row.toList ∧
        ("\n" = row ++ "\n" ∨ "\n" = row)) ∧
      (linesWithEnds s).length = 2 + 1 := by
  intro s
  obtain ⟨-, hline, hended, -, hrow, hlength⟩ := lines_partition s
  have hlines : linesWithEnds s = ["a\n", "\n", "b"] := by decide
  rw [hlines] at hline hended hrow
  exact ⟨hlines, (hline "a\n" (by decide)).2, hended "\n" (by decide), hrow 1 "\n" rfl,
    hlength.trans (by decide)⟩

end ShaderPipeline.Text
