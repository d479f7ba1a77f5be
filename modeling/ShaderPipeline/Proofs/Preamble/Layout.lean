import ShaderPipeline.Proofs.Preamble.Anchor
import ShaderPipeline.Proofs.Text.Partition

/-! Where each line of a text goes when its preamble is removed. -/

namespace ShaderPipeline

namespace Preamble

open Text

variable {anchor : String} {lines : List String}

def versionIndex (lines : List String) : Nat :=
  lines.findIdx isVersionLine

def kept (lines : List String) (a : Nat) : List String :=
  (lines.take a).filter fun line => !isBlankLine line

def behind (lines : List String) (a v : Nat) : List String :=
  (lines.set v "\n").drop (a + 1)

def numbering (nextLine : Bool) (tag : String) : String :=
  if nextLine then s!"#line 1 \"{tag}\"\n" else s!"#line 0 \"{tag}\"\n"

lemma resume_zero (nextLine : Bool) (tag : String) :
    LineNumber.resume nextLine 0 tag = numbering nextLine tag := by
  cases nextLine <;> rfl

lemma idxOf_take {n : Nat} (h : anchor ∈ lines.take n) :
    (lines.take n).idxOf anchor = lines.idxOf anchor := by
  have hsplit : (lines.take n ++ lines.drop n).idxOf anchor = (lines.take n).idxOf anchor :=
    List.idxOf_append_of_mem h
  rw [← hsplit, List.take_append_drop]

lemma idxOf_lt (h : anchor ∈ lines.take (versionIndex lines)) :
    lines.idxOf anchor < versionIndex lines := by
  have hlt := List.idxOf_lt_length_iff.mpr h
  rw [idxOf_take h] at hlt
  exact hlt.trans_le (List.length_take_le ..)

lemma idxOf_head (h : anchor ∈ lines.take (versionIndex lines)) :
    (lines.take (versionIndex lines)).idxOf? anchor = some (lines.idxOf anchor) := by
  obtain ⟨i, hi⟩ := Option.isSome_iff_exists.mp (List.isSome_idxOf?.mpr h)
  have hidx := idxOf_take h
  rw [List.idxOf_eq_getD_idxOf? anchor (lines.take _), hi, Option.getD_some] at hidx
  rw [hi, hidx]

lemma take_one_drop (lines : List String) (v : Nat) : (lines.drop v).take 1 = lines[v]?.toList := by
  by_cases hv : v < lines.length
  · rw [List.drop_eq_getElem_cons hv, List.getElem?_eq_getElem hv]
    rfl
  · rw [List.drop_of_length_le (Nat.le_of_not_lt hv), List.getElem?_eq_none (Nat.le_of_not_lt hv)]
    rfl

lemma behind_eq {a v : Nat} (h : a < v) : behind lines a v =
    (lines.take v).drop (a + 1) ++ lines[v]?.toList.map (fun _ => "\n") ++
      (lines.drop v).drop 1 := by
  rw [behind, List.set_eq_take_append_cons_drop]
  split
  · rename_i hv
    have hlength : a + 1 ≤ (lines.take v).length := by
      rw [List.length_take]
      omega
    rw [List.drop_append_of_le_length hlength, List.getElem?_eq_getElem hv]
    simp
  · rename_i hv
    have hdrop : lines.drop v = [] := List.drop_of_length_le (Nat.le_of_not_lt hv)
    rw [hdrop, List.take_of_length_le (Nat.le_of_not_lt hv),
      List.getElem?_eq_none (Nat.le_of_not_lt hv)]
    simp

lemma drop_eq {a v : Nat} (h : a < v) :
    lines.drop (a + 1) = (lines.take v).drop (a + 1) ++ lines.drop v := by
  by_cases hv : a + 1 ≤ lines.length
  · have hlength : a + 1 ≤ (lines.take v).length := by
      rw [List.length_take]
      omega
    rw [← List.drop_append_of_le_length hlength, List.take_append_drop]
  · rw [List.drop_of_length_le (by omega), List.drop_of_length_le (by rw [List.length_take]; omega),
      List.drop_of_length_le (by omega), List.nil_append]

def layout (anchor tag : String) (includes : Nat) (nextLine : Bool) (lines : List String) :
    List String :=
  let a := lines.idxOf anchor
  let v := versionIndex lines
  if includes = 0 then kept lines a ++ lines.drop (a + 1)
  else lines[v]?.toList.map completeLine ++ kept lines a ++ [anchor, numbering nextLine tag] ++
    behind lines a v

lemma arrange_of_mem (h : anchor ∈ lines.take (versionIndex lines)) (tag : String) (includes : Nat)
    (nextLine : Bool) :
    arrange anchor tag includes nextLine (lines.take (versionIndex lines))
      (lines.drop (versionIndex lines)) =
      some (layout anchor tag includes nextLine lines) := by
  have hlt := idxOf_lt h
  have htake : (lines.take (versionIndex lines)).take (lines.idxOf anchor) =
      lines.take (lines.idxOf anchor) := by
    rw [List.take_take, min_eq_left hlt.le]
  rw [arrange, idxOf_head h, Option.map_some, htake, take_one_drop, resume_zero, layout]
  dsimp only
  split
  · rw [List.append_assoc, ← drop_eq hlt, kept]
  · rw [behind_eq hlt, kept]
    simp only [List.append_assoc]

theorem remove_eq_layout (hversion : isVersionLine anchor = false) (text tag : String)
    (includes : Nat) (nextLine : Bool) : remove text tag anchor includes nextLine =
      if anchor ∈ (linesWithEnds text).take (versionIndex (linesWithEnds text)) then
        .ok (String.join (layout anchor tag includes nextLine (linesWithEnds text)))
      else .error ⟨tag⟩ := by
  -- the head would go on behind an anchor that is a version line itself
  have hhead : (fun line => decide (line = anchor) || !isVersionLine line) = fun line =>
      !isVersionLine line := by
    funext line
    by_cases hline : line = anchor
    · simp [hline, hversion]
    · simp [hline]
  simp only [remove, hhead, List.takeWhile_eq_take_findIdx_not, List.dropWhile_eq_drop_findIdx_not,
    Bool.not_not]
  rw [← versionIndex]
  by_cases h : anchor ∈ (linesWithEnds text).take (versionIndex (linesWithEnds text))
  · rw [arrange_of_mem h, if_pos h]
  · rw [arrange, List.idxOf?_eq_none_iff.mpr h, if_neg h]
    rfl

lemma closed_of_mem_take (h : Lined (lines.map String.toList)) {a : Nat} (ha : a < lines.length) :
    ∀ line ∈ lines.take a, Closed line.toList := by
  have hsplit : (lines.take a).map String.toList ++ (lines.drop a).map String.toList =
      lines.map String.toList := by
    rw [← List.map_append, List.take_append_drop]
  have hne : (lines.drop a).map String.toList ≠ [] := by simpa using ha
  exact List.forall_mem_map.mp (Lined.of_append (hsplit ▸ h) hne).1

lemma closed_completeLine (h : Lined (lines.map String.toList)) (v : Nat) :
    ∀ line ∈ lines[v]?.toList.map completeLine, Closed line.toList := by
  by_cases hv : v < lines.length
  · have hdrop : Lined ((lines.drop v).map String.toList) := by
      rw [List.map_drop]
      exact h.drop v
    rw [List.drop_eq_getElem_cons hv, List.map_cons] at hdrop
    have hline := toList_completeLine hdrop
    rw [String.ofList_toList] at hline
    rw [List.getElem?_eq_getElem hv]
    simpa using ⟨_, newline_notMem_bare _, hline⟩
  · rw [List.getElem?_eq_none (Nat.le_of_not_lt hv)]
    exact List.forall_mem_nil _

lemma lined_behind (h : Lined (lines.map String.toList)) (a v : Nat) :
    Lined ((behind lines a v).map String.toList) := by
  rw [behind, List.map_drop, List.map_set]
  have hnone : '\n' ∉ ([] : List Char) := List.not_mem_nil
  exact (h.set v hnone).drop (a + 1)

lemma length_behind (lines : List String) (a v : Nat) :
    (behind lines a v).length = (lines.drop (a + 1)).length := by
  rw [behind, List.length_drop, List.length_set, List.length_drop]

lemma getElem_behind {lines : List String} (a v : Nat) {i : Nat} {line : String}
    (h : lines[a + 1 + i]? = some line) :
    (behind lines a v)[i]? = some (if a + 1 + i = v then "\n" else line) := by
  have hi : a + 1 + i < lines.length := (List.getElem?_eq_some_iff.mp h).1
  rw [behind, List.getElem?_drop, List.getElem?_set]
  by_cases hv : v = a + 1 + i
  · rw [if_pos hv, if_pos (hv ▸ hi), if_pos hv.symm]
  · rw [if_neg hv, if_neg (Ne.symm hv), h]

lemma isClosed_numbering (nextLine : Bool) (tag : String) :
    IsClosed (numbering nextLine tag).toList := by
  rw [← resume_zero, Preprocess.Item.toList_resume]
  exact isClosed_append_singleton

/-- Only blank lines before the anchor are lost. With includes the version line comes first and
leaves an empty one in its place. -/
theorem remove_layout (hclosed : Closed anchor.toList) (hversion : isVersionLine anchor = false)
    (text tag : String) (includes : Nat) (nextLine : Bool) :
    let lines := linesWithEnds text
    let a := lines.idxOf anchor
    let v := versionIndex lines
    let top := lines[v]?.toList.map completeLine
    (remove text tag anchor includes nextLine = .error ⟨tag⟩ ↔ anchor ∉ lines.take v) ∧
    (anchor ∈ lines.take v → includes = 0 →
      remove text tag anchor includes nextLine =
        .ok (String.join (kept lines a ++ lines.drop (a + 1)))) ∧
    (anchor ∈ lines.take v → 0 < includes →
      ∃ out, remove text tag anchor includes nextLine = .ok out ∧
        out = String.join (top ++ kept lines a ++ [anchor, numbering nextLine tag] ++
          behind lines a v) ∧
        linesWithEnds out =
          top ++ kept lines a ++ anchor :: linesWithEnds (numbering nextLine tag) ++
            behind lines a v ∧
        (behind lines a v).length = (lines.drop (a + 1)).length ∧
        ∀ i line, lines[a + 1 + i]? = some line →
          (behind lines a v)[i]? = some (if a + 1 + i = v then "\n" else line)) := by
  intro lines a v top
  have hremove := remove_eq_layout hversion text tag includes nextLine
  refine ⟨?_, ?_, ?_⟩
  · rw [hremove]
    split
    · rename_i h
      simpa using h
    · rename_i h
      simpa using h
  · rintro h rfl
    rw [hremove, if_pos h]
    rfl
  · intro h hincludes
    have hlined : Lined (lines.map String.toList) := lined_linesWithEnds text
    have ha : a < lines.length := (idxOf_lt h).trans_le List.findIdx_le_length
    let front := top ++ kept lines a ++ [anchor]
    have hfront : ∀ line ∈ front, Closed line.toList := by
      simp only [front, List.forall_mem_append, List.forall_mem_singleton]
      refine ⟨⟨closed_completeLine hlined v, fun line hm => ?_⟩, hclosed⟩
      exact closed_of_mem_take hlined ha line (List.mem_filter.mp hm).1
    refine ⟨_, ?_, rfl, ?_, ?_, ?_⟩
    · rw [hremove, if_pos h, layout]
      simp only [if_neg hincludes.ne']
      rfl
    · have hpieces : String.join (top ++ kept lines a ++ [anchor, numbering nextLine tag] ++
          behind lines a v) =
          String.join front ++ (numbering nextLine tag ++ String.join (behind lines a v)) := by
        simp [front, String.join_append, String.join_cons, String.append_assoc]
      rw [hpieces, linesWithEnds_join_append hfront,
        linesWithEnds_append (isClosed_numbering nextLine tag), linesWithEnds_join_lined
          (lined_behind hlined a v)]
      simp [front]
    · exact length_behind lines a v
    · exact fun i line => getElem_behind a v

def versionLast : String :=
  "\n#pragma a\n \t\n#extension GL_GOOGLE_include_directive : enable\nint x;\n\n#version 450"

def versionFirst : String :=
  "#version 450\n#pragma a\n#extension GL_GOOGLE_include_directive : enable\n#line 1 \"t\"\n" ++
    "int x;\n\n\n"

theorem remove_layout_of_version : remove versionLast "t" endLine 1 true = .ok versionFirst := by
  have hclosed : Closed endLine.toList := ⟨endRow, by decide, toList_endLine⟩
  let lines := ["\n", "#pragma a\n", " \t\n", endLine, "int x;\n", "\n", "#version 450"]
  have hlines : linesWithEnds versionLast = lines := by cbv
  have hmem : endLine ∈ lines.take (versionIndex lines) := by decide +kernel
  obtain ⟨-, -, hincludes⟩ :=
    remove_layout hclosed (show isVersionLine endLine = false by decide) versionLast "t" 1 true
  rw [hlines] at hincludes
  obtain ⟨out, hout, hpieces, -⟩ := hincludes hmem Nat.one_pos
  rw [hout, hpieces]
  exact congrArg Except.ok (by decide +kernel)

end Preamble

end ShaderPipeline
