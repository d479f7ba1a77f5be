import ShaderPipeline.Preamble.Removal
import ShaderPipeline.Proofs.Stage.Numbering

/-! Removing the preamble changes neither the stage pragmas that a scan lists nor their numbers. -/

namespace ShaderPipeline.Preamble

open Text StagePragmas Preprocess

def endRow : List Char :=
  "#extension GL_GOOGLE_include_directive : enable".toList

lemma toList_endLine : endLine.toList = endRow ++ ['\n'] := by
  decide

def isHeadRow (row : List Char) : Bool :=
  !isVersionLine (.ofList row)

def arranged (includes : Nat) (nextLine : Bool) (tag : String) (rows : List (List Char)) :
    List (List Char) :=
  if includes = 0 then rows
  else
    (rows.dropWhile isHeadRow).take 1 ++ [endRow, Item.resumeRow nextLine 0 tag] ++
      rows.takeWhile isHeadRow ++
      ((rows.dropWhile isHeadRow).take 1).map (fun _ => []) ++ (rows.dropWhile isHeadRow).drop 1

lemma idxOf_anchor {anchor : String} {blanks : List String} (h : anchor ∉ blanks)
    (lines : List String) : (blanks ++ anchor :: lines).idxOf? anchor = some blanks.length := by
  induction blanks with
  | nil => simp [List.idxOf?_cons]
  | cons b blanks ih =>
    obtain ⟨hb, hblanks⟩ := not_or.mp (List.mem_cons.not.mp h)
    simp [List.idxOf?_cons, Ne.symm hb, ih hblanks]

lemma arrange_eq (includes : Nat) {anchor : String} {blanks : List String}
    (hblanks : ∀ b ∈ blanks, isBlankLine b) (h : isBlankLine anchor = false) (tag : String)
    (nextLine : Bool) (head tail : List String) :
    arrange anchor tag includes nextLine (blanks ++ anchor :: head) tail =
      some (if includes = 0 then head ++ tail
        else (tail.take 1).map completeLine ++ [anchor, LineNumber.resume nextLine 0 tag] ++ head ++
          (tail.take 1).map (fun _ => "\n") ++ tail.drop 1) := by
  have hnot : anchor ∉ blanks := fun hm => by simpa [h] using hblanks anchor hm
  have hfilter : blanks.filter (fun line => !isBlankLine line) = [] := by
    simpa using hblanks
  have hdrop : (blanks ++ anchor :: head).drop (blanks.length + 1) = head := by
    rw [List.drop_append, List.drop_of_length_le (Nat.le_succ _)]
    simp
  rw [arrange, idxOf_anchor hnot, Option.map_some, List.take_left' rfl, hfilter, hdrop]
  simp

structure BlankLine (line : String) : Prop where
  closed : Closed line.toList
  blank : ∀ c ∈ line.toList, isBlank c = true

namespace BlankLine

variable {line : String}

lemma isBlankLine (h : BlankLine line) : isBlankLine line = true := by
  have hs : stripChars line.toList = [] := stripChars_of_blank h.blank
  rw [Preamble.isBlankLine, strip, hs]
  rfl

lemma isVersionLine (h : BlankLine line) : isVersionLine line = false := by
  rw [Bool.eq_false_iff]
  intro hv
  have hp : Version.directive.toList <+: line.toList := by
    simpa [Preamble.isVersionLine, startsWith] using hv
  exact absurd (h.blank '#' (hp.subset (by decide))) (by decide)

end BlankLine

lemma toList_join_ofList (ls : List (List Char)) :
    (String.join (ls.map String.ofList)).toList = ls.flatten := by
  rw [String.toList_join, List.flatMap_map]
  simp

lemma linesWithEnds_join {blanks : List String} (h : ∀ b ∈ blanks, Closed b.toList)
    (body : String) :
    linesWithEnds (String.join blanks ++ endLine ++ body) =
      blanks ++ endLine :: (closedLines body.toList).map .ofList := by
  have hend : Closed endLine.toList := ⟨endRow, by decide, toList_endLine⟩
  have hclosed : ∀ l ∈ (blanks ++ [endLine]).map String.toList, Closed l := by
    simpa [or_imp, forall_and, hend] using h
  have htext : (String.join blanks ++ endLine ++ body).toList =
      ((blanks ++ [endLine]).map String.toList).flatten ++ body.toList := by
    simp [String.toList_join, List.flatMap_def]
  rw [linesWithEnds, htext, closedLines_flatten hclosed, List.map_append, List.map_map]
  simp [Function.comp_def]

lemma isVersionLine_bare (l : List Char) :
    isVersionLine (.ofList (bare l)) = isVersionLine (.ofList l) := by
  have hn : '\n' ∉ Version.directive.toList := by decide
  rw [Bool.eq_iff_iff]
  simpa [isVersionLine, startsWith] using prefix_bare_iff hn l

lemma isHead_ofList (l : List Char) :
    (decide (String.ofList l = endLine) || !isVersionLine (.ofList l)) = isHeadRow (bare l) := by
  rw [isHeadRow, isVersionLine_bare]
  by_cases h : String.ofList l = endLine
  · have hend : isVersionLine endLine = false := by decide
    rw [h, hend]
    rfl
  · simp [h]

lemma toList_completeLine {l : List Char} {ls : List (List Char)} (h : Lined (l :: ls)) :
    (completeLine (.ofList l)).toList = bare l ++ ['\n'] := by
  cases h with
  | last hn hl =>
    have hlast : l.getLast? ≠ some '\n' := fun he => hn (List.mem_of_getLast? he)
    simp [completeLine, hlast, bare_of_notMem hn]
  | cons hn _ => simp [completeLine, bare_closed hn]

lemma bareLines_kept {head tail : List (List Char)} (h : Lined (head ++ tail)) (nextLine : Bool)
    {tag : String} (htag : '\n' ∉ tag.toList) :
    bareLines (String.join (((tail.map String.ofList).take 1).map completeLine ++
        [endLine, LineNumber.resume nextLine 0 tag] ++ head.map .ofList ++
        ((tail.map String.ofList).take 1).map (fun _ => "\n") ++ (tail.map String.ofList).drop
          1)).toList =
      (tail.map bare).take 1 ++ [endRow, Item.resumeRow nextLine 0 tag] ++ head.map bare ++
        ((tail.map bare).take 1).map (fun _ => []) ++ (tail.map bare).drop 1 := by
  have hresume :
      (LineNumber.resume nextLine 0 tag).toList = Item.resumeRow nextLine 0 tag ++ ['\n'] :=
    Item.toList_resume nextLine 0 tag
  have hn : ∀ row ∈ [endRow, Item.resumeRow nextLine 0 tag], '\n' ∉ row := by
    simpa using ⟨by decide, Item.newline_notMem_resumeRow htag nextLine 0⟩
  cases tail with
  | nil =>
    rw [List.append_nil] at h
    have htext :
        (String.join ([endLine, LineNumber.resume nextLine 0 tag] ++
          head.map String.ofList)).toList =
        unlines [endRow, Item.resumeRow nextLine 0 tag] ++ head.flatten := by
      rw [String.join_append, String.toList_append, toList_join_ofList]
      simp [toList_endLine, hresume]
    simpa using (congrArg bareLines htext).trans
      ((bareLines_unlines_append hn _).trans (by rw [bareLines_flatten h]; rfl))
  | cons t ts =>
    obtain ⟨hhead, ht⟩ := h.of_append (List.cons_ne_nil t ts)
    have hts : Lined ts := by
      cases ht with
      | last => exact .nil
      | cons _ hts => exact hts
    have htext :
        (String.join ([completeLine (.ofList t), endLine, LineNumber.resume nextLine 0 tag] ++
        head.map String.ofList ++ ["\n"] ++ ts.map String.ofList)).toList =
          unlines (bare t :: [endRow, Item.resumeRow nextLine 0 tag] ++ head.map bare ++ [[]]) ++
            ts.flatten := by
      rw [String.join_append, String.join_append, String.join_append, String.toList_append,
        String.toList_append, String.toList_append, toList_join_ofList, toList_join_ofList,
        unlines_append, unlines_append,
        unlines_map_bare hhead]
      simp [toList_endLine, hresume, toList_completeLine ht]
    have hrows : ∀ row ∈ bare t :: [endRow, Item.resumeRow nextLine 0 tag] ++ head.map bare ++ [[]],
        '\n' ∉ row := by
      intro row hm
      simp only [List.cons_append, List.nil_append, List.mem_cons, List.mem_append, List.mem_map,
        List.not_mem_nil, or_false] at hm
      rcases hm with rfl | rfl | rfl | ⟨l, -, rfl⟩ | rfl
      · exact newline_notMem_bare t
      · exact hn _ (by simp)
      · exact hn _ (by simp)
      · exact newline_notMem_bare l
      · exact List.not_mem_nil
    simpa using (congrArg bareLines htext).trans
      ((bareLines_unlines_append hrows _).trans (by rw [bareLines_flatten hts]; simp))

def headOf (body : String) : List (List Char) :=
  (closedLines body.toList).takeWhile fun l => isHeadRow (bare l)

def tailOf (body : String) : List (List Char) :=
  (closedLines body.toList).dropWhile fun l => isHeadRow (bare l)

lemma headOf_append_tailOf (body : String) : headOf body ++ tailOf body = closedLines body.toList :=
  List.takeWhile_append_dropWhile

theorem remove_join {blanks : List String} (hblanks : ∀ b ∈ blanks, BlankLine b) (body tag : String)
    (includes : Nat) (nextLine : Bool) :
    remove (String.join blanks ++ endLine ++ body) tag endLine includes nextLine = .ok (String.join
      (if includes = 0 then (headOf body).map .ofList ++ (tailOf body).map .ofList
      else (((tailOf body).map String.ofList).take 1).map completeLine ++
        [endLine, LineNumber.resume nextLine 0 tag] ++ (headOf body).map .ofList ++
        (((tailOf body).map String.ofList).take 1).map (fun _ => "\n") ++
          ((tailOf body).map String.ofList).drop 1)) := by
  let isHead := fun line : String => decide (line = endLine) || !isVersionLine line
  have hblank : ∀ line ∈ blanks, isHead line = true := by
    intro line hm
    simp [isHead, (hblanks line hm).isVersionLine]
  have hend : isHead endLine = true := by simp [isHead]
  have hlines := linesWithEnds_join (fun b hb => (hblanks b hb).closed) body
  have hrow : isHead ∘ String.ofList = fun l => isHeadRow (bare l) := funext isHead_ofList
  have hhead : (linesWithEnds (String.join blanks ++ endLine ++ body)).takeWhile isHead =
      blanks ++ endLine :: (headOf body).map .ofList := by
    rw [hlines, List.takeWhile_append_of_pos hblank, List.takeWhile_cons_of_pos hend,
      List.takeWhile_map, hrow, headOf]
  have htail : (linesWithEnds (String.join blanks ++ endLine ++ body)).dropWhile isHead =
      (tailOf body).map .ofList := by
    rw [hlines, List.dropWhile_append_of_pos hblank, List.dropWhile_cons_of_pos hend,
      List.dropWhile_map, hrow, tailOf]
  have ha :=
    arrange_eq includes (fun b hb => (hblanks b hb).isBlankLine)
      (show isBlankLine endLine = false by decide)
    tag nextLine ((headOf body).map .ofList) ((tailOf body).map .ofList)
  simp only [remove]
  rw [hhead, htail, ha]

lemma remove_body {blanks : List String} (hblanks : ∀ b ∈ blanks, BlankLine b) (body tag : String)
    (nextLine : Bool) :
    remove (String.join blanks ++ endLine ++ body) tag endLine 0 nextLine = .ok body := by
  rw [remove_join hblanks, if_pos rfl, ← List.map_append, headOf_append_tailOf]
  apply congrArg Except.ok
  rw [← String.toList_inj, toList_join_ofList, flatten_closedLines]

theorem remove_eq {blanks : List String} (hblanks : ∀ b ∈ blanks, BlankLine b) (body : String)
    {tag : String} (htag : '\n' ∉ tag.toList) (includes : Nat) (nextLine : Bool) :
    ∃ out, remove (String.join blanks ++ endLine ++ body) tag endLine includes nextLine = .ok out ∧
      bareLines out.toList = arranged includes nextLine tag (bareLines body.toList) := by
  have hlined : Lined (headOf body ++ tailOf body) :=
    headOf_append_tailOf body ▸ lined_closedLines body.toList
  refine ⟨_, remove_join hblanks body tag includes nextLine, ?_⟩
  rw [arranged, bareLines_eq_map body.toList]
  split
  · rw [← List.map_append, toList_join_ofList, bareLines_flatten hlined, headOf_append_tailOf]
  · rw [List.takeWhile_map, List.dropWhile_map]
    exact bareLines_kept hlined nextLine htag

lemma exists_of_versionRow {row : List Char} (h : isHeadRow row = false) :
    ∃ cs, row = '#' :: 'v' :: cs := by
  have hp : Version.directive.toList <+: row := by
    simpa [isHeadRow, isVersionLine, startsWith] using h
  rcases row with _ | ⟨c, _ | ⟨d, cs⟩⟩
  · exact absurd hp (by decide)
  · obtain ⟨rest, hr⟩ := hp
    simp [Version.directive] at hr
  · obtain ⟨rest, hr⟩ := hp
    simp [Version.directive] at hr
    obtain ⟨rfl, rfl, -⟩ := hr
    exact ⟨cs, rfl⟩

variable {nextLine : Bool} {l : LineNumber}

lemma numberAfter_versionRow {row : List Char} (h : isHeadRow row = false) :
    numberAfter nextLine l row = l.advance 1 := by
  obtain ⟨cs, rfl⟩ := exists_of_versionRow h
  exact Item.numberAfter_other rfl

lemma found_versionRow {row : List Char} (h : isHeadRow row = false) : found? l row = none := by
  obtain ⟨cs, rfl⟩ := exists_of_versionRow h
  rw [found_directive]
  rfl

lemma counted_anchor (nextLine : Bool) (l : LineNumber) (tag : String) :
    counted nextLine l [endRow, Item.resumeRow nextLine 0 tag] = 1 := by
  have hz : LineNumber.InRange 0 := ⟨by decide, by decide⟩
  rw [counted, List.foldl_cons, List.foldl_cons, List.foldl_nil, Item.numberAfter_resumeRow hz]
  rfl

lemma listed_anchor (nextLine : Bool) (l : LineNumber) (tag : String) :
    listed nextLine l [endRow, Item.resumeRow nextLine 0 tag] = [] := by
  have he : listed nextLine l [endRow] = [] := Item.listed_other rfl
  have hr : ∀ m, listed nextLine m [Item.resumeRow nextLine 0 tag] = [] :=
    fun m => Item.listed_other rfl
  exact (@listed_append nextLine l [endRow] [Item.resumeRow nextLine 0 tag]).trans
    (by rw [he, hr]; rfl)

theorem listed_arranged (includes : Nat) (nextLine : Bool) (tag : String)
    (rows : List (List Char)) :
    listed nextLine 1 (arranged includes nextLine tag rows) = listed nextLine 1 rows := by
  rw [arranged]
  split
  · rfl
  have hrows : rows.takeWhile isHeadRow ++ rows.dropWhile isHeadRow = rows :=
    List.takeWhile_append_dropWhile
  have hnot := fun row => @eq_false_of_head_dropWhile _ isHeadRow rows row
  conv_rhs => rw [← hrows]
  generalize rows.takeWhile isHeadRow = head
  generalize rows.dropWhile isHeadRow = tail at hnot
  cases tail with
  | nil =>
    simp only [List.take_nil, List.nil_append, List.map_nil, List.append_nil, List.drop_nil]
    rw [listed_append, counted_anchor, listed_anchor, List.nil_append]
  | cons row tail =>
    have hrow := hnot row rfl
    have hblank : ∀ l, numberAfter nextLine l [] = l.advance 1 :=
      fun l => numberAfter_of_isCode Item.isCode_nil
    have hversion : listed nextLine 1 [row] = [] := by
      rw [listed, found_versionRow hrow]
      rfl
    have hgap : counted nextLine (counted nextLine 1 head) [[]] =
        numberAfter nextLine (counted nextLine 1 head) row := by
      rw [numberAfter_versionRow hrow]
      exact hblank _
    simp only [List.take_succ_cons, List.take_zero, List.map_cons, List.map_nil,
      List.drop_succ_cons, List.drop_zero, listed_append, counted_append, counted_anchor,
      listed_anchor, hversion, hgap, List.nil_append]
    rw [show listed nextLine (counted nextLine 1 head) [[]] = [] from Item.listed_replicate 1,
      List.append_nil, listed, found_versionRow hrow]
    rfl

def shift (includes : Nat) (rows : List (List Char)) : Nat :=
  if includes = 0 then 0 else ((rows.dropWhile isHeadRow).take 1).length + 2

lemma findIdx_arranged {p : List Char → Bool}
    (hversion : ∀ row, isHeadRow row = false → p row = false) (hend : p endRow = false)
    (hresume : ∀ nextLine tag, p (Item.resumeRow nextLine 0 tag) = false) (hnil : p [] = false)
    (includes : Nat) (nextLine : Bool) (tag : String) (rows : List (List Char)) :
    (arranged includes nextLine tag rows).findIdx? p =
      (rows.findIdx? p).map (shift includes rows + ·) := by
  rw [arranged, shift]
  split
  · simp
  have hrows :
      rows.findIdx? p = (rows.takeWhile isHeadRow ++ rows.dropWhile isHeadRow).findIdx? p := by
    rw [List.takeWhile_append_dropWhile]
  have hnot := fun row => @eq_false_of_head_dropWhile _ isHeadRow rows row
  rw [hrows]
  generalize rows.takeWhile isHeadRow = head
  generalize rows.dropWhile isHeadRow = tail at hnot
  cases tail with
  | nil =>
    simp [List.findIdx?_cons, hend, hresume, Function.comp_def, Nat.add_comm 2]
  | cons row tail =>
    have hrow := hversion row (hnot row rfl)
    simp [List.findIdx?_append, List.findIdx?_cons, hend, hresume, hnil, hrow, Function.comp_def,
      Nat.add_comm 3]

lemma isPragmaRow_eq (row : List Char) : isPragmaRow row = (found? 1 row).isSome := by
  rw [isPragmaRow, found?, Option.isSome_map]

lemma isCodeRow_directive (cs : List Char) : isCodeRow ('#' :: cs) = false := by
  have hs : (stripChars ('#' :: cs)).head? = some '#' := by
    rw [stripChars_of_notBlank (by decide), ← List.singleton_append, rdropWhile_append]
    · rfl
    · rintro _ ⟨⟩
      decide
  simp [isCodeRow, hs]

lemma isPragmaRow_versionRow {row : List Char} (h : isHeadRow row = false) :
    isPragmaRow row = false := by
  rw [isPragmaRow_eq, found_versionRow h]
  rfl

lemma isPragmaRow_resumeRow (nextLine : Bool) (tag : String) :
    isPragmaRow (Item.resumeRow nextLine 0 tag) = false := by
  have hnone : found? 1 (Item.resumeRow nextLine 0 tag) = none := (found_directive _).trans rfl
  rw [isPragmaRow_eq, hnone]
  rfl

lemma isCodeRow_versionRow {row : List Char} (h : isHeadRow row = false) :
    isCodeRow row = false := by
  obtain ⟨cs, rfl⟩ := exists_of_versionRow h
  exact isCodeRow_directive _

lemma findIdx_isPragmaRow (includes : Nat) (nextLine : Bool) (tag : String)
    (rows : List (List Char)) :
    (arranged includes nextLine tag rows).findIdx? isPragmaRow =
      (rows.findIdx? isPragmaRow).map (shift includes rows + ·) :=
  findIdx_arranged (fun _ => isPragmaRow_versionRow) (by decide) isPragmaRow_resumeRow
    (by decide) _ _ _ _

lemma findIdx_isCodeRow (includes : Nat) (nextLine : Bool) (tag : String)
    (rows : List (List Char)) :
    (arranged includes nextLine tag rows).findIdx? isCodeRow =
      (rows.findIdx? isCodeRow).map (shift includes rows + ·) :=
  findIdx_arranged (fun _ => isCodeRow_versionRow) (isCodeRow_directive _)
    (fun _ _ => isCodeRow_directive _) (by decide) _ _ _ _

lemma exists_arranged_append (includes : Nat) (nextLine : Bool) (tag : String)
    {front : List (List Char)} (hfront : ∀ row ∈ front, isHeadRow row = true)
    (rows : List (List Char)) :
    ∃ top rest, arranged includes nextLine tag (front ++ rows) = top ++ (front ++ rest) ∧
      ∀ row ∈ top, isPragmaRow row = false ∧ isCodeRow row = false := by
  rw [arranged]
  split
  · exact ⟨[], rows, rfl, List.forall_mem_nil _⟩
  refine ⟨(rows.dropWhile isHeadRow).take 1 ++ [endRow, Item.resumeRow nextLine 0 tag],
    rows.takeWhile isHeadRow ++ ((rows.dropWhile isHeadRow).take 1).map (fun _ => []) ++
      (rows.dropWhile isHeadRow).drop 1, ?_, ?_⟩
  · rw [List.takeWhile_append_of_pos hfront, List.dropWhile_append_of_pos hfront]
    simp only [List.append_assoc]
  · have hversion : ∀ row ∈ (rows.dropWhile isHeadRow).take 1, isHeadRow row = false := by
      intro row hrow
      rw [List.take_one] at hrow
      exact eq_false_of_head_dropWhile (Option.mem_toList.mp hrow)
    intro row hrow
    rcases List.mem_append.mp hrow with hrow | hrow
    · exact ⟨isPragmaRow_versionRow (hversion row hrow), isCodeRow_versionRow (hversion row hrow)⟩
    rcases List.mem_pair.mp hrow with rfl | rfl
    · exact ⟨by decide, isCodeRow_directive _⟩
    · exact ⟨isPragmaRow_resumeRow nextLine tag, isCodeRow_directive _⟩

theorem declared_remove {blanks : List String} (hblanks : ∀ b ∈ blanks, BlankLine b) (body : String)
    {tag : String} (htag : '\n' ∉ tag.toList) (includes : Nat) (nextLine : Bool) :
    ∃ out, remove (String.join blanks ++ endLine ++ body) tag endLine includes nextLine = .ok out ∧
      ∀ name, Stage.declared out name nextLine = Stage.declared body name nextLine := by
  obtain ⟨out, hout, hrows⟩ := remove_eq hblanks body htag includes nextLine
  refine ⟨out, hout, fun name => stage_congr ?_ ?_ name⟩
  · rw [pragmas_ofText, pragmas_ofText, hrows, listed_arranged]
  · apply isAfterCode_shift (shift includes (bareLines body.toList))
    · rw [firstIndex_ofText, firstIndex_ofText, hrows, findIdx_isPragmaRow]
    · rw [codeIndex_ofText, codeIndex_ofText, hrows, findIdx_isCodeRow]

theorem declared_remove_of_version : ∃ out,
    remove (String.join ["\n", " \t\n"] ++ endLine ++
      "int x;\n#line 7\n#version 450\n#pragma shader_stage(nosuch)")
        "t" endLine 1 true = .ok out ∧
      Stage.declared out "t" true = .error ⟨"t", [.afterCode 8, .invalidStage 8 "nosuch"]⟩ := by
  have hblanks : ∀ b ∈ ["\n", " \t\n"], BlankLine b := by
    simp only [List.forall_mem_cons]
    exact ⟨⟨⟨[], List.not_mem_nil, rfl⟩, List.all_eq_true.mp (by decide)⟩,
      ⟨⟨[' ', '\t'], by decide, rfl⟩, List.all_eq_true.mp (by decide)⟩, List.forall_mem_nil _⟩
  obtain ⟨out, hout, hstage⟩ :=
    declared_remove hblanks "int x;\n#line 7\n#version 450\n#pragma shader_stage(nosuch)"
    (show '\n' ∉ "t".toList by decide) 1 true
  exact ⟨out, hout, (hstage "t").trans (by cbv)⟩

end ShaderPipeline.Preamble
