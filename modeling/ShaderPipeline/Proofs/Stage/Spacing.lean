import ShaderPipeline.Proofs.Preamble.Anchor
import ShaderPipeline.Proofs.Preprocess.Verbatim
import ShaderPipeline.Proofs.Stage.Inference
import ShaderPipeline.Proofs.Text.Comments
import ShaderPipeline.Proofs.Token.Spacing

/-! A stage pragma counts with any white space in it. -/

namespace ShaderPipeline

open Text

namespace StagePragmas

section

variable {rows before after : List (List Char)} {row rest : List Char} {s : Stage}

lemma located_append (first : Nat) (rows rows' : List (List Char)) :
    located first (rows ++ rows') = located first rows ++ located (first + rows.length) rows' := by
  rw [located, List.zipIdx_append, List.filterMap_append, located, located]

lemma forall_located_iff (first : Nat) (name : String) : (∀ p ∈ located first rows, p.2 = name) ↔
    ∀ row ∈ rows, ∀ rest, row = pragma.toList ++ rest → String.ofList (argument rest) = name := by
  induction rows generalizing first with
  | nil => simp [located]
  | cons row rows ih =>
    rw [located_cons, List.forall_mem_append, ih, List.forall_mem_cons]
    apply and_congr_left'
    by_cases h : pragma.toList <+: row
    · obtain ⟨rest, rfl⟩ := h
      simp
    · rw [afterPrefix_eq_none h]
      simp only [Option.map_none, Option.toList_none, List.not_mem_nil, false_imp_iff,
        implies_true, true_iff]
      rintro rest rfl
      exact (h (List.prefix_append _ _)).elim

theorem declared_of_first {text : String} (hrows : bareLines text.toList = before ++ row :: after)
    (hbefore : ∀ b ∈ before, isPragmaRow b = false ∧ isCodeRow b = false)
    (hrow : stripChars row = pragma.toList ++ rest) (hname : String.ofList (argument rest) = s.name)
    (tag : String) (nextLine : Bool) :
    Stage.declared text tag nextLine = .ok (some s) ↔ ∀ other ∈ before ++ after, ∀ rest,
      stripChars other = pragma.toList ++ rest → String.ofList (argument rest) = s.name := by
  have hother : ∀ b ∈ before, ¬ pragma.toList <+: stripChars b := by
    rintro b hb ⟨more, hmore⟩
    have hpragma := (hbefore b hb).1
    rw [isPragmaRow, ← hmore, afterPrefix_append] at hpragma
    cases hpragma
  have hnone : located 0 (before.map stripChars) = [] :=
    (located_eq_nil_iff 0).mpr (List.forall_mem_map.mpr hother)
  have hlocated : located 0 (strippedLines text) =
      (before.length, s.name) :: located (before.length + 1) (after.map stripChars) := by
    rw [strippedLines, hrows, List.map_append, located_append, hnone, List.nil_append,
      List.map_cons, located_cons, hrow, afterPrefix_append, Option.map_some, hname,
      List.length_map, Nat.zero_add]
    rfl
  have hcode : ¬ CodeBefore (strippedLines text) before.length := by
    rw [not_codeBefore_iff, strippedLines, hrows, List.map_append,
      List.take_left' (List.length_map _)]
    refine List.forall_mem_map.mpr fun b hb => ?_
    by_contra hnot
    have hcode := isCodeRow_iff.mpr (not_or.mp hnot)
    rw [(hbefore b hb).2] at hcode
    cases hcode
  have hknown : s.name ∈ Stage.all.map Stage.name := by cases s <;> decide
  have hothers : (∀ p ∈ located (before.length + 1) (after.map stripChars), p.2 = s.name) ↔
      ∀ other ∈ before ++ after, ∀ rest, stripChars other = pragma.toList ++ rest →
        String.ofList (argument rest) = s.name := by
    rw [forall_located_iff, List.forall_mem_map, List.forall_mem_append]
    refine ⟨fun h => ⟨fun b hb more hmore => ?_, h⟩, fun h => h.2⟩
    exact (hother b hb ⟨more, hmore.symm⟩).elim
  rw [declared_of_located hlocated, Stage.ofName_eq_some_iff.mpr rfl, ← hothers]
  have hnil := @violations_eq_nil_iff (strippedLines text) nextLine before.length s.name
    (located (before.length + 1) (after.map stripChars))
  split
  · rename_i hv
    exact iff_of_true rfl (hnil.mp hv).2.2
  · rename_i hv
    exact iff_of_false (by rintro ⟨⟩) fun h => hv (hnil.mpr ⟨hcode, hknown, h⟩)

end

def Gap := { w : List Char // ∀ c ∈ w, isBlank c = true ∧ c ≠ '\n' }

def Gap.of (w : String) (h : (w.toList.all fun c => isBlank c && c != '\n') = true) : Gap :=
  ⟨w.toList, fun c hc => by simpa using List.all_eq_true.mp h c hc⟩

structure Spacing where
  indent : Gap
  afterHash : Gap
  afterPragma : Gap
  afterKeyword : Gap
  afterOpen : Gap
  afterName : Gap
  afterClose : Gap
  apart : afterPragma.1 ≠ []

namespace Spacing

open Token

variable (g : Spacing) (s : Stage)

def spell : List Char :=
  g.indent.1 ++ '#' :: g.afterHash.1 ++ "pragma".toList ++ g.afterPragma.1 ++
    "shader_stage".toList ++
    g.afterKeyword.1 ++ '(' :: g.afterOpen.1 ++ s.name.toList ++ g.afterName.1 ++ ')' ::
      g.afterClose.1

def arguments : List (Token × List Char) :=
  [(ident "shader_stage", g.afterKeyword.1), (punct "(", g.afterOpen.1),
    (ident s.name, g.afterName.1)]

def tokens : List (Token × List Char) :=
  (punct "#", g.afterHash.1) :: (ident "pragma", g.afterPragma.1) ::
    (g.arguments s ++ [(punct ")", g.afterClose.1)])

def called : List Char :=
  (oneGap (ident "shader_stage", g.afterKeyword.1)).2 ++ '(' ::
    ((oneGap (punct "(", g.afterOpen.1)).2 ++
    (s.name.toList ++ (oneGap (ident s.name, g.afterName.1)).2) ++ [')'])

lemma spell_eq : g.spell s = g.indent.1 ++ laid (g.tokens s) := by
  simp [spell, laid, tokens, arguments, ident, punct]

lemma isName_name : IsName s.name := by
  cases s <;> exact ⟨_, _, rfl, rfl, List.all_eq_true.mp (by decide)⟩

lemma isName_words : IsName "pragma" ∧ IsName "shader_stage" :=
  ⟨⟨'p', _, rfl, rfl, List.all_eq_true.mp (by decide)⟩,
    ⟨'s', _, rfl, rfl, List.all_eq_true.mp (by decide)⟩⟩

lemma isPlaced_tokens : ∀ x ∈ g.tokens s, IsPlaced x := by
  have hident : ∀ (name : String) (w : Gap), IsName name → IsPlaced (ident name, w.1) :=
    fun name w hname =>
    ⟨hname.isLexeme, rfl, rfl, fun c hc => (w.2 c hc).1⟩
  have hpunct : ∀ (p : String) (w : Gap), (punct p).IsLexeme → (punct p).absorbs ' ' = false →
      IsPlaced (punct p, w.1) :=
    fun p w hp hends => ⟨hp, rfl, hends, fun c hc => (w.2 c hc).1⟩
  have hlexeme : (punct "#").IsLexeme ∧ (punct "(").IsLexeme ∧ (punct ")").IsLexeme := by
    refine ⟨?_, ?_, ?_⟩ <;> (rw [IsLexeme]; cbv)
  obtain ⟨hhash, hopen, hclose⟩ := hlexeme
  simp only [tokens, arguments, List.cons_append, List.nil_append, List.forall_mem_cons]
  exact ⟨hpunct _ _ hhash (by decide), hident _ _ isName_words.1, hident _ _ isName_words.2,
    hpunct _ _ hopen (by decide), hident _ _ (isName_name s), hpunct _ _ hclose (by decide),
    List.forall_mem_nil _⟩

lemma isChain_tokens : (g.tokens s).IsChain Clear := by
  have hhash : Apart (punct "#") (ident "pragma") := by decide
  have hkeyword : Apart (ident "shader_stage") (punct "(") := by decide
  have hname : Apart (punct "(") (ident s.name) ∧ Apart (ident s.name) (punct ")") := by
    cases s <;> decide
  simp only [tokens, arguments, List.cons_append, List.nil_append, List.isChain_cons_cons,
    List.isChain_singleton, and_true]
  exact ⟨fun _ => hhash, fun h => (g.apart h).elim, fun _ => hkeyword, fun _ => hname.1,
    fun _ => hname.2⟩

lemma scan_spell : trim (scan (g.spell s)) = trim (gapped (g.tokens s)) := by
  rw [spell_eq, trim_scan_append fun c hc => (g.indent.2 c hc).1,
    scan_laid (g.isPlaced_tokens s) (g.isChain_tokens s)]

lemma directiveTokens_spell : ∃ args,
    Preprocess.directiveTokens? (tokenize (.ofList (g.spell s))) =
      some (ident "pragma" :: args) ∧
    trim args = trim (gapped (g.arguments s ++ [(punct ")", g.afterClose.1)])) := by
  let rest := gap g.afterPragma.1 ++ gapped (g.arguments s ++ [(punct ")", g.afterClose.1)])
  have hgapped : gapped (g.tokens s) = punct "#" :: (gap g.afterHash.1 ++ ident "pragma" :: rest) :=
    rfl
  have hhash : trim (tokenize (.ofList (g.spell s))) =
      punct "#" :: (gap g.afterHash.1 ++ ident "pragma" :: rest).rdropWhile isSpace := by
    rw [tokenize, String.toList_ofList, scan_spell, hgapped]
    exact @trim_solid_append (punct "#") [] rfl (by rintro u ⟨⟩; rfl) _
  have hpragma : trim (ident "pragma" :: rest) = ident "pragma" :: rest.rdropWhile isSpace :=
    @trim_solid_append (ident "pragma") [] rfl (by rintro u ⟨⟩; rfl) _
  refine ⟨rest.rdropWhile isSpace, ?_, ?_⟩
  · rw [Preprocess.directiveTokens?, hhash]
    change some (trim ((gap g.afterHash.1 ++ ident "pragma" :: rest).rdropWhile isSpace)) = _
    rw [trim_rdropWhile, trim_gap_append, hpragma]
  · rw [trim_rdropWhile, trim_gap_append]

lemma isSpace_arguments : ∀ x ∈ g.arguments s, x.1.isSpace = false := by
  simp only [arguments, List.forall_mem_cons]
  exact ⟨rfl, rfl, rfl, List.forall_mem_nil _⟩

lemma canonical_arguments :
    (canonical (gapped (g.arguments s ++ [(punct ")", g.afterClose.1)]))).toList =
    "shader_stage".toList ++ g.called s := by
  rw [canonical_gapped (g.isSpace_arguments s) rfl]
  simp [laid, arguments, called, oneGap, ident, punct]

lemma isBlank_oneGap (x : Token × List Char) : ∀ c ∈ (oneGap x).2, isBlank c = true := by
  rw [oneGap]
  split
  · exact List.forall_mem_nil _
  · exact List.forall_mem_singleton.mpr rfl

lemma argument_called : String.ofList (argument (g.called s)) = s.name := by
  have hopen : '(' ∉ (oneGap (ident "shader_stage", g.afterKeyword.1)).2 := fun h =>
    Bool.false_ne_true (isBlank_oneGap _ _ h)
  have hname : ')' ∉ s.name.toList ∧ stripChars s.name.toList = s.name.toList := by
    cases s <;> decide
  have hclose : ')' ∉ (oneGap (punct "(", g.afterOpen.1)).2 ++
      (s.name.toList ++ (oneGap (ident s.name, g.afterName.1)).2) := by
    simp only [List.mem_append, not_or]
    exact ⟨fun h => Bool.false_ne_true (isBlank_oneGap _ _ h), hname.1, fun h =>
      Bool.false_ne_true (isBlank_oneGap _ _ h)⟩
  rw [called, argument_delimited hopen hclose, stripChars_blank_append (isBlank_oneGap _),
    stripChars_append_blank _ (isBlank_oneGap _), hname.2, String.ofList_toList]

def written : List Char :=
  pragma.toList ++ g.called s

lemma stripChars_written : stripChars (g.written s) = g.written s := by
  have hrow : g.written s = '#' :: ("pragma shader_stage".toList ++ g.called s) := rfl
  obtain ⟨cs, hcs⟩ : ∃ cs, g.written s = cs ++ [')'] :=
    ⟨pragma.toList ++ ((oneGap (ident "shader_stage", g.afterKeyword.1)).2 ++ '(' ::
      ((oneGap (punct "(", g.afterOpen.1)).2 ++
        (s.name.toList ++ (oneGap (ident s.name, g.afterName.1)).2))),
      by simp [written, called]⟩
  rw [hrow, stripChars_of_notBlank (by decide), ← hrow, hcs,
    List.rdropWhile_concat_neg _ _ _ (by decide)]

lemma newline_notMem_written : '\n' ∉ g.written s := by
  have hgap : ∀ x, '\n' ∉ (oneGap x).2 := by
    intro x
    rw [oneGap]
    split <;> simp
  have hname : '\n' ∉ s.name.toList := by cases s <;> decide
  have hpragma : '\n' ∉ pragma.toList := by decide
  simp [written, called, hgap, hname, hpragma]

lemma isHeadRow_written : Preamble.isHeadRow (g.written s) = true := by
  rw [← Bool.not_eq_false]
  intro h
  obtain ⟨cs, hcs⟩ := Preamble.exists_of_versionRow h
  have hrow : g.written s = '#' :: 'p' :: ("ragma shader_stage".toList ++ g.called s) := rfl
  simp [hrow] at hcs

lemma plain_spell : (∀ c ∈ g.spell s, IsPlain c) ∧ '\n' ∉ g.spell s := by
  have hgap : ∀ (w : Gap), ∀ c ∈ w.1, c ≠ '\n' ∧ IsPlain c := by
    intro w c hc
    obtain ⟨hblank, hn⟩ := w.2 c hc
    exact ⟨hn, isPlain_of_isBlank hblank⟩
  have hhash : '#' ≠ '\n' ∧ IsPlain '#' := ⟨by decide, by decide, by decide⟩
  have hopen : '(' ≠ '\n' ∧ IsPlain '(' := ⟨by decide, by decide, by decide⟩
  have hclose : ')' ≠ '\n' ∧ IsPlain ')' := ⟨by decide, by decide, by decide⟩
  have hall : ∀ c ∈ g.spell s, c ≠ '\n' ∧ IsPlain c := by
    simp only [spell, List.forall_mem_append, List.forall_mem_cons]
    exact ⟨⟨⟨⟨⟨⟨⟨⟨⟨hgap _, hhash, hgap _⟩, isName_words.1.plain⟩, hgap _⟩, isName_words.2.plain⟩,
      hgap _⟩, hopen, hgap _⟩, (isName_name s).plain⟩, hgap _⟩, hclose, hgap _⟩
  exact ⟨fun c hc => (hall c hc).2, fun hn => (hall _ hn).1 rfl⟩

end Spacing

end StagePragmas

namespace Preprocess

open StagePragmas Token

variable {σ : Type} {inc : Includer σ} {descent : Descent σ} (g : Spacing) (s : Stage)

lemma Reading.line_spell {r : Reading σ} (hheld : r.place.held = none)
    (hgroups : r.place.groups = []) :
    ∃ args, r.line inc descent (.ofList (g.spell s)) = r.emit (.pragma r.place.line args) ∧
      (Item.render (.pragma r.place.line args)).toList = g.written s ++ ['\n'] := by
  obtain ⟨args, hline, hargs⟩ := g.directiveTokens_spell s
  obtain ⟨hline, hskip⟩ := @line_of_directive _ inc descent r hheld hgroups _ _ _ hline
  have hd : r.directive inc descent (ident "pragma").text (trim args) =
      if r.place.isSkipping then r.newline else r.emit (.pragma r.place.line (trim args)) := rfl
  have hcanonical : (canonical (trim args)).toList = "shader_stage".toList ++ g.called s := by
    rw [hargs, ← g.canonical_arguments, canonical_eq_join, trim_trim, ← canonical_eq_join]
  have hargs : (trim args).isEmpty = false := by
    rw [List.isEmpty_eq_false_iff]
    intro hnil
    rw [hnil] at hcanonical
    cases hcanonical
  refine ⟨trim args, ?_, ?_⟩
  · rw [hline, hd, hskip]
    rfl
  · rw [Item.render, Item.toList_directiveLine, Item.directiveRow, hargs, hcanonical]
    rfl

lemma isVerbatim_of_blank {line : String} (h : ∀ c ∈ line.toList, isBlank c = true)
    (names : List String) : IsVerbatim names line := by
  constructor
  · rw [List.dropWhile_eq_nil_iff.mpr h]
    nofun
  · intro x hx hident
    have hgap := @scan_gap_append [] line.toList h nofun
    rw [List.append_nil, scan_nil, List.append_nil] at hgap
    rw [tokenize, hgap] at hx
    have hspace : x.kind = .space := of_decide_eq_true (isSpace_of_mem_gap hx)
    cases hident.symm.trans hspace

variable {front following : String}

lemma Run.out_spell (hblank : ∀ c ∈ front.toList, isBlank c = true)
    (hclosed : IsClosed front.toList) (hfollowing : IsBehindLine following.toList)
    {names : List String} {run : Run σ} (ht : DefinesOnly run.table names) (inc : Includer σ)
    (levels : Nat) (tag : String) (file : Nat) :
    ∃ more, (unit inc levels ⟨tag, front ++ .ofList (g.spell s) ++ following⟩ file run).out =
      run.out ++ front ++ .ofList (g.written s ++ ['\n']) ++ more := by
  obtain ⟨descent, depth, hafter, hread⟩ := exists_readUnit_goesAfter run inc levels
    ⟨tag, front ++ .ofList (g.spell s) ++ following⟩ file
  obtain ⟨hstart, hclean⟩ :=
    atLineStart_of_plain (fun c hc => isPlain_of_isBlank (hblank c hc)) hclosed
  obtain ⟨hplain, hn⟩ := g.plain_spell s
  have hne : g.spell s ≠ [] := by simp [Spacing.spell]
  obtain ⟨below, hlines⟩ := lines_clean_plain hstart hplain hn hne hfollowing
  have hverbatim : ∀ line ∈ lines front, IsVerbatim names line := by
    refine List.forall_mem_map.mpr fun row hrow => isVerbatim_of_blank ?_ names
    rw [String.toList_ofList]
    exact fun c hc => hblank c (subset_of_mem_bareLines hrow hc)
  let start : Reading σ := ⟨{ name := tag, depth, file }, run⟩
  obtain ⟨hheld, hgroups, hrun⟩ :=
    @Reading.lines_verbatim σ names inc descent start rfl rfl ht _ hverbatim
  generalize hmid : start.lines inc descent (lines front) = mid at hheld hgroups hrun
  obtain ⟨args, hline, hrender⟩ := @Reading.line_spell σ inc descent g s mid hheld hgroups
  let next := (mid.emit (.pragma mid.place.line args)).advance
  obtain ⟨more, hmore⟩ := Reading.out_lines_close hafter next below
  have hnext : start.lines inc descent (lines (clean (front ++ .ofList (g.spell s) ++ following))) =
      next.lines inc descent below := by
    rw [hlines, hclean, Reading.lines_append, hmid, Reading.lines_cons, hline]
  have hmidOut : mid.run.out = run.out ++ front := by
    rw [hrun, Run.out, Array.toList_append, renderAll_append, List.toList_toArray,
      renderAll_verbatim hclosed, Run.out]
  have hnextOut : next.run.out = mid.run.out ++ .ofList (g.written s ++ ['\n']) := by
    change Item.renderAll (mid.run.items.push _).toList = _
    rw [Array.toList_push, renderAll_append, renderAll_singleton, ← Run.out, ← hrender,
      String.ofList_toList]
  refine ⟨more, ?_⟩
  rw [hread]
  change (start.lines inc descent _).close.run.out = _
  rw [hnext, hmore, hnextOut, hmidOut]

lemma text_prepared {ds : Definitions} (hds : ∀ e ∈ ds.entries, Preamble.IsObject e)
    (inc : Includer σ) (tag source : String) (version : Version) (forced : Bool) (includer : σ) :
    (preprocess inc ⟨tag, source, Preamble.text ds, version, forced⟩ includer).1.text =
      String.join (List.replicate ds.entries.length "\n") ++ Preamble.endLine ++
        (Run.unit inc maxIncludeDepth ⟨tag, source⟩ 0 (Run.prepared ds version forced
          includer)).out := by
  rw [preprocess_text, finalRun, Run.unit_preamble hds, Run.unit_after, Run.out_after,
    renderAll_preambleItems]

theorem declared_of_spacing (hblank : ∀ c ∈ front.toList, isBlank c = true)
    (hclosed : IsClosed front.toList) (hfollowing : IsBehindLine following.toList)
    {ds : Definitions} (hds : ∀ e ∈ ds.entries, Preamble.IsObject e) (inc : Includer σ)
    {tag : String} (htag : '\n' ∉ tag.toList) (version : Version) (forced : Bool) (includer : σ)
    (includes : Nat) (nextLine : Bool) :
    let source := front ++ .ofList (g.spell s) ++ following
    let text := (preprocess inc ⟨tag, source, Preamble.text ds, version, forced⟩ includer).1.text
    ∃ out before line after, Preamble.remove text tag Preamble.endLine includes nextLine = .ok out ∧
      Text.lines out = before ++ line :: after ∧
      (∃ rest, line.toList = pragma.toList ++ rest ∧ String.ofList (argument rest) = s.name) ∧
      (Stage.declared out tag nextLine = .ok (some s) ↔ ∀ other ∈ before ++ after, ∀ rest,
        stripChars other.toList = pragma.toList ++ rest →
          String.ofList (argument rest) = s.name) := by
  intro source text
  let run := Run.unit inc maxIncludeDepth ⟨tag, source⟩ 0 (Run.prepared ds version forced includer)
  have htext :
      text = String.join (List.replicate ds.entries.length "\n") ++ Preamble.endLine ++ run.out :=
    text_prepared hds inc tag source version forced includer
  have hdefined :
      DefinesOnly (Run.prepared ds version forced includer).table (ds.entries.map (·.1)) :=
    definesOnly_defineAll fun name hfree _ => Run.find_start hfree version forced includer
  obtain ⟨more, hmore⟩ :=
    Run.out_spell g s hblank hclosed hfollowing hdefined inc maxIncludeDepth tag 0
  have hstart : (Run.prepared ds version forced includer).out = "" := rfl
  have hbody : bareLines run.out.toList =
      bareLines front.toList ++ [g.written s] ++ bareLines more.toList := by
    have hrows : ∀ row ∈ bareLines front.toList, '\n' ∉ row := fun row => newline_notMem_bareLines
    have hchars : run.out.toList =
        unlines (bareLines front.toList) ++ (g.written s ++ '\n' :: more.toList) := by
      rw [hmore, hstart, unlines_bareLines hclosed]
      simp
    rw [hchars, bareLines_unlines_append hrows, bareLines_line (g.newline_notMem_written s),
      List.append_assoc]
    rfl
  have hwhite : ∀ row ∈ bareLines front.toList, ∀ c ∈ row, isBlank c = true := fun row hrow c hc =>
    hblank c (subset_of_mem_bareLines hrow hc)
  have hhead : ∀ row ∈ bareLines front.toList ++ [g.written s], Preamble.isHeadRow row = true := by
    refine List.forall_mem_append.mpr ⟨fun row hrow => ?_,
      List.forall_mem_singleton.mpr (g.isHeadRow_written s)⟩
    by_contra hversion
    obtain ⟨cs, rfl⟩ := Preamble.exists_of_versionRow (Bool.eq_false_iff.mpr hversion)
    exact absurd (hwhite _ hrow '#' (.head _)) (by decide)
  obtain ⟨out, hout, hrows⟩ :=
    Preamble.remove_eq (blankLine_replicate ds.entries.length) run.out htag includes nextLine
  obtain ⟨top, rest, harranged, htop⟩ := Preamble.exists_arranged_append includes nextLine tag hhead
    (bareLines more.toList)
  have hlines : bareLines out.toList = (top ++ bareLines front.toList) ++ g.written s :: rest := by
    rw [hrows, hbody, harranged]
    simp
  have hbefore :
      ∀ row ∈ top ++ bareLines front.toList, isPragmaRow row = false ∧ isCodeRow row = false := by
    refine List.forall_mem_append.mpr ⟨htop, fun row hrow => ?_⟩
    have hnone : afterPrefix? pragma.toList [] = none := rfl
    simp [isPragmaRow, isCodeRow, stripChars_of_blank (hwhite row hrow), hnone]
  have hdeclared :=
    declared_of_first hlines hbefore (g.stripChars_written s) (g.argument_called s) tag nextLine
  refine ⟨out, (top ++ bareLines front.toList).map .ofList, .ofList (g.written s),
    rest.map .ofList, ?_, ?_, ⟨g.called s, String.toList_ofList, g.argument_called s⟩, ?_⟩
  · rw [htext, hout]
  · rw [Text.lines, hlines, List.map_append, List.map_cons]
  · rw [hdeclared, ← List.map_append, List.forall_mem_map]
    simp only [String.toList_ofList]

def tabbed : Spacing where
  indent := .of " \t" rfl
  afterHash := .of "\t" rfl
  afterPragma := .of " \t" rfl
  afterKeyword := .of "" rfl
  afterOpen := .of "\t " rfl
  afterName := .of "  " rfl
  afterClose := .of "\t" rfl
  apart := List.cons_ne_nil _ _

def versionBehind : String :=
  "\n \t\n" ++ " \t#\tpragma \tshader_stage(\t fragment  )\t" ++ "\n#version 450\nN\n"

def versionAhead : String :=
  "#version 450\n#extension GL_GOOGLE_include_directive : enable\n#line 1 \"t\"\n\n \t\n" ++
    "#pragma shader_stage( fragment )\n\n4 - 1\n"

lemma remove_versionBehind : Preamble.remove
    (preprocess Includer.null ⟨"t", versionBehind, Preamble.text oneDefinition, .default,
      false⟩ ()).1.text
    "t" Preamble.endLine 1 true = .ok versionAhead := by
  let arguments :=
    [ident "shader_stage", punct "(", ⟨.space, "\t "⟩, ident "fragment", ⟨.space, "  "⟩, punct ")"]
  have hitems : (Run.unit Includer.null maxIncludeDepth ⟨"t", versionBehind⟩ 0
      (Run.prepared oneDefinition .default false ())).items.toList =
        [.text [] 1, .text [⟨.space, " \t"⟩] 1,
        .pragma 3 arguments, .version [number "450"], .text [number "4", blank, punct "-", blank,
          number "1"] 1] := by
    cbv
  rw [text_prepared isObject_oneDefinition, Run.out, hitems]
  decide +kernel

theorem declared_of_spacing_of_version :
    Preamble.remove (preprocess Includer.null ⟨"t", versionBehind, Preamble.text oneDefinition,
      .default, false⟩ ()).1.text
        "t" Preamble.endLine 1 true = .ok versionAhead ∧
      Stage.declared versionAhead "t" true = .ok (some .fragment) := by
  have hspell :
      " \t#\tpragma \tshader_stage(\t fragment  )\t" = .ofList (tabbed.spell .fragment) := by cbv
  have hfront : ∀ c ∈ "\n \t\n".toList, isBlank c = true := List.all_eq_true.mp (by decide)
  have hclosed : IsClosed "\n \t\n".toList := by
    rintro c ⟨⟩
    rfl
  have hfollowing : IsBehindLine "\n#version 450\nN\n".toList := by
    rintro c ⟨⟩
    rfl
  obtain ⟨out, before, line, after, hout, hlines, -, hdeclared⟩ :=
    declared_of_spacing tabbed .fragment hfront hclosed
    hfollowing isObject_oneDefinition Includer.null (show '\n' ∉ "t".toList by decide) .default
      false () 1 true
  rw [← hspell, ← versionBehind] at hout
  obtain rfl : versionAhead = out := Except.ok.inj (remove_versionBehind.symm.trans hout)
  have hlocated :
      located 0 ((Text.lines versionAhead).map fun l => stripChars l.toList) =
        [(5, "fragment")] := by cbv
  have hnames : ∀ p ∈ located 0 ((Text.lines versionAhead).map fun l => stripChars l.toList),
      p.2 = "fragment" := by
    rw [hlocated]
    exact List.forall_mem_singleton.mpr rfl
  refine ⟨hout, hdeclared.mpr fun other hother => ?_⟩
  have hmem : other ∈ Text.lines versionAhead := by
    rw [hlines]
    rcases List.mem_append.mp hother with h | h
    · exact List.mem_append_left _ h
    · exact List.mem_append_right _ (.tail _ h)
  exact (forall_located_iff 0 "fragment").mp hnames _ (List.mem_map_of_mem hmem)

def indentedPragma : String :=
  "#pragma shader_stage(vertex)\n#define P #pragma shader_stage(nosuch)\n  P\n"

theorem indented_pragma_conflicts : ∃ out,
    (preprocess Includer.null ⟨"t", indentedPragma, Preamble.text {}, .default, false⟩ ()).1 =
      ⟨true, Preamble.endLine ++ out, ""⟩ ∧
    Preamble.remove (Preamble.endLine ++ out) "t" Preamble.endLine 0 false = .ok out ∧
    Text.lines out = ["#pragma shader_stage(vertex)", "", "  #pragma shader_stage(nosuch)"] ∧
    (Text.lines out).filter (Text.startsWith · pragma) = ["#pragma shader_stage(vertex)"] ∧
    Stage.declared out "t" false = .error ⟨"t", [.conflict 3 "nosuch" 1 "vertex"]⟩ :=
  ⟨"#pragma shader_stage(vertex)\n\n  #pragma shader_stage(nosuch)\n",
    by cbv, by cbv, by cbv, by cbv, by cbv⟩

end Preprocess

end ShaderPipeline
