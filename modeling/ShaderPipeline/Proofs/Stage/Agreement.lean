import ShaderPipeline.Proofs.Preamble.Items
import ShaderPipeline.Proofs.Preprocess.Progress

/-! The stage pragmas of a source as its run numbered them, and as they are found in its
preprocessed text. -/

namespace ShaderPipeline.Preprocess

open StagePragmas

lemma remove_renderAll (n includes : Nat) (nextLine : Bool) {tag : String}
    (htag : '\n' ∉ tag.toList) {xs : List Item} (hv : ∀ x ∈ xs, x.Valid) :
    ∃ out, Preamble.remove (Item.renderAll (preambleItems n ++ xs)) tag Preamble.endLine includes
      nextLine = .ok out ∧
      (StagePragmas.ofText out nextLine).pragmas = listed nextLine 1 (xs.flatMap Item.rows) := by
  obtain ⟨out, hout, hrows⟩ :=
    Preamble.remove_eq (blankLine_replicate n) (Item.renderAll xs) htag includes nextLine
  rw [toList_renderAll hv, Text.bareLines_unlines (newline_notMem_allRows hv)] at hrows
  refine ⟨out, ?_, ?_⟩
  · rw [renderAll_append, renderAll_preambleItems, hout]
  · rw [pragmas_ofText, hrows, Preamble.listed_arranged]

variable {σ : Type}

/-- The scan and the run count lines alike exactly if every line directive reads back as the number
that the run took from it. -/
theorem scan_agrees_iff (inc : Includer σ) (hinc : inc.OneLine) (ds : Definitions)
    (hds : ∀ e ∈ ds.entries, Preamble.Plain e.1 ∧ Preamble.Plain e.2) (tag source : String)
    (htag : '\n' ∉ tag.toList) (version : Version) (forced nextLine : Bool) (includer : σ)
    (hitems : ∀ x ∈ (finalRun inc ⟨tag, source, Preamble.text ds, version,
      forced⟩ includer).items.toList, x.Follows nextLine ∧ x.KeepsCode) :
    let run := finalRun inc ⟨tag, source, Preamble.text ds, version, forced⟩ includer
    ∃ xs out, run.items.toList = preambleItems ds.entries.length ++ xs ∧
      Preamble.remove run.out tag Preamble.endLine (inc.count run.includer) nextLine = .ok out ∧
      ((∀ x ∈ xs, x.ReadsBack) ↔ ∀ ys, ys <+: xs →
        counted nextLine 1 (Text.bareLines (Item.renderAll ys).toList) = ys.foldl Item.next 1) ∧
      ((∀ x ∈ xs, x.ReadsBack) →
        (StagePragmas.ofText out nextLine).pragmas = xs.filterMap Item.stagePragma?) := by
  simp only [finalRun, Run.out] at hitems ⊢
  generalize maxIncludeDepth = levels at hitems ⊢
  have hread := Run.reads_unit hinc levels _ rfl
  have hstart := bodies_start version forced includer
  obtain ⟨ht, -⟩ := hread ⟨tag, Preamble.text ds⟩ 0 _ hstart
  have hpre := @items_preamble _ inc _ hds levels tag (Run.start version forced includer)
  generalize Run.unit inc levels ⟨tag, Preamble.text ds⟩ 0 (Run.start version forced includer) =
    first at *
  obtain ⟨-, xs, l, hxs, hw, -⟩ := hread ⟨tag, source⟩ 0 first ht
  generalize Run.unit inc levels ⟨tag, source⟩ 0 first = run at *
  have hall : run.items.toList = preambleItems ds.entries.length ++ xs := by
    rw [hxs, hpre]
    rfl
  have hvalid := hw.valid htag
  have hscan : ∀ x ∈ xs, x.Scannable nextLine := by
    intro x hx
    obtain ⟨hf, hc⟩ := hitems x (hall ▸ List.mem_append_right _ hx)
    exact ⟨hf, hc, (hw.inRange ⟨by decide, by decide⟩).2 x hx, hvalid x hx⟩
  obtain ⟨out, hout, hpragmas⟩ :=
    remove_renderAll ds.entries.length (inc.count run.includer) nextLine htag hvalid
  rw [← hall] at hout
  refine ⟨xs, out, hall, hout, ?_, fun hr => ?_⟩
  · rw [readsBack_iff hscan 1]
    apply forall₂_congr
    intro ys hys
    have hv : ∀ x ∈ ys, x.Valid := fun x hx => hvalid x (hys.subset hx)
    rw [toList_renderAll hv, Text.bareLines_unlines (newline_notMem_allRows hv)]
  · rw [hpragmas, listed_eq_filterMap hscan hr hw.pragmasFrom]

def renumbered (args : String) : Request :=
  { tag := "t"
    source :=
  s!"#version 450\n#define ID(x) x\n#line {args}\n#pragma shader_stage(nosuch)\nint x;\n"
    preamble := Preamble.text (.ofList [])
    version := .default
    forced := false }

def renumberedItems (line : LineNumber) (args : List Token) : List Item :=
  [.version [.number "450"], .blank, .renumber true line args,
    .pragma line [.ident "shader_stage", .punct "(", .ident "nosuch", .punct ")"],
    .text [.ident "int", .blank, .ident "x", .punct ";"] 1]

lemma follows_renumberedItems (line : LineNumber) (args : List Token) :
    ∀ x ∈ preambleItems 0 ++ renumberedItems line args, x.Follows true ∧ x.KeepsCode := by
  have hc : IsCode (Token.join [.ident "int", .blank, .ident "x", .punct ";"]).toList := by
    rw [IsCode]
    decide
  simp only [preambleItems, renumberedItems, List.replicate_zero, List.nil_append, List.cons_append,
    List.forall_mem_cons]
  exact ⟨⟨trivial, trivial⟩, ⟨trivial, trivial⟩, ⟨trivial, trivial⟩, ⟨rfl, trivial⟩,
    ⟨trivial, trivial⟩, ⟨trivial, hc⟩, by simp⟩

theorem scan_agrees_iff_of_number : ∃ out,
    Preamble.remove (finalRun Includer.null (renumbered "7") ()).out "t" Preamble.endLine 0
      true = .ok out ∧
      (StagePragmas.ofText out true).pragmas = [⟨7, "nosuch"⟩] := by
  have hitems : (finalRun Includer.null (renumbered "7") ()).items.toList =
      preambleItems 0 ++ renumberedItems 7 [.number "7"] := by cbv
  have hinc : Includer.null.OneLine := by
    intro s request f hf
    cases hf
  obtain ⟨xs, out, hxs, hout, -, hlist⟩ :=
    scan_agrees_iff Includer.null hinc {} (by simp) "t" (renumbered "7").source
    (by decide) .default false true () (fun x hx => follows_renumberedItems 7 [.number "7"] x
      (hitems ▸ hx))
  have hxs : renumberedItems 7 [.number "7"] = xs := List.append_cancel_left (hitems.symm.trans hxs)
  have hseven : (LineNumber.ofText (Token.canonical [.number "7"])).following true = 7 := by decide
  have hread : ∀ x ∈ xs, x.ReadsBack := by
    rw [← hxs]
    simp only [renumberedItems, List.forall_mem_cons]
    exact ⟨trivial, trivial, hseven, trivial, trivial, by simp⟩
  have hstage : xs.filterMap Item.stagePragma? = [⟨7, "nosuch"⟩] := by
    rw [← hxs]
    rfl
  rw [← hstage]
  exact ⟨out, hout, hlist hread⟩

set_option maxRecDepth 20000 in
theorem scan_disagrees :
    let run := finalRun Includer.null (renumbered "ID(1)2") ()
    run.faults = [] ∧ (∀ x ∈ run.items.toList, x.Follows true ∧ x.KeepsCode) ∧
      run.items.toList.filterMap Item.stagePragma? = [⟨1, "nosuch"⟩] ∧
      ∃ out, Preamble.remove run.out "t" Preamble.endLine 0 true = .ok out ∧
        (StagePragmas.ofText out true).pragmas = [⟨12, "nosuch"⟩] := by
  have hrun : ((finalRun Includer.null (renumbered "ID(1)2") ()).items.toList,
      (finalRun Includer.null (renumbered "ID(1)2") ()).faults) =
      (preambleItems 0 ++ renumberedItems 1 [.number "1", .number "2"], []) := by cbv
  obtain ⟨hitems, hfaults⟩ := Prod.mk.inj hrun
  have hvalid : ∀ x ∈ renumberedItems 1 [.number "1", .number "2"], x.Valid := by
    simp [renumberedItems, Item.Valid, Token.OneLine, Token.ident, Token.number, Token.punct,
      Token.blank]
  obtain ⟨out, hout, hpragmas⟩ :=
    remove_renderAll 0 0 true (show '\n' ∉ "t".toList by decide) hvalid
  intro run
  refine ⟨hfaults, ?_, ?_, out, ?_, hpragmas.trans ?_⟩
  · rw [hitems]
    exact follows_renumberedItems 1 _
  · rw [hitems]
    rfl
  · rw [Run.out, hitems]
    exact hout
  · cbv

end ShaderPipeline.Preprocess
