import ShaderPipeline.Proofs.Preamble.Definitions
import ShaderPipeline.Proofs.Preprocess.TextRun

namespace ShaderPipeline

variable {σ : Type}

namespace Preprocess

open Macro Token

structure IsVerbatim (names : List String) (line : String) : Prop where
  text : (line.toList.dropWhile Text.isBlank).head? ≠ some '#'
  free : ∀ x ∈ tokenize line, x.kind = .ident → isPredefined x.text = false ∧ x.text ∉ names

structure IsPlainText (names : List String) (source : String) : Prop where
  closed : Text.IsClosed source.toList
  uncommented : Text.Uncommented source.toList
  verbatim : ∀ line ∈ Text.lines source, IsVerbatim names line

def DefinesOnly (t : Table) (names : List String) : Prop :=
  ∀ name, isPredefined name = false → name ∉ names → t.find? name = none

variable {names : List String} {t : Table} {line : String}

lemma value_of_free {name : String} (h : isPredefined name = false) (b : Builtins) :
    b.value? name = none := by
  simp only [isPredefined, List.mem_cons, List.not_mem_nil, or_false, decide_eq_false_iff_not,
    not_or] at h
  obtain ⟨hline, hfile, hversion, -⟩ := h
  simp only [Builtins.value?]

lemma IsVerbatim.isText (h : IsVerbatim names line) : Reading.IsText line := by
  have hstart := trimStart_scan line.toList
  rw [Reading.IsText, directiveTokens?]
  split
  · rename_i x xs htrim
    cases hx : x.isPunct "#" with
    | false => rfl
    | true =>
      obtain ⟨more, hmore⟩ := List.rdropWhile_prefix isSpace (trimStart (tokenize line))
      have hscan : x :: xs ++ more = scan (line.toList.dropWhile Text.isBlank) := by
        rw [← htrim, ← hstart]
        exact hmore
      have hchars := flatMap_scan (line.toList.dropWhile Text.isBlank)
      rw [← hscan, List.cons_append, List.flatMap_cons, text_of_isPunct hx] at hchars
      exact (h.text (by rw [← hchars]; rfl)).elim
  · rfl

lemma IsVerbatim.inert (h : IsVerbatim names line) (ht : DefinesOnly t names) (b : Builtins) :
    ∀ x ∈ tokenize line, t.Inert b x := by
  intro x hx hk
  obtain ⟨hfree, hnot⟩ := h.free x hx hk
  exact ⟨value_of_free hfree b, ht x.text hfree hnot⟩

variable {inc : Includer σ} {descent : Descent σ}

namespace Reading

lemma line_verbatim {r : Reading σ} (hheld : r.place.held = none) (hgroups : r.place.groups = [])
    (ht : DefinesOnly r.run.table names) (h : IsVerbatim names line) :
    r.line inc descent line = r.emit (.text (tokenize line) 1) := by
  have hskip : r.place.isSkipping = false := by simp [Place.isSkipping, hgroups]
  have hextend : r.extendHeld (tokenize line) = ⟨tokenize line, 1, r.builtins⟩ := by
    simp only [extendHeld, hheld]
  have hrelease : r.release = r := by rw [release, ← hheld]
  rw [line_of_isText h.isText hskip]
  simp only [text, hextend, Table.expandOpen_of_inert (h.inert ht r.builtins), hrelease, writeText]

lemma lines_verbatim {r : Reading σ} (hheld : r.place.held = none) (hgroups : r.place.groups = [])
    (ht : DefinesOnly r.run.table names) {ss : List String} (h : ∀ s ∈ ss, IsVerbatim names s) :
    let r' := r.lines inc descent ss
    r'.place.held = none ∧ r'.place.groups = [] ∧
      r'.run = { r.run with
        items := r.run.items ++ (ss.map fun s => Item.text (tokenize s) 1).toArray } := by
  induction ss generalizing r with
  | nil => exact ⟨hheld, hgroups, by simp [lines]⟩
  | cons s ss ih =>
    obtain ⟨hs, hss⟩ := List.forall_mem_cons.mp h
    let r' := (r.emit (.text (tokenize s) 1)).advance
    have hlines : r.lines inc descent (s :: ss) = r'.lines inc descent ss := by
      rw [lines, List.foldl_cons, line_verbatim hheld hgroups ht hs]
      rfl
    obtain ⟨h₁, h₂, h₃⟩ := @ih r' hheld hgroups ht hss
    rw [hlines]
    refine ⟨h₁, h₂, h₃.trans ?_⟩
    have hitems : r.run.items.push (.text (tokenize s) 1) ++
        (ss.map fun s => Item.text (tokenize s) 1).toArray =
        r.run.items ++ ((s :: ss).map fun s => Item.text (tokenize s) 1).toArray := by
      rw [← Array.toList_inj]
      simp
    exact congrArg (fun items => { r.run with items }) hitems

end Reading

namespace Run

theorem unit_verbatim {source : String} (h : IsPlainText names source) {run : Run σ}
    (ht : DefinesOnly run.table names) (levels : Nat) (tag : String) (file : Nat) :
    unit inc levels ⟨tag, source⟩ file run = { run with
      items :=
    run.items ++ ((Text.lines source).map fun s => Item.text (tokenize s) 1).toArray } := by
  obtain ⟨descent, depth, hread⟩ := exists_readUnit inc levels ⟨tag, source⟩ file run
  have hlines :=
    @Reading.lines_verbatim σ names inc descent ⟨{ name := tag, depth, file }, run⟩ rfl rfl ht
    (Text.lines source) h.verbatim
  rw [hread, readUnit, h.uncommented.clean_eq]
  generalize Reading.lines _ _ _ _ = r at hlines
  obtain ⟨hheld, hgroups, hrun⟩ := hlines
  simp only [Reading.close, Reading.flush, hheld, hgroups, hrun]

end Run

lemma renderAll_verbatim {source : String} (h : Text.IsClosed source.toList) :
    Item.renderAll ((Text.lines source).map fun s => Item.text (tokenize s) 1) = source := by
  have hrender :
      ∀ row, (Item.render (.text (tokenize (.ofList row)) 1)).toList = row ++ ['\n'] := by
    intro row
    rw [Item.render, join_tokenize, String.toList_append, String.toList_ofList]
    rfl
  rw [← String.toList_inj, Item.renderAll, String.toList_join, Text.lines, List.map_map,
    List.map_map, List.flatMap_map]
  conv_rhs => rw [← Text.unlines_bareLines h, Text.unlines]
  exact List.flatMap_congr fun row _ => hrender row

lemma definesOnly_defineAll {ds : Definitions} {t : Table} (ht : DefinesOnly t []) :
    DefinesOnly (Preamble.defineAll t ds.entries) (ds.entries.map (·.1)) := by
  intro name hfree hnot
  have hnone : ds.entries.lookup name = none := List.lookup_eq_none_iff.mpr fun e he => by
    simpa using fun hn : name = e.1 => hnot (hn ▸ List.mem_map_of_mem he)
  rw [Preamble.find_defineAll t ds.sorted, hnone, ht name hfree List.not_mem_nil]
  rfl

theorem preprocess_verbatim {ds : Definitions} (hds : ∀ e ∈ ds.entries, Preamble.IsObject e)
    {source : String} (h : IsPlainText (ds.entries.map (·.1)) source) (inc : Includer σ)
    (tag : String) (version : Version) (forced : Bool) (includer : σ) :
    preprocess inc ⟨tag, source, Preamble.text ds, version, forced⟩ includer =
      (⟨true, String.join (List.replicate ds.entries.length "\n") ++ Preamble.endLine ++ source,
        ""⟩, includer) := by
  let start := Run.prepared ds version forced includer
  let run :=
    { start with items := ((Text.lines source).map fun s => Item.text (tokenize s) 1).toArray }
  have ht : DefinesOnly start.table (ds.entries.map (·.1)) :=
    definesOnly_defineAll fun name hfree _ => Run.find_start hfree version forced includer
  have hunit : Run.unit inc maxIncludeDepth ⟨tag, source⟩ 0 start = run := by
    rw [Run.unit_verbatim h ht, show start.items = #[] from rfl, Array.empty_append]
  have hrun : finalRun inc ⟨tag, source, Preamble.text ds, version, forced⟩ includer =
      run.after (preambleItems ds.entries.length) [] := by
    rw [finalRun, Run.unit_preamble hds, Run.unit_after, hunit]
  have hout : run.out = source := renderAll_verbatim h.closed
  have hlog : run.log = "" := rfl
  unfold preprocess
  rw [hrun]
  dsimp only
  rw [Run.out_after, Run.log_after, renderAll_preambleItems, hout, hlog]
  rfl

end Preprocess

end ShaderPipeline
