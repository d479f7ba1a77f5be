import ShaderPipeline.Proofs.Preamble.Items
import ShaderPipeline.Proofs.Preprocess.EndsLine

namespace ShaderPipeline

namespace Preamble

open Text Preprocess

def isHead (line : String) : Bool :=
  line = endLine || !isVersionLine line

def HasAnchor (text : String) : Prop :=
  endLine ∈ (linesWithEnds text).takeWhile isHead

variable {text : String}

theorem exists_remove_iff (tag : String) (includes : Nat) (nextLine : Bool) :
    (∃ out, remove text tag endLine includes nextLine = .ok out) ↔ HasAnchor text := by
  have hhead : (fun line => decide (line = endLine) || !isVersionLine line) = isHead := rfl
  simp only [remove, hhead, arrange]
  rw [HasAnchor, ← List.isSome_idxOf?]
  cases ((linesWithEnds text).takeWhile isHead).idxOf? endLine with
  | none => simp
  | some i => simp

lemma linesWithEnds_append (h : IsClosed text.toList) (more : String) :
    linesWithEnds (text ++ more) = linesWithEnds text ++ linesWithEnds more := by
  rw [linesWithEnds, String.toList_append, closedLines_append h, List.map_append, linesWithEnds,
    linesWithEnds]

lemma HasAnchor.append (h : HasAnchor text) (hclosed : IsClosed text.toList) (more : String) :
    HasAnchor (text ++ more) := by
  rw [HasAnchor, linesWithEnds_append hclosed, List.takeWhile_append]
  split
  · exact List.mem_append_left _ ((List.takeWhile_prefix _).subset h)
  · exact h

lemma hasAnchor_join {blanks : List String} (h : ∀ b ∈ blanks, BlankLine b) :
    HasAnchor (String.join blanks ++ endLine) := by
  have hhead : ∀ line ∈ blanks ++ [endLine], isHead line = true := by
    intro line hm
    rcases List.mem_append.mp hm with hm | hm
    · simp [isHead, (h line hm).isVersionLine]
    · simp [isHead, List.mem_singleton.mp hm]
  have hlines : linesWithEnds (String.join blanks ++ endLine) = blanks ++ [endLine] := by
    simpa [closedLines] using linesWithEnds_join (fun b hb => (h b hb).closed) ""
  rw [HasAnchor, hlines, List.takeWhile_eq_self_iff.mpr hhead]
  simp

end Preamble

namespace Preprocess

variable {σ : Type} {inc : Includer σ}

lemma Run.unit_empty (inc : Includer σ) (levels : Nat) (tag : String) (file : Nat) (run : Run σ) :
    unit inc levels ⟨tag, ""⟩ file run = run := by
  obtain ⟨descent, depth, hread⟩ := exists_readUnit inc levels ⟨tag, ""⟩ file run
  have hlines : Text.lines (Text.clean "") = [] := by decide
  rw [hread, readUnit, hlines]
  rfl

lemma Run.unit_appends (inc : Includer σ) (levels : Nat) (source : Included) (file : Nat)
    (run : Run σ) :
    ∃ more faults, (unit inc levels source file run).out = run.out ++ more ∧
      (unit inc levels source file run).faults = run.faults ++ faults := by
  let next := unit inc levels source file run.cleared
  have hnext : unit inc levels source file run = next.after run.items.toList run.faults := by
    rw [← unit_after, after_cleared]
  refine ⟨next.out, next.faults, ?_, ?_⟩
  · rw [hnext, out_after, ← out]
  · rw [hnext, after]

variable {ds : Definitions} {tag : String} {version : Version} {forced : Bool} {includer : σ}

def front (inc : Includer σ) (ds : Definitions) (tag : String) (version : Version) (forced : Bool)
    (includer : σ) : Run σ :=
  Run.unit inc maxIncludeDepth ⟨tag, Preamble.text ds⟩ 0 (Run.start version forced includer)

def Run.KeepsAnchor (run : Run σ) : Prop :=
  run.faults = [] → Preamble.HasAnchor run.out

lemma finalRun_empty :
    finalRun inc ⟨tag, "", Preamble.text ds, version, forced⟩ includer =
      front inc ds tag version forced includer := by
  rw [finalRun, Run.unit_empty, front]

lemma preprocess_success (request : Request) :
    (preprocess inc request includer).1.success = true ↔
      (finalRun inc request includer).faults = [] := by
  unfold preprocess
  generalize finalRun inc request includer = run
  dsimp only
  exact List.isEmpty_iff

lemma preprocess_text (request : Request) :
    (preprocess inc request includer).1.text = (finalRun inc request includer).out := by
  unfold preprocess
  generalize finalRun inc request includer = run
  dsimp only

lemma isClosed_front : Text.IsClosed (front inc ds tag version forced includer).out.toList := by
  apply Item.isClosed_renderAll
  apply (invariant_endsLines inc).unit
  intro x hx
  rw [Run.items_start] at hx
  exact (List.not_mem_nil hx).elim

theorem hasAnchor_finalRun (h : (front inc ds tag version forced includer).KeepsAnchor)
    {source : String}
    (hfaults : (finalRun inc ⟨tag, source, Preamble.text ds, version, forced⟩ includer).faults =
      []) :
    Preamble.HasAnchor (finalRun inc ⟨tag, source, Preamble.text ds, version, forced⟩
      includer).out := by
  obtain ⟨more, faults, hout, hall⟩ := Run.unit_appends inc maxIncludeDepth ⟨tag, source⟩ 0
    (front inc ds tag version forced includer)
  have hfinal : finalRun inc ⟨tag, source, Preamble.text ds, version, forced⟩ includer =
      Run.unit inc maxIncludeDepth ⟨tag, source⟩ 0 (front inc ds tag version forced includer) := by
    rw [finalRun, front]
  rw [hfinal] at hfaults ⊢
  rw [hall, List.append_eq_nil_iff] at hfaults
  rw [hout]
  exact (h hfaults.1).append isClosed_front more

lemma hasAnchor_preprocess (h : (front inc ds tag version forced includer).KeepsAnchor)
    {source : String}
    (hsuccess : (preprocess inc ⟨tag, source, Preamble.text ds, version, forced⟩
      includer).1.success = true) :
    Preamble.HasAnchor (preprocess inc ⟨tag, source, Preamble.text ds, version, forced⟩
      includer).1.text := by
  rw [preprocess_success] at hsuccess
  rw [preprocess_text]
  exact hasAnchor_finalRun h hsuccess

lemma keepsAnchor_of_empty
    (h : (preprocess inc ⟨tag, "", Preamble.text ds, version, forced⟩ includer).1.success = true →
      Preamble.HasAnchor (preprocess inc ⟨tag, "", Preamble.text ds, version, forced⟩
        includer).1.text) :
    (front inc ds tag version forced includer).KeepsAnchor := by
  rw [preprocess_success, preprocess_text, finalRun_empty] at h
  exact h

lemma keepsAnchor_of_contained (h : ∀ e ∈ ds.entries, Text.Contained (Preamble.defineRow e.1 e.2)) :
    (front inc ds tag version forced includer).KeepsAnchor := by
  intro _
  have hitems :
      (front inc ds tag version forced includer).items.toList =
        preambleItems ds.entries.length := by
    rw [front, items_of_contained h, Run.items_start, Array.toList_empty, List.nil_append]
  rw [Run.out, hitems, renderAll_preambleItems]
  exact Preamble.hasAnchor_join (blankLine_replicate _)

end Preprocess

end ShaderPipeline
