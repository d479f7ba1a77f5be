import ShaderPipeline.CommandLine
import ShaderPipeline.Proofs.Preamble.Anchor

/-! When the preparation of a source fails for want of the line that ends its preamble. -/

namespace ShaderPipeline

variable {σ ω υ π : Type}

structure Services.BuiltIn (s : Services ω υ π) (inc : Includer σ) (part : ω → σ) : Prop where
  result : ∀ request w, (s.preprocess request w).1 = (Preprocess.preprocess inc request (part w)).1
  includer : ∀ request w, part (s.preprocess request w).2 =
    (Preprocess.preprocess inc request (part w)).2
  includeCount : ∀ w, s.includeCount w = inc.count (part w)
  resetIncludes : ∀ w, part (s.resetIncludes w) = inc.reset (part w)

lemma CommandLine.builtIn_services (inc : Includer σ) : (services inc).BuiltIn inc Prod.fst :=
  ⟨fun _ _ => rfl, fun _ _ => rfl, fun _ => rfl, fun _ => rfl⟩

namespace Compile

variable {s : Services ω υ π} {o : CompilerOptions} {shader : ShaderSource} {w : ω}

lemma error_of_runStages {stage : Stage} {d : Diagnostics} {f : CompileFailure}
    (h : (runStages s o shader stage d w).1 = .error f) (e : Preamble.MissingAnchor) :
    f.error ≠ .preamble e := by
  revert h
  unfold runStages
  split
  · rintro ⟨⟩ ⟨⟩
  split
  · rintro ⟨⟩ ⟨⟩
  split
  · rintro ⟨⟩ ⟨⟩
  split
  · rintro ⟨⟩ ⟨⟩
  split
  · rintro ⟨⟩ ⟨⟩
  split
  · split
    · rintro ⟨⟩ ⟨⟩
    · rintro ⟨⟩
  · rintro ⟨⟩

lemma error_of_build {stage : Stage} {d : Diagnostics} {f : CompileFailure}
    (h : (build s o shader stage d w).1 = .error f) (e : Preamble.MissingAnchor) :
    f.error ≠ .preamble e := by
  revert h
  unfold build
  split
  · rintro ⟨⟩ ⟨⟩
  · exact fun h => error_of_runStages h e

lemma error_of_resolveStage {fallback : String → ω → Option Stage × ω} {p : Prepared}
    {f : CompileFailure} (h : (resolveStage shader fallback p w).1 = .error f)
    (e : Preamble.MissingAnchor) : f.error ≠ .preamble e := by
  revert h
  unfold resolveStage
  split
  · rintro ⟨⟩ ⟨⟩
  · rintro ⟨⟩
  split
  · rintro ⟨⟩
  · rintro ⟨⟩ ⟨⟩

lemma missing_of_prepare {f : CompileFailure} (h : (prepare s o shader w).1 = .error f)
    {e : Preamble.MissingAnchor} (he : f.error = .preamble e) :
    (s.preprocess (preprocessRequest o shader) w).1.success = true ∧
      ¬ Preamble.HasAnchor (s.preprocess (preprocessRequest o shader) w).1.text := by
  revert h
  unfold prepare
  generalize s.preprocess (preprocessRequest o shader) w = r
  dsimp only
  split
  · rename_i hok
    split
    · rintro ⟨⟩
    · rename_i hremove
      rintro -
      obtain ⟨hsuccess, -⟩ := Bool.and_eq_true_iff.mp hok
      refine ⟨hsuccess, fun hanchor => ?_⟩
      obtain ⟨out, hout⟩ := (Preamble.exists_remove_iff shader.tag _ _).mpr hanchor
      rw [hout] at hremove
      cases hremove
  · rintro ⟨⟩
    cases he

theorem missing_of_compile {stage : Option Stage} {fallback : String → ω → Option Stage × ω}
    {f : CompileFailure} (h : (compile s o shader stage fallback w).1 = .error f)
    {e : Preamble.MissingAnchor} (he : f.error = .preamble e) :
    (s.preprocess (preprocessRequest o shader) (s.resetIncludes w)).1.success = true ∧
      ¬ Preamble.HasAnchor (s.preprocess (preprocessRequest o shader)
        (s.resetIncludes w)).1.text := by
  revert h
  unfold compile
  generalize s.resetIncludes w = w
  cases hmode : o.mode with
  | preprocessOnly =>
    dsimp only
    split
    · rename_i hprepare
      rintro ⟨⟩
      exact missing_of_prepare (congrArg Prod.fst hprepare) he
    · rintro ⟨⟩
  | binary | disassembly =>
    cases stage with
    | some stage => exact fun h => (error_of_build h e he).elim
    | none =>
      dsimp only
      split
      · rename_i hprepare
        rintro ⟨⟩
        exact missing_of_prepare (congrArg Prod.fst hprepare) he
      split
      · rename_i hresolve
        rintro ⟨⟩
        exact (error_of_resolveStage (congrArg Prod.fst hresolve) e he).elim
      · exact fun h => (error_of_build h e he).elim

lemma filter_empty (tag : String) (policy : WarningPolicy) :
    Log.filter tag policy "" = (true, {}) :=
  rfl

lemma prepare_of_result {inc : Includer σ} {part : ω → σ} (hs : s.BuiltIn inc part) {text : String}
    (h : (Preprocess.preprocess inc (preprocessRequest o shader) (part w)).1 = ⟨true, text, ""⟩)
    {removed : Except Preamble.MissingAnchor String} (hremove : ∀ nextLine,
      Preamble.remove text shader.tag
      Preamble.endLine (inc.count (Preprocess.preprocess inc (preprocessRequest o shader)
        (part w)).2) nextLine =
        removed) :
    (prepare s o shader w).1 = match removed with
      | .ok out => .ok ⟨out, (Version.effective text o.version o.versionForced).numbersNextLine, {}⟩
      | .error e => .error ⟨shader.tag, .start, .preamble e, {}⟩ := by
  rw [← hs.result] at h
  rw [← hs.includer, ← hs.includeCount] at hremove
  unfold prepare
  generalize s.preprocess (preprocessRequest o shader) w = r at h hremove
  obtain ⟨result, w⟩ := r
  subst h
  dsimp only at hremove ⊢
  rw [filter_empty, hremove]
  cases removed <;> rfl

lemma compile_preprocessOnly (h : o.preprocessOnly = true) (stage : Option Stage)
    (fallback : String → ω → Option Stage × ω) :
    (compile s o shader stage fallback w).1 =
      (prepare s o shader (s.resetIncludes w)).1.map fun p =>
        ⟨none, .preprocessed p.text, p.diagnostics⟩ := by
  have hmode : o.mode = .preprocessOnly := by simp [CompilerOptions.mode, h]
  unfold compile
  rw [hmode]
  dsimp only
  generalize prepare s o shader (s.resetIncludes w) = r
  rcases r with ⟨f | p, w⟩ <;> rfl

/-- The line that ends a preamble is found again behind every source if and only if the definitions
in front of it leave it as it is. They do so if each is a line of its own behind which no comment is
open. -/
theorem anchor_found_iff (inc : Includer σ) (ds : Definitions) (tag : String) (version : Version)
    (forced : Bool) (includer : σ) :
    let front := Preprocess.front inc ds tag version forced includer
    let result := fun source =>
      (Preprocess.preprocess inc ⟨tag, source, Preamble.text ds, version, forced⟩ includer).1
    ((∀ source includes nextLine, (result source).success = true →
        ∃ out, Preamble.remove (result source).text tag Preamble.endLine includes
          nextLine = .ok out) ↔
          front.KeepsAnchor) ∧
      ((∀ e ∈ ds.entries, Text.Contained (Preamble.defineRow e.1 e.2)) → front.KeepsAnchor) ∧
      ∀ (s : Services ω υ π) (part : ω → σ), s.BuiltIn inc part → ∀ o shader stage fallback w,
        (Preprocess.front inc o.definitions shader.tag o.version o.versionForced
          (part (s.resetIncludes w))).KeepsAnchor →
        ∀ f, (compile s o shader stage fallback w).1 = .error f → ∀ e, f.error ≠ .preamble e := by
  intro front result
  refine ⟨⟨fun h => ?_, fun h source includes nextLine hsuccess => ?_⟩,
    Preprocess.keepsAnchor_of_contained, ?_⟩
  · refine Preprocess.keepsAnchor_of_empty fun hsuccess => ?_
    exact (Preamble.exists_remove_iff tag 0 false).mp (h "" 0 false hsuccess)
  · exact (Preamble.exists_remove_iff tag includes nextLine).mpr
      (Preprocess.hasAnchor_preprocess h hsuccess)
  · intro s part hs o shader stage fallback w hkeeps f hf e he
    obtain ⟨hsuccess, hmissing⟩ := missing_of_compile hf he
    rw [hs.result] at hsuccess hmissing
    exact hmissing (Preprocess.hasAnchor_preprocess hkeeps hsuccess)

def commented : Definitions :=
  .ofList [("N", "4 // of them")]

theorem anchor_found_of_comment : ∃ out, Preamble.remove
    (Preprocess.preprocess Includer.null ⟨"t", "int x = N;\n", Preamble.text commented, .default,
      false⟩ ()).1.text "t"
      Preamble.endLine 0 false = .ok out := by
  have hcontained : ∀ e ∈ commented.entries, Text.Contained (Preamble.defineRow e.1 e.2) := by
    intro e he
    obtain rfl : e = ("N", "4 // of them") := List.mem_singleton.mp he
    exact ⟨by decide, by decide⟩
  have htext : Preamble.text commented =
      "#define N 4 // of them\n#extension GL_GOOGLE_include_directive : enable\n" := by cbv
  obtain ⟨hfound, hkeeps, -⟩ :=
    @anchor_found_iff Unit Unit Unit Unit Includer.null commented "t" .default false ()
  refine hfound.mpr (hkeeps hcontained) "int x = N;\n" 0 false ?_
  rw [htext]
  cbv

def opening : CompilerOptions :=
  { definitions := .ofList [("A", "/*")], preprocessOnly := true }

def idle : ExternalToolchain :=
  { host := { availability := fun _ => .installed, scratchPath := "" } }

theorem anchor_lost :
    (Preprocess.preprocess Includer.null (preprocessRequest opening ⟨"t", "int x;\n"⟩) ()).1 =
        ⟨true, "\n\nint x;\n", ""⟩ ∧
      Preamble.remove "\n\nint x;\n" "t" Preamble.endLine 0 false = .error ⟨"t"⟩ ∧
      (compile (CommandLine.services Includer.null) opening ⟨"t", "int x;\n"⟩ none
        (fun _ w => (none, w)) ((), idle)).1 = .error ⟨"t", .start, .preamble ⟨"t"⟩, {}⟩ := by
  have htext : Preamble.text opening.definitions =
      "#define A /*\n#extension GL_GOOGLE_include_directive : enable\n" := by cbv
  have hresult :
      (Preprocess.preprocess Includer.null (preprocessRequest opening ⟨"t", "int x;\n"⟩) ()).1 =
      ⟨true, "\n\nint x;\n", ""⟩ := by
    rw [preprocessRequest, htext]
    cbv
  have hremove :
      ∀ nextLine,
        Preamble.remove "\n\nint x;\n" "t" Preamble.endLine 0 nextLine = .error ⟨"t"⟩ := by
    decide +kernel
  refine ⟨hresult, hremove false, ?_⟩
  have hprepare :
      (prepare (CommandLine.services Includer.null) opening ⟨"t", "int x;\n"⟩ ((), idle)).1 =
      .error ⟨"t", .start, .preamble ⟨"t"⟩, {}⟩ :=
    prepare_of_result (CommandLine.builtIn_services Includer.null) hresult hremove
  rw [compile_preprocessOnly rfl]
  exact congrArg (Except.map _) hprepare

end Compile

end ShaderPipeline
