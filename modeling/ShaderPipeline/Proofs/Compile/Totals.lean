import Mathlib
import ShaderPipeline.Proofs.Compile.Course

/-! The outcome of a compile, the messages that it shows and the totals of many compiles tell the
same. -/

namespace ShaderPipeline

variable {ω υ π : Type}

namespace Exchange

variable {o : CompilerOptions} {tag : String} {x : Exchange υ π}

lemma failure_of_output {out : Output} (h : x.output? o = some out) : x.failure? o tag = none := by
  cases x with
  | generate program stage answer =>
    cases answer with
    | error e => cases h
    | ok words => rfl
  | disassemble words answer =>
    cases answer with
    | error e => cases h
    | ok text => rfl
  | _ => cases h

lemma countP_isError_of_isClean {policy : WarningPolicy} {log : String}
    (h : isClean policy tag log = true) :
    (Log.messages tag policy log).countP Message.isError = 0 := by
  simpa [isClean, Log.filter_eq] using h

lemma countP_isError_messages (h : x.failure? o tag = none) :
    (x.messages o tag).countP Message.isError = 0 := by
  have hclean {α : Type} {r : WithLog α} {e : CompileError} :
      (if r.output.isSome && isClean o.warningPolicy tag r.log
      then none else some e) = none →
        (Log.messages tag o.warningPolicy r.log).countP Message.isError = 0 := by
    intro h
    split at h
    · rename_i hgood
      exact countP_isError_of_isClean (Bool.and_eq_true_iff.mp hgood).2
    · cases h
  cases x with
  | preprocess request result =>
    rw [failure?] at h
    split at h
    · rename_i hgood
      exact countP_isError_of_isClean (Bool.and_eq_true_iff.mp hgood).2
    · cases h
  | parse request includes answer =>
    cases answer with
    | error e => rfl
    | ok r => exact hclean h
  | link unit answer =>
    cases answer with
    | error e => rfl
    | ok r => exact hclean h
  | _ => rfl

lemma countP_isWarning_messages (h : o.warningsAsErrors = true ∨ o.suppressWarnings = true) :
    (x.messages o tag).countP Message.isWarning = 0 := by
  cases x with
  | preprocess request result => exact Log.countP_isWarning (.inr rfl)
  | parse request includes answer =>
    cases answer with
    | error e => rfl
    | ok r => exact Log.countP_isWarning h
  | link unit answer =>
    cases answer with
    | error e => rfl
    | ok r => exact Log.countP_isWarning h
  | _ => rfl

end Exchange

namespace Compile

open Exchange

variable {o : CompilerOptions} {shader : ShaderSource} {tag : String} {stage : Stage}
  {d : Diagnostics} {x : Exchange υ π} {xs es : List (Exchange υ π)}
  {r : Except CompileFailure Compiled} {c : Compiled} {given answer : Option Stage}
    {prepared : Except CompileFailure Prepared}

def diagnosticsOf : Except CompileFailure Compiled → Diagnostics
  | .ok c => c.diagnostics
  | .error f => f.diagnostics

def shown : Except CompileFailure Compiled → List Message
  | .ok c => c.diagnostics.messages
  | .error f => f.describe

lemma Ends.diagnostics (h : Ends o tag stage d x r) : diagnosticsOf r = d := by
  cases h <;> rfl

lemma Session.diagnostics (h : Session o tag stage d xs r) :
    diagnosticsOf r = d.pushAll (xs.flatMap (messages o tag)) := by
  obtain ⟨ys, x, rfl, -, hends⟩ := h.ends
  exact hends.diagnostics

lemma Built.diagnostics (h : Built o shader stage d xs r) :
    diagnosticsOf r = d.pushAll (xs.flatMap (messages o shader.tag)) := by
  cases h with
  | refused => rfl
  | served hsession =>
    have hframe (ys : List (Exchange υ π)) :
        (.acquire (.ok ()) :: (ys ++ [.release])).flatMap (messages o shader.tag) =
          ys.flatMap (messages o shader.tag) := by
      rw [List.flatMap_cons, List.flatMap_append, List.flatMap_singleton]
      exact List.append_nil _
    exact hsession.diagnostics.trans (congrArg d.pushAll (hframe _).symm)

lemma Preparation.diagnostics {p : Prepared} (h : Preparation o tag x (.ok p)) :
    p.diagnostics = .ofMessages (x.messages o tag) := by
  cases h
  rfl

lemma Course.diagnostics (hprepared : Preparation o shader.tag x prepared)
    (h : Course o shader given x prepared answer es r) :
    diagnosticsOf r = .ofMessages (es.flatMap (messages o shader.tag)) := by
  have hbehind {p : Prepared} (hp : prepared = .ok p) :
      p.diagnostics = .ofMessages (x.messages o shader.tag) :=
    (hp ▸ hprepared).diagnostics
  cases h with
  | unprepared _ hf =>
    subst hf
    rw [List.flatMap_singleton]
    cases hprepared <;> rfl
  | onlyPrepared _ hp | misdeclared _ _ hp =>
    rw [List.flatMap_singleton]
    exact hbehind hp
  | unresolved _ _ hp =>
    rw [List.flatMap_cons, List.flatMap_singleton]
    exact (hbehind hp).trans (congrArg Diagnostics.ofMessages (List.append_nil _).symm)
  | given _ _ hbuilt => exact hbuilt.diagnostics
  | declared _ _ hp _ hbuilt =>
    rw [hbuilt.diagnostics, hbehind hp, List.flatMap_cons]
    exact (Diagnostics.pushAll_append ..).symm
  | byFallback _ _ hp _ _ hbuilt =>
    rw [hbuilt.diagnostics, hbehind hp, List.flatMap_cons, List.flatMap_cons]
    exact (Diagnostics.pushAll_append ..).symm

lemma Built.failure_eq_none (h : Built o shader stage d xs (.ok c)) :
    ∀ x ∈ xs, x.failure? o shader.tag = none := by
  cases h with
  | served hsession =>
    obtain ⟨ys, x, hxs, hys, hends⟩ := hsession.ends
    cases hends with
    | finished hout =>
      rw [hxs, List.forall_mem_cons, List.forall_mem_append, List.forall_mem_append,
        List.forall_mem_singleton, List.forall_mem_singleton]
      exact ⟨rfl, ⟨hys, failure_of_output hout⟩, rfl⟩

lemma Course.failure_eq_none (hprepared : Preparation o shader.tag x prepared)
    (h : Course o shader given x prepared answer es (.ok c)) :
    ∀ x ∈ es, x.failure? o shader.tag = none := by
  have hbehind {p : Prepared} (hp : prepared = .ok p) : x.failure? o shader.tag = none :=
    (hp ▸ hprepared).failure_eq_none
  cases h with
  | onlyPrepared _ hp => exact List.forall_mem_singleton.mpr (hbehind hp)
  | given _ _ hbuilt => exact hbuilt.failure_eq_none
  | declared _ _ hp _ hbuilt => exact List.forall_mem_cons.mpr ⟨hbehind hp, hbuilt.failure_eq_none⟩
  | byFallback _ _ hp _ _ hbuilt =>
    rw [List.forall_mem_cons, List.forall_mem_cons]
    exact ⟨hbehind hp, rfl, hbuilt.failure_eq_none⟩

lemma countP_flatMap_eq_zero {α β : Type} {p : β → Bool} {f : α → List β} {as : List α}
    (h : ∀ a ∈ as, (f a).countP p = 0) : (as.flatMap f).countP p = 0 := by
  rw [List.countP_eq_zero]
  intro b hb
  obtain ⟨a, ha, hb⟩ := List.mem_flatMap.mp hb
  exact List.countP_eq_zero.mp (h a ha) b hb

lemma describe_spec (f : CompileFailure) :
    f.describe.any Message.isError = true ∧
    ∃ more, f.describe = f.diagnostics.messages ++ more := by
  rw [CompileFailure.describe]
  split
  · rename_i h
    exact ⟨h, _, rfl⟩
  · refine ⟨?_, f.error.describe ++ [.global .error f.tag f.error.message], List.append_assoc ..⟩
    rw [List.any_append, Bool.or_eq_true_iff]
    exact .inr rfl

end Compile

open Compile

structure Job (ω υ π : Type) where
  services : Services ω υ π
  options : CompilerOptions
  shader : ShaderSource
  stage : Option Stage
  fallback : String → ω → Option Stage × ω
  sink : Option Sink

namespace Job

def run (job : Job ω υ π) (w : ω) : Except CompileFailure Compiled × ω :=
  match job.sink with
  | none => compile job.services job.options job.shader job.stage job.fallback w
  | some sink =>
    let (r, _, w) := compileTo job.services job.options job.shader job.stage job.fallback sink w
    (r, w)

def runAll : List (Job ω υ π) → ω → List (Except CompileFailure Compiled)
  | [], _ => []
  | job :: jobs, w => (job.run w).1 :: runAll jobs (job.run w).2

def gathered (job : Job ω υ π) (w : ω) : List Message :=
  (exchanges job.services job.options job.shader job.stage job.fallback w).flatMap
    (Exchange.messages job.options job.shader.tag)

variable (job : Job ω υ π) (w : ω)

lemma run_cases :
    (job.run w).1 = (compile job.services job.options job.shader job.stage job.fallback w).1 ∨
    ∃ c e, (compile job.services job.options job.shader job.stage job.fallback w).1 = .ok c ∧
      (job.run w).1 = .error ⟨job.shader.tag, .done, .io e, c.diagnostics⟩ := by
  rw [run]
  split
  · exact .inl rfl
  rw [compileTo]
  generalize compile job.services job.options job.shader job.stage job.fallback w = a
  rcases a with ⟨f | c, w⟩
  · exact .inl rfl
  dsimp only
  split
  · exact .inl rfl
  · exact .inr ⟨c, _, rfl, rfl⟩

lemma diagnostics_run : diagnosticsOf (job.run w).1 = .ofMessages (job.gathered w) := by
  have hcompile :=
    (course_compile job.services job.options job.shader job.stage job.fallback w).diagnostics
    (preparation_prepare ..)
  rcases job.run_cases w with hrun | ⟨c, e, hc, hrun⟩
  · exact hrun ▸ hcompile
  · rw [hc] at hcompile
    rw [hrun]
    exact hcompile

lemma countP_isError_gathered {c : Compiled} (h : (job.run w).1 = .ok c) :
    (job.gathered w).countP Message.isError = 0 := by
  have hcompile :
      (compile job.services job.options job.shader job.stage job.fallback w).1 = .ok c := by
    rcases job.run_cases w with hrun | ⟨_, e, _, hrun⟩ <;> rw [hrun] at h
    · exact h
    · cases h
  have hcourse := course_compile job.services job.options job.shader job.stage job.fallback w
  rw [hcompile] at hcourse
  exact countP_flatMap_eq_zero fun x hx =>
    Exchange.countP_isError_messages (hcourse.failure_eq_none (preparation_prepare ..) x hx)

lemma countP_isWarning_gathered (h : job.options.warningsAsErrors = true ∨
    job.options.suppressWarnings = true) :
    (job.gathered w).countP Message.isWarning = 0 :=
  countP_flatMap_eq_zero fun _ _ => Exchange.countP_isWarning_messages h

lemma exists_of_mem_runAll {jobs : List (Job ω υ π)} {r : Except CompileFailure Compiled}
    (h : r ∈ runAll jobs w) : ∃ job : Job ω υ π, ∃ w, r = (job.run w).1 := by
  induction jobs generalizing w with
  | nil => cases h
  | cons job jobs ih =>
    rcases List.mem_cons.mp h with rfl | h
    · exact ⟨job, w, rfl⟩
    · exact ih _ h

end Job

namespace Reporter

def note (reporter : Reporter) : Except CompileFailure Compiled → Reporter
  | .ok c => reporter.record c.diagnostics
  | .error f => reporter.render f.report

variable {r : Except CompileFailure Compiled} {rs : List (Except CompileFailure Compiled)}

lemma tally_note (reporter : Reporter)
    (h : (diagnosticsOf r).tally = .ofMessages (diagnosticsOf r).messages) :
    (reporter.note r).tally = reporter.tally + .ofMessages (shown r) := by
  cases r with
  | ok c => exact congrArg (reporter.tally + ·) h
  | error f =>
    have hshown : f.describe.isEmpty = false := by
      obtain ⟨m, hm, -⟩ := List.any_eq_true.mp (describe_spec f).1
      exact List.isEmpty_eq_false_iff_exists_mem.mpr ⟨m, hm⟩
    have hreport : f.report.tally = .ofMessages f.describe := by
      rw [Report.tally, CompileFailure.report, hshown, if_neg Bool.false_ne_true]
    exact congrArg (reporter.tally + ·) hreport

lemma tally_foldl_note (reporter : Reporter)
    (h : ∀ r ∈ rs, (diagnosticsOf r).tally = .ofMessages (diagnosticsOf r).messages) :
    (rs.foldl note reporter).tally =
      ⟨reporter.tally.warnings + (rs.map fun r => (shown r).countP Message.isWarning).sum,
        reporter.tally.errors + (rs.map fun r => (shown r).countP Message.isError).sum⟩ := by
  induction rs generalizing reporter with
  | nil => rfl
  | cons r rs ih =>
    rw [List.forall_mem_cons] at h
    rw [List.foldl_cons, ih _ h.2, tally_note _ h.1, Tally.ofMessages_eq]
    simp only [List.map_cons, List.sum_cons, ← Nat.add_assoc]
    rfl

end Reporter

namespace Job

lemma tally_run (job : Job ω υ π) (w : ω) :
    (diagnosticsOf (job.run w).1).tally = .ofMessages (diagnosticsOf (job.run w).1).messages := by
  rw [diagnostics_run, Diagnostics.ofMessages_eq]

lemma countP_isError_shown_pos (job : Job ω υ π) (w : ω) :
    0 < (shown (job.run w).1).countP Message.isError ↔ ∃ f, (job.run w).1 = .error f := by
  rcases hr : (job.run w).1 with f | c
  · have herror : 0 < f.describe.countP Message.isError := by
      rw [List.countP_pos_iff]
      exact List.any_eq_true.mp (describe_spec f).1
    exact ⟨fun _ => ⟨f, rfl⟩, fun _ => herror⟩
  · have hc : c.diagnostics = .ofMessages (job.gathered w) := by
      have hd := job.diagnostics_run w
      rwa [hr] at hd
    rw [shown, hc, Diagnostics.ofMessages_eq, job.countP_isError_gathered w hr]
    simp

theorem totals_agree :
    (∀ (job : Job ω υ π) (w : ω),
      let result := (job.run w).1
      let d := diagnosticsOf result
      d.messages = job.gathered w ∧
      d.tally = ⟨d.messages.countP Message.isWarning, d.messages.countP Message.isError⟩ ∧
      (∀ c, result = .ok c → d.tally.errors = 0 ∧
        (job.options.warningsAsErrors = true ∨ job.options.suppressWarnings = true →
          d.tally.warnings = 0)) ∧
      ∀ f, result = .error f → f.describe.any Message.isError = true ∧
      ∃ more, f.describe = job.gathered w ++ more) ∧
    ∀ (jobs : List (Job ω υ π)) (w : ω),
      let results := runAll jobs w
      let reporter : Reporter := results.foldl Reporter.note {}
      (reporter.hasErrors = true ↔ ∃ f, .error f ∈ results) ∧
      reporter.tally = ⟨(results.map fun r => (shown r).countP Message.isWarning).sum,
        (results.map fun r => (shown r).countP Message.isError).sum⟩ := by
  constructor
  · intro job w result d
    have hd : d = ⟨.ofMessages (job.gathered w), job.gathered w⟩ :=
      (job.diagnostics_run w).trans (Diagnostics.ofMessages_eq _)
    refine ⟨by rw [hd], by rw [hd, Tally.ofMessages_eq], ?_, ?_⟩
    · intro c hc
      rw [hd, Tally.ofMessages_eq]
      exact ⟨job.countP_isError_gathered w hc, job.countP_isWarning_gathered w⟩
    · intro f hf
      obtain ⟨herror, more, hmore⟩ := describe_spec f
      have hf : f.diagnostics = d := (congrArg diagnosticsOf hf).symm
      exact ⟨herror, more, by rw [hmore, hf, hd]⟩
  · intro jobs w results reporter
    have htally : reporter.tally = ⟨(results.map fun r => (shown r).countP Message.isWarning).sum,
        (results.map fun r => (shown r).countP Message.isError).sum⟩ := by
      refine (Reporter.tally_foldl_note {} fun r hr => ?_).trans
        (by rw [Nat.zero_add, Nat.zero_add])
      obtain ⟨job, w, rfl⟩ := exists_of_mem_runAll w hr
      exact job.tally_run w
    refine ⟨?_, htally⟩
    rw [Reporter.hasErrors, htally, decide_eq_true_iff, List.sum_pos_iff_exists_pos_nat]
    constructor
    · rintro ⟨_, hn, hpos⟩
      obtain ⟨r, hr, rfl⟩ := List.mem_map.mp hn
      obtain ⟨job, w, rfl⟩ := exists_of_mem_runAll w hr
      obtain ⟨f, hf⟩ := (job.countP_isError_shown_pos w).mp hpos
      exact ⟨f, hf ▸ hr⟩
    · rintro ⟨f, hf⟩
      obtain ⟨job, w, hjob⟩ := exists_of_mem_runAll w hf
      exact ⟨_, List.mem_map_of_mem hf, hjob ▸ (job.countP_isError_shown_pos w).mpr ⟨f, hjob.symm⟩⟩

end Job

end ShaderPipeline
