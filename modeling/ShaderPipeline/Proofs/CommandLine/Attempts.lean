import Mathlib
import ShaderPipeline.Proofs.Compile.Independence
import ShaderPipeline.Proofs.Compile.Writing

/-! Every input is attempted, whatever became of the others. -/

namespace ShaderPipeline

lemma Tally.isEmpty_iff {t : Tally} : t.isEmpty = true ↔ t = {} := by
  obtain ⟨warnings, errors⟩ := t
  simp [isEmpty]

lemma Compile.tally_compile {ω υ π : Type} (s : Services ω υ π) (o : CompilerOptions)
    (shader : ShaderSource) (stage : Option Stage) (fallback : String → ω → Option Stage × ω)
    (w : ω) :
    (diagnosticsOf (compile s o shader stage fallback w).1).tally =
      .ofMessages (diagnosticsOf (compile s o shader stage fallback w).1).messages :=
  Job.tally_run ⟨s, o, shader, stage, fallback, none⟩ w

namespace CommandLine

variable {φ σ : Type} {fs : FileSystem φ} {inv : Invocation}

inductive Outcome
  | unreadable (e : SystemError)
  | failed (f : CompileFailure)
  | unwritable (c : Compiled) (e : SystemError)
  | written (c : Compiled)

namespace Outcome

def exitCode : Outcome → ExitCode
  | .unreadable _ => .noInput
  | .failed f =>
    match f.error with
    | .toolchain (.unavailable ..) => .unavailable
    | .toolchain (.io ..) | .io _ => .ioError
    | _ => .dataError
  | .unwritable .. => .ioError
  | .written _ => .ok

def IsWritten (o : Outcome) : Prop :=
  ∃ c, o = .written c

def shown : Outcome → List Message
  | .unreadable _ => []
  | .failed f => Compile.shown (.error f)
  | .unwritable c _ | .written c => Compile.shown (.ok c)

end Outcome

namespace World

structure SameOutputs (w w' : World φ) : Prop where
  files : w'.files = w.files
  stdout : w'.stdout = w.stdout
  room : w'.room = w.room

def streamAt? (fs : FileSystem φ) (w : World φ) : Option String → Option StandardStream
  | none => some .output
  | some path => fs.stream? w.files path

inductive Takes (fs : FileSystem φ) (w : World φ) (dest : Option String) (bytes : Bytes) :
    Except SystemError Unit → World φ → Prop
  | all : w.streamAt? fs dest = some .output → (∀ n, w.room = some n → bytes.length ≤ n) →
      Takes fs w dest bytes (.ok ())
        { w with stdout := w.stdout ++ bytes, room := w.room.map (· - bytes.length) }
  | front {n : ℕ} : w.streamAt? fs dest = some .output → w.room = some n → n < bytes.length →
      Takes fs w dest bytes (.error w.refusal)
        { w with stdout := w.stdout ++ bytes.take n, room := some 0 }
  | stream {stream : StandardStream} : w.streamAt? fs dest = some stream → stream ≠ .output →
      Takes fs w dest bytes (.ok ()) (w.put stream bytes)
  | file {path : String} {r : Except SystemError Unit} {files : φ} :
      w.streamAt? fs dest = none → dest = some path →
      fs.write w.files path bytes = (r, files) → Takes fs w dest bytes r { w with files }

end World

/-- How an input is attempted. It is read, what was read is compiled, and what was compiled is
written. Nothing is written before that. -/
inductive Attempt (fs : FileSystem φ) (inv : Invocation) (s : Session φ) (input : String) :
    Outcome → Session φ → Prop
  | unreadable {e : SystemError} {s₁ s' : Session φ} : s.readInput fs input = (.error e, s₁) →
      s' = s₁.complain s!"{input}: error: {e.message}\n" → s.world.SameOutputs s'.world →
      Attempt fs inv s input (.unreadable e) s'
  | failed {shader : ShaderSource} {f : CompileFailure} {s₁ s₂ s' : Session φ} :
      s.readInput fs input = (.ok shader, s₁) →
        s₁.compileShader fs inv input shader = (.error f, s₂) →
      s' = { s₂ with reporter := s₂.reporter.render f.report }.complain f.report.render →
      s.world.SameOutputs s'.world → Attempt fs inv s input (.failed f) s'
  | unwritable {shader : ShaderSource} {c : Compiled} {e : SystemError} {s₁ s₂ s₃ : Session φ}
      {w : World φ} :
      s.readInput fs input = (.ok shader, s₁) → s₁.compileShader fs inv input shader = (.ok c, s₂) →
      s₃ = { s₂ with reporter := s₂.reporter.record c.diagnostics }.complain c.diagnostics.render →
      s.world.SameOutputs s₃.world →
      s₃.world.Takes fs (outputPath? inv input) c.output.encoding (.error e) w →
      Attempt fs inv s input (.unwritable c e)
        ({ s₃ with world := w }.complain
          s!"{shader.tag}: error: unable to write output: {e.message}\n")
  | written {shader : ShaderSource} {c : Compiled} {s₁ s₂ s₃ : Session φ} {w : World φ} :
      s.readInput fs input = (.ok shader, s₁) → s₁.compileShader fs inv input shader = (.ok c, s₂) →
      s₃ = { s₂ with reporter := s₂.reporter.record c.diagnostics }.complain c.diagnostics.render →
      s.world.SameOutputs s₃.world →
      s₃.world.Takes fs (outputPath? inv input) c.output.encoding (.ok ()) w →
      Attempt fs inv s input (.written c) { s₃ with world := w }

inductive Attempts (fs : FileSystem φ) (inv : Invocation) :
    Session φ → List String → List Outcome → Session φ → Prop
  | done (s : Session φ) : Attempts fs inv s [] [] s
  | next {s s₁ s' : Session φ} {input : String} {rest : List String} {o : Outcome}
      {os : List Outcome} :
      Attempt fs inv s input o s₁ → Attempts fs inv s₁ rest os s' →
        Attempts fs inv s (input :: rest) (o :: os) s'

namespace World

variable {w w' w'' : World φ}

lemma SameOutputs.trans (h : SameOutputs w w') (h' : SameOutputs w' w'') : SameOutputs w w'' :=
  ⟨h'.files.trans h.files, h'.stdout.trans h.stdout, h'.room.trans h.room⟩

lemma SameOutputs.complain (h : SameOutputs w w') (text : String) :
    SameOutputs w (w'.complain text) :=
  ⟨h.files, h.stdout, h.room⟩

def OnlyRead (w w' : World φ) : Prop :=
  w' = { w with stdin := w'.stdin }

lemma OnlyRead.refl (w : World φ) : OnlyRead w w :=
  rfl

lemma OnlyRead.trans (h : OnlyRead w w') (h' : OnlyRead w' w'') : OnlyRead w w'' := by
  rw [OnlyRead] at h h' ⊢
  rw [h', h]

lemma onlyRead_afterReading (fs : FileSystem φ) (w : World φ) (path : String) :
    OnlyRead w (w.afterReading fs path) := by
  rw [afterReading]
  split <;> rfl

lemma onlyRead_of_leads {dirs : List String} {a b : World φ × ℕ}
    (h : (includer fs dirs).Leads a b) : OnlyRead a.1 b.1 := by
  induction h with
  | refl => exact .refl _
  | tail _ hstep ih =>
    refine ih.trans ?_
    cases hstep with
    | reset => exact .refl _
    | resolve request =>
      change OnlyRead _ ((Includer.pathRead? _).elim _ _)
      generalize Includer.pathRead? _ = path
      cases path with
      | none => exact .refl _
      | some path => exact onlyRead_afterReading fs _ path

lemma OnlyRead.sameOutputs (h : OnlyRead w w') : SameOutputs w w' := by
  rw [OnlyRead] at h
  rw [h]
  exact ⟨rfl, rfl, rfl⟩

lemma takes_deliver (w : World φ) (dest : Option String) (pieces : List Bytes)
    (h : w.streamAt? fs dest = some .output) :
    Takes fs w dest pieces.flatten (w.deliver pieces).1 (w.deliver pieces).2 := by
  rw [deliver, Sink.writeAll_eq]
  by_cases hroom : Sink.HasRoomFor ⟨w.stdout, w.room, w.refusal⟩ pieces.flatten
  · rw [Sink.write_of_hasRoomFor hroom]
    exact .all h hroom
  · obtain ⟨n, hn, hlength, hwrite⟩ := Sink.write_of_not_hasRoomFor hroom
    rw [hwrite]
    exact .front h hn hlength

lemma takes_writePath (w : World φ) (path : String) (pieces : List Bytes) :
    Takes fs w (some path) pieces.flatten (w.writePath fs path pieces).1
      (w.writePath fs path pieces).2 := by
  rw [writePath]
  split
  · rename_i hstream
    exact takes_deliver w (some path) pieces hstream
  · rename_i stream hne hstream
    exact .stream hstream hne
  · rename_i hstream
    exact .file hstream rfl rfl

end World

lemma leads_compile (inc : Includer σ) (o : CompilerOptions) (shader : ShaderSource)
    (stage : Option Stage) (stageOf : String → Option Stage) (w : σ × ExternalToolchain) :
    inc.Leads w.1 (Compile.compile (services inc) o shader stage (fun tag w => (stageOf tag, w))
      w).2.1 := by
  have hagrees : (services inc).Agrees (fun v v' => v = v' ∧ inc.Leads w.1 v.1)
      (fun v v' => v = v' ∧ inc.Leads w.1 v.1) (services inc) := by
    constructor
    case weaken => exact fun _ _ h => h
    case preprocess =>
      rintro request v _ ⟨rfl, h⟩
      exact ⟨rfl, rfl, h.trans (Preprocess.leads_preprocess inc request v.1)⟩
    case includeCount =>
      rintro v _ ⟨rfl, -⟩
      rfl
    case resetIncludes =>
      rintro v _ ⟨rfl, h⟩
      exact ⟨rfl, h.tail (.reset _)⟩
    case acquire =>
      rintro v _ ⟨rfl, h⟩
      exact ⟨rfl, rfl, h⟩
    case release =>
      rintro v _ ⟨rfl, h⟩
      exact ⟨rfl, h⟩
    case generate =>
      rintro program stage v _ ⟨rfl, h⟩
      exact ⟨rfl, rfl, h⟩
    case parse | link | disassemble =>
      rintro asked v _ ⟨rfl, h⟩
      exact ⟨rfl, rfl, h⟩
  have hfallback (tag : String) (v v' : σ × ExternalToolchain) (h : v = v' ∧ inc.Leads w.1 v.1) :
      Agree (fun v v' => v = v' ∧ inc.Leads w.1 v.1) (stageOf tag, v) (stageOf tag, v') :=
    ⟨rfl, h⟩
  exact (Compile.agree_compile hagrees hfallback ⟨rfl, .refl⟩ o shader stage).2.2

namespace Session

lemma compileShader_spec (fs : FileSystem φ) (inv : Invocation) (s : Session φ) (input : String)
    (shader : ShaderSource) :
    let r := s.compileShader fs inv input shader
    r.2.reporter = s.reporter ∧ s.world.SameOutputs r.2.world ∧
      (Compile.diagnosticsOf r.1).tally = .ofMessages (Compile.diagnosticsOf r.1).messages := by
  unfold compileShader
  dsimp only
  generalize hr : Compile.compile (services (World.includer fs inv.includeDirs)) inv.options
    shader inv.stage
    (fun _ w => (Stage.ofPath? input, w)) ((s.world, s.resolved), _) = r
  have hsame : s.world.SameOutputs r.2.1.1 := by
    rw [← hr]
    exact (World.onlyRead_of_leads
      (leads_compile _ _ _ _ (fun _ => Stage.ofPath? input) ((s.world, s.resolved), _))).sameOutputs
  have htally :
      (Compile.diagnosticsOf r.1).tally = .ofMessages (Compile.diagnosticsOf r.1).messages := by
    rw [← hr]
    exact Compile.tally_compile ..
  obtain ⟨result, ⟨world, resolved⟩, toolchain⟩ := r
  exact ⟨rfl, ⟨hsame.files, hsame.stdout, hsame.room⟩, htally⟩

lemma readInput_spec (fs : FileSystem φ) (s : Session φ) (input : String) :
    (s.readInput fs input).2.reporter = s.reporter ∧
    s.world.SameOutputs (s.readInput fs input).2.world := by
  rw [readInput]
  split
  · exact ⟨rfl, rfl, rfl, rfl⟩
  · exact ⟨rfl, (World.onlyRead_afterReading fs s.world input).sameOutputs⟩

lemma writeOutput_spec (fs : FileSystem φ) (s : Session φ) (output : Output)
    (dest : Option String) : ∃ r w,
    s.writeOutput fs output dest = (r, { s with world := w }) ∧
    s.world.Takes fs dest output.encoding r w := by
  rw [← Output.flatten_chunks]
  cases dest with
  | none => exact ⟨_, _, rfl, World.takes_deliver s.world none output.chunks rfl⟩
  | some path => exact ⟨_, _, rfl, World.takes_writePath s.world path output.chunks⟩

lemma attempt_compileInput (fs : FileSystem φ) (inv : Invocation) (s : Session φ) (input : String) :
    ∃ o, Attempt fs inv s input o (s.compileInput fs inv input).2 ∧
    (s.compileInput fs inv input).1 = o.exitCode := by
  unfold compileInput
  obtain ⟨-, hread⟩ := s.readInput_spec fs input
  rcases hinput : s.readInput fs input with ⟨e | shader, s₁⟩ <;> rw [hinput] at hread
  · exact ⟨.unreadable e, .unreadable hinput rfl (hread.complain _), rfl⟩
  dsimp only
  obtain ⟨-, hkept, -⟩ := s₁.compileShader_spec fs inv input shader
  rcases hcompile : s₁.compileShader fs inv input shader with ⟨f | c, s₂⟩ <;> rw [hcompile] at hkept
  · refine ⟨.failed f, .failed hinput hcompile rfl ((hread.trans hkept).complain _), ?_⟩
    rcases f with ⟨tag, phase, error, d⟩
    cases error with
    | toolchain e => cases e <;> rfl
    | _ => rfl
  dsimp only
  generalize hs₃ : complain { s₂ with reporter := s₂.reporter.record c.diagnostics }
    c.diagnostics.render = s₃
  have hsame : s.world.SameOutputs s₃.world := hs₃ ▸ (hread.trans hkept).complain _
  obtain ⟨r, w, hwrite, htakes⟩ := s₃.writeOutput_spec fs c.output (outputPath? inv input)
  rw [hwrite]
  rcases r with e | u
  · exact ⟨.unwritable c e, .unwritable hinput hcompile hs₃.symm hsame htakes, rfl⟩
  · exact ⟨.written c, .written hinput hcompile hs₃.symm hsame htakes, rfl⟩

end Session

lemma Attempt.tally {s s' : Session φ} {input : String} {o : Outcome}
    (h : Attempt fs inv s input o s') :
    s'.reporter.tally = s.reporter.tally + .ofMessages o.shown := by
  have hcompiled {shader : ShaderSource} {s₁ s₂ : Session φ}
      {result : Except CompileFailure Compiled}
      (hinput : s.readInput fs input = (.ok shader, s₁))
      (hcompile : s₁.compileShader fs inv input shader = (result, s₂)) :
      (s₂.reporter.note result).tally = s.reporter.tally + .ofMessages (Compile.shown result) := by
    obtain ⟨hs₁, -⟩ := s.readInput_spec fs input
    obtain ⟨hs₂, -, htally⟩ := s₁.compileShader_spec fs inv input shader
    rw [hinput] at hs₁
    rw [hcompile] at hs₂ htally
    rw [Reporter.tally_note _ htally, hs₂, hs₁]
  cases h with
  | unreadable hinput hs' =>
    obtain ⟨hs₁, -⟩ := s.readInput_spec fs input
    rw [hinput] at hs₁
    rw [hs']
    exact congrArg Reporter.tally hs₁
  | failed hinput hcompile hs' =>
    rw [hs']
    exact hcompiled hinput hcompile
  | unwritable hinput hcompile hs₃ =>
    rw [hs₃]
    exact hcompiled hinput hcompile
  | written hinput hcompile hs₃ =>
    rw [hs₃]
    exact hcompiled hinput hcompile

namespace Attempts

variable {s s' : Session φ} {inputs : List String} {os : List Outcome}

lemma tally (h : Attempts fs inv s inputs os s') : s'.reporter.tally =
    ⟨s.reporter.tally.warnings + (os.map fun o => o.shown.countP Message.isWarning).sum,
      s.reporter.tally.errors + (os.map fun o => o.shown.countP Message.isError).sum⟩ := by
  induction h with
  | done => rfl
  | next hfirst _ ih =>
    rw [ih, hfirst.tally, Tally.ofMessages_eq]
    simp only [List.map_cons, List.sum_cons, ← Nat.add_assoc]
    rfl

end Attempts

namespace Outcome

variable {o : Outcome} {os : List Outcome}

lemma exitCode_eq_ok_iff : o.exitCode = .ok ↔ o.IsWritten := by
  constructor
  · intro h
    cases o with
    | unreadable e => cases h
    | failed f =>
      rw [exitCode] at h
      split at h <;> cases h
    | unwritable c e => cases h
    | written c => exact ⟨c, rfl⟩
  · rintro ⟨c, rfl⟩
    rfl

def status (os : List Outcome) (before : ExitCode) : ExitCode :=
  os.foldl (fun code o => if o.exitCode = .ok then code else o.exitCode) before

lemma status_of_written (h : ∀ o ∈ os, o.IsWritten) (before : ExitCode) :
    status os before = before := by
  induction os with
  | nil => rfl
  | cons o os ih =>
    rw [List.forall_mem_cons] at h
    rw [status, List.foldl_cons, if_pos (exitCode_eq_ok_iff.mpr h.1)]
    exact ih h.2

lemma status_append {after : List Outcome} (ho : ¬ o.IsWritten) (h : ∀ p ∈ after, p.IsWritten)
    (before : ExitCode) : status (os ++ o :: after) before = o.exitCode := by
  rw [status, List.foldl_append, List.foldl_cons, if_neg (mt exitCode_eq_ok_iff.mp ho)]
  exact status_of_written h _

lemma exists_last_failure (h : ¬ ∀ o ∈ os, o.IsWritten) :
    ∃ before o after, os = before ++ o :: after ∧ ¬ o.IsWritten ∧ ∀ p ∈ after, p.IsWritten := by
  induction os with
  | nil => exact (h (List.forall_mem_nil _)).elim
  | cons o os ih =>
    by_cases hos : ∀ p ∈ os, p.IsWritten
    · exact ⟨[], o, os, rfl, fun ho => h (List.forall_mem_cons.mpr ⟨ho, hos⟩), hos⟩
    · obtain ⟨before, p, after, rfl, hp⟩ := ih hos
      exact ⟨o :: before, p, after, rfl, hp⟩

lemma status_eq_ok_iff : status os .ok = .ok ↔ ∀ o ∈ os, o.IsWritten := by
  refine ⟨fun h => ?_, fun h => status_of_written h _⟩
  by_contra hfailed
  obtain ⟨before, o, after, rfl, ho, hafter⟩ := exists_last_failure hfailed
  rw [status_append ho hafter] at h
  exact ho (exitCode_eq_ok_iff.mp h)

end Outcome

lemma attempts_compileInputs (fs : FileSystem φ) (inv : Invocation) (s : Session φ)
    (status : ExitCode) (inputs : List String) :
    ∃ os, Attempts fs inv s inputs os (s.compileInputs fs inv status inputs).2 ∧
      (s.compileInputs fs inv status inputs).1 = Outcome.status os status := by
  induction inputs generalizing s status with
  | nil => exact ⟨[], .done s, rfl⟩
  | cons input rest ih =>
    obtain ⟨o, hfirst, hcode⟩ := s.attempt_compileInput fs inv input
    obtain ⟨os, hrest, hstatus⟩ :=
      ih (s.compileInput fs inv input).2 (if o.exitCode = .ok then status else o.exitCode)
    -- the attempts that follow begin with the status that this one leaves
    have hnext : s.compileInputs fs inv status (input :: rest) =
        (s.compileInput fs inv input).2.compileInputs fs inv
        (if o.exitCode = .ok then status else o.exitCode) rest := by
      rw [Session.compileInputs, ← hcode]
      rcases s.compileInput fs inv input with ⟨code, s₁⟩
      cases code <;> rfl
    rw [hnext]
    exact ⟨o :: os, .next hfirst hrest, hstatus⟩

theorem execute_attempts_inputs (fs : FileSystem φ) (inv : Invocation) (w : World φ) :
    ∃ (os : List Outcome) (s : Session φ),
    Attempts fs inv { world := w } inv.inputs os s ∧
    ((execute fs inv w).1 = .ok ↔ ∀ o ∈ os, o.IsWritten) ∧
    (∀ before o after, os = before ++ o :: after → ¬ o.IsWritten → (∀ p ∈ after, p.IsWritten) →
      (execute fs inv w).1 = o.exitCode) ∧
    s.reporter.tally = ⟨(os.map fun o => o.shown.countP Message.isWarning).sum,
      (os.map fun o => o.shown.countP Message.isError).sum⟩ ∧
    (s.reporter.tally = {} → (execute fs inv w).2 = s.world) ∧
    (s.reporter.tally ≠ {} → (execute fs inv w).2 = s.world.complain (s.reporter.tally.summary ++
      "\n")) := by
  obtain ⟨os, hattempts, hstatus⟩ := attempts_compileInputs fs inv { world := w } .ok inv.inputs
  unfold execute
  generalize Session.compileInputs fs inv .ok { world := w } inv.inputs = run at hattempts hstatus
  obtain ⟨status, s⟩ := run
  obtain rfl : status = Outcome.status os .ok := hstatus
  refine ⟨os, s, hattempts, Outcome.status_eq_ok_iff, ?_, ?_, fun hnone => ?_, fun hsome => ?_⟩
  · rintro before o after rfl ho hafter
    exact Outcome.status_append ho hafter .ok
  · rw [hattempts.tally, Nat.zero_add, Nat.zero_add]
  · exact if_pos (Tally.isEmpty_iff.mpr hnone)
  · exact if_neg (mt Tally.isEmpty_iff.mp hsome)

end CommandLine

end ShaderPipeline
