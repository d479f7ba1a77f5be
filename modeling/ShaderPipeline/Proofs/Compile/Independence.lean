import Mathlib.Logic.Relation
import ShaderPipeline.Proofs.Compile.Preparation
import ShaderPipeline.Proofs.Compile.Totals
import ShaderPipeline.Proofs.FileSearch
import ShaderPipeline.Proofs.Preprocess.Faults
import ShaderPipeline.Proofs.Preprocess.InForce

/-! What was compiled before leaves no trace in a compile, since the includer's count is set back
before anything is counted. -/

namespace ShaderPipeline

variable {σ ω υ π : Type}

namespace Includer

inductive Step (inc : Includer σ) : σ → σ → Prop
  | resolve (a : σ) (request : IncludeRequest) : Step inc a (inc.resolve a request).2
  | reset (a : σ) : Step inc a (inc.reset a)

abbrev Leads (inc : Includer σ) : σ → σ → Prop :=
  Relation.ReflTransGen inc.Step

/-- A reset takes back all that was asked before it. -/
def Restarts (inc : Includer σ) : Prop :=
  ∀ a b, inc.Step a b → inc.reset b = inc.reset a

lemma Restarts.reset_eq {inc : Includer σ} (h : inc.Restarts) {a b : σ} (hab : inc.Leads a b) :
    inc.reset b = inc.reset a := by
  induction hab with
  | refl => rfl
  | tail _ hstep ih => exact (h _ _ hstep).trans ih

end Includer

namespace FileSearch

lemma restarts : includer.Restarts := by
  intro a b h
  cases h with
  | resolve request =>
    rw [resolve_state]
    rfl
  | reset => rfl

end FileSearch

namespace Preprocess

lemma invariant_leads (inc : Includer σ) (a : σ) :
    Run.Invariant inc (fun run => inc.Leads a run.includer) (fun r => inc.Leads a r.run.includer)
      where
  start _ _ _ _ h := h
  act descent r r' hd h hact := by
    cases hact with
    | fault | blank | groups | define | undefine | includes | extension | pragma | renumber | hold
        | write | advance =>
      exact h
    | @version t args =>
      rw [(Reading.quiet_declareVersion (r.emit (.version (t :: args))) (t :: args)).includer]
      exact h
    | missed => exact h.tail (.resolve _ _)
    | @entered q kind found descend hdescend =>
      have hasked : inc.Leads a (r.ask inc (r.request q kind)).run.includer := h.tail (.resolve _ _)
      exact hd descend hdescend found _ _ hasked
  finish _ h := h
  report _ _ h := h

lemma leads_preprocess (inc : Includer σ) (request : Request) (a : σ) :
    inc.Leads a (preprocess inc request a).2 := by
  have hstart : inc.Leads a (Run.start request.version request.forced a).includer := .refl
  have hrun := (invariant_leads inc a).finalRun request a hstart
  generalize hlast : finalRun inc request a = run at hrun
  rwa [preprocess, hlast]

def Run.CountsEntered (run : Run FileSearch) : Prop :=
  run.includer.resolved = (entered run.items.toList).length

lemma Run.CountsEntered.emit {run : Run FileSearch} (h : run.CountsEntered) {x : Item}
    (hx : x.entered? = none) : (run.emit x).CountsEntered := by
  have hnone : entered [x] = [] := List.filterMap_cons_none hx
  rw [CountsEntered, Run.emit, Array.toList_push, entered_append, hnone, List.append_nil]
  exact h

lemma Run.CountsEntered.entering {run : Run FileSearch} (h : run.CountsEntered)
    {search : FileSearch} (hs : search.resolved = run.includer.resolved + 1) (found : Included) :
    (({ run with includer := search } : Run FileSearch).entering found).CountsEntered := by
  have hone : entered [Item.enter run.nextLine found] = [found] := rfl
  rw [CountsEntered, Run.entering, Run.emit, Array.toList_push, entered_append, hone,
    List.length_append]
  exact hs.trans (congrArg (· + 1) h)

lemma invariant_countsEntered :
    Run.Invariant FileSearch.includer Run.CountsEntered (fun r => r.run.CountsEntered) where
  start _ _ _ _ h := h
  act descent r r' hd h hact := by
    cases hact with
    | fault | groups | define | undefine | includes | hold | advance => exact h
    | blank | extension | pragma | renumber | write => exact h.emit rfl
    | @version t args =>
      have hquiet := Reading.quiet_declareVersion (r.emit (.version (t :: args))) (t :: args)
      rw [Run.CountsEntered, hquiet.includer, hquiet.items]
      exact h.emit rfl
    | @missed name kind e he =>
      have hsame : r.ask FileSearch.includer (r.request name kind) = r := by
        rw [Reading.ask, FileSearch.resolve_error he]
      rw [hsame]
      exact h.emit rfl
    | @entered name kind found descend hdescend hf =>
      have hcounted :
          (FileSearch.includer.resolve r.run.includer (r.request name kind)).2.resolved =
          r.run.includer.resolved + 1 := by
        rw [FileSearch.resolve_ok hf]
      exact (hd descend hdescend found _ _ (h.entering hcounted found)).emit rfl
  finish _ h := h
  report _ _ h := h

lemma resolved_preprocess (request : Request) {search : FileSearch} (h : search.resolved = 0) :
    (preprocess FileSearch.includer request search).2.resolved =
      (entered (finalRun FileSearch.includer request search).items.toList).length := by
  have hrun := invariant_countsEntered.finalRun request search h
  generalize hlast : finalRun FileSearch.includer request search = run at hrun ⊢
  rw [preprocess, hlast]
  exact hrun

end Preprocess

/-- Services whose answers depend on what they are asked and on nothing else. Parsing may read
included files too, and so its answer depends on the includer's state as well. -/
structure Services.Steady (s : Services ω υ π) (inc : Includer σ) (part : ω → σ) :
    Prop extends s.BuiltIn inc part where
  acquire : ∀ w v, (s.acquire w).1 = (s.acquire v).1
  parse : ∀ request w v, part w = part v → (s.parse request w).1 = (s.parse request v).1
  link : ∀ unit w v, (s.link unit w).1 = (s.link unit v).1
  generate : ∀ program stage w v, (s.generate program stage w).1 = (s.generate program stage v).1
  disassemble : ∀ words w v, (s.disassemble words w).1 = (s.disassemble words v).1
  part_acquire : ∀ w, part (s.acquire w).2 = part w
  part_parse : ∀ request w, inc.Leads (part w) (part (s.parse request w).2)
  part_link : ∀ unit w, part (s.link unit w).2 = part w
  part_generate : ∀ program stage w, part (s.generate program stage w).2 = part w
  part_release : ∀ w, part (s.release w) = part w
  part_disassemble : ∀ words w, part (s.disassemble words w).2 = part w

structure SteadyFallback (part : ω → σ) (fallback : String → ω → Option Stage × ω) : Prop where
  answer : ∀ tag w v, (fallback tag w).1 = (fallback tag v).1
  part : ∀ tag w, part (fallback tag w).2 = part w

section

variable {s : Services ω υ π} {inc : Includer σ} {part : ω → σ}
  {fallback : String → ω → Option Stage × ω}

def SameIncluder (inc : Includer σ) (part : ω → σ) (a : σ) (w v : ω) : Prop :=
  part w = part v ∧ inc.reset (part w) = a

def SameReset (inc : Includer σ) (part : ω → σ) (a : σ) (w v : ω) : Prop :=
  inc.reset (part w) = a ∧ inc.reset (part v) = a

lemma Services.Steady.agrees (hs : s.Steady inc part) (hr : inc.Restarts) (a : σ) :
    s.Agrees (SameIncluder inc part a) (SameReset inc part a) s := by
  -- the includer's count is looked at from a reset to the parsing; the parsing may change it, and
  -- nothing looks after that
  constructor
  case weaken => exact fun w v h => ⟨h.2, h.1 ▸ h.2⟩
  case preprocess =>
    intro request w v h
    refine ⟨by rw [hs.result, hs.result, h.1], by rw [hs.includer, hs.includer, h.1], ?_⟩
    rw [hs.includer, hr.reset_eq (Preprocess.leads_preprocess inc request (part w)), h.2]
  case includeCount =>
    intro w v h
    rw [hs.includeCount, hs.includeCount, h.1]
  case resetIncludes =>
    intro w v h
    refine ⟨by rw [hs.resetIncludes, hs.resetIncludes, h.1, h.2], ?_⟩
    rw [hs.resetIncludes, hr _ _ (.reset (part w)), h.1]
  case acquire =>
    intro w v h
    exact ⟨hs.acquire w v, by rw [hs.part_acquire, hs.part_acquire, h.1],
      by rw [hs.part_acquire, h.2]⟩
  case parse =>
    intro request w v h
    refine ⟨hs.parse request w v h.1, ?_, ?_⟩
    · rw [hr.reset_eq (hs.part_parse request w), h.2]
    · rw [hr.reset_eq (hs.part_parse request v), ← h.1, h.2]
  case link =>
    intro unit w v h
    exact ⟨hs.link unit w v, by rw [hs.part_link, h.1], by rw [hs.part_link, h.2]⟩
  case generate =>
    intro program stage w v h
    exact ⟨hs.generate program stage w v, by rw [hs.part_generate, h.1],
      by rw [hs.part_generate, h.2]⟩
  case release =>
    intro w v h
    exact ⟨by rw [hs.part_release, h.1], by rw [hs.part_release, h.2]⟩
  case disassemble =>
    intro words w v h
    exact ⟨hs.disassemble words w v, by rw [hs.part_disassemble, h.1],
      by rw [hs.part_disassemble, h.2]⟩

lemma SteadyFallback.agrees (hf : SteadyFallback part fallback) (a : σ) (tag : String) (w v : ω)
    (h : SameIncluder inc part a w v) :
    Agree (SameIncluder inc part a) (fallback tag w) (fallback tag v) :=
  ⟨hf.answer tag w v, by rw [hf.part, hf.part, h.1], by rw [hf.part, h.2]⟩

namespace Compile

lemma reset_compile (hs : s.Steady inc part) (hr : inc.Restarts) (hf : SteadyFallback part fallback)
    (o : CompilerOptions) (shader : ShaderSource) (stage : Option Stage) (w : ω) :
    inc.reset (part (compile s o shader stage fallback w).2) = inc.reset (part w) :=
  (agree_compile (hs.agrees hr (inc.reset (part w))) (hf.agrees _) ⟨rfl, rfl⟩ o shader stage).2.1

end Compile

end

namespace Compile

lemma state_prepare (s : Services ω υ π) (o : CompilerOptions) (shader : ShaderSource) (w : ω) :
    (prepare s o shader w).2 = (s.preprocess (preprocessRequest o shader) w).2 := by
  simp only [prepare]
  split
  · split <;> rfl
  · rfl

lemma state_compile_preprocessOnly {o : CompilerOptions} (h : o.preprocessOnly = true)
    (s : Services ω υ π) (shader : ShaderSource) (stage : Option Stage)
    (fallback : String → ω → Option Stage × ω) (w : ω) :
    (compile s o shader stage fallback w).2 =
      (s.preprocess (preprocessRequest o shader) (s.resetIncludes w)).2 := by
  have hmode : o.mode = .preprocessOnly := by simp [CompilerOptions.mode, h]
  rw [← state_prepare]
  unfold compile
  rw [hmode]
  dsimp only
  generalize prepare s o shader (s.resetIncludes w) = r
  rcases r with ⟨f | p, w⟩ <;> rfl

end Compile

namespace Job

open Compile
open Preprocess (ofSource entered finalRun)

variable {s : Services ω υ π} {inc : Includer σ} {part : ω → σ}

def after (jobs : List (Job ω υ π)) (w : ω) : ω :=
  jobs.foldl (fun w job => (job.run w).2) w

structure Uses (s : Services ω υ π) (part : ω → σ) (job : Job ω υ π) : Prop where
  services : job.services = s
  fallback : SteadyFallback part job.fallback

lemma state_run (job : Job ω υ π) (w : ω) :
    (job.run w).2 = (compile job.services job.options job.shader job.stage job.fallback w).2 := by
  rw [run]
  split
  · rfl
  rw [compileTo]
  generalize compile job.services job.options job.shader job.stage job.fallback w = a
  rcases a with ⟨f | c, w⟩
  · rfl
  dsimp only
  split <;> rfl

lemma run_eq_of_compile (job : Job ω υ π) {w v : ω}
    (h : (compile job.services job.options job.shader job.stage job.fallback w).1 =
      (compile job.services job.options job.shader job.stage job.fallback v).1) : (job.run w).1 =
        (job.run v).1 := by
  rw [run, run]
  split
  · exact h
  rw [compileTo, compileTo]
  generalize compile job.services job.options job.shader job.stage job.fallback w = a at h
  generalize compile job.services job.options job.shader job.stage job.fallback v = b at h
  obtain ⟨a, w⟩ := a
  obtain ⟨b, v⟩ := b
  obtain rfl : a = b := h
  rcases a with f | c
  · rfl
  dsimp only
  split <;> rfl

lemma reset_after (hs : s.Steady inc part) (hr : inc.Restarts) {jobs : List (Job ω υ π)}
    (hjobs : ∀ job ∈ jobs, job.Uses s part) (w : ω) :
    inc.reset (part (after jobs w)) = inc.reset (part w) := by
  induction jobs generalizing w with
  | nil => rfl
  | cons job jobs ih =>
    obtain ⟨⟨rfl, hf⟩, hjobs⟩ := List.forall_mem_cons.mp hjobs
    rw [after, List.foldl_cons, ← after, ih hjobs, state_run, reset_compile hs hr hf]

theorem runs_as_first {s : Services ω υ π} {part : ω → FileSearch}
    (hs : s.Steady FileSearch.includer part) {earlier : List (Job ω υ π)}
    (hearlier : ∀ job ∈ earlier, job.Uses s part) {job : Job ω υ π}
    (hjob : job.Uses s part) (w : ω) :
    let request := preprocessRequest job.options job.shader
    let included := fun w => s.includeCount (s.preprocess request (s.resetIncludes w)).2
    let asked := fun w => exchanges s job.options job.shader job.stage job.fallback w
    (job.run (after earlier w)).1 = (job.run w).1 ∧ asked (after earlier w) = asked w ∧
      included (after earlier w) = included w ∧
      included w = (entered (finalRun FileSearch.includer request
        (FileSearch.includer.reset (part w))).items.toList).length := by
  intro request included asked
  obtain ⟨rfl, hf⟩ := hjob
  have hreset := reset_after hs FileSearch.restarts hearlier w
  have hagrees := hs.agrees FileSearch.restarts (FileSearch.includer.reset (part w))
  have hcount (u : ω) : included u = (entered (finalRun FileSearch.includer request
      (FileSearch.includer.reset (part u))).items.toList).length := by
    rw [← Preprocess.resolved_preprocess request rfl]
    simp only [included, hs.includeCount, hs.includer, hs.resetIncludes, FileSearch.count_includer]
  refine ⟨job.run_eq_of_compile ?_, ?_, ?_, hcount w⟩
  · exact (agree_compile hagrees (hf.agrees _) ⟨hreset, rfl⟩ job.options job.shader job.stage).1
  · exact exchanges_of_agrees _ _ _ hagrees (hf.agrees _) ⟨hreset, rfl⟩
  · rw [hcount, hcount, hreset]

def lenient : Services (FileSearch × Nat) Unit Unit where
  preprocess request w :=
    let (result, search) := Preprocess.preprocess FileSearch.includer request w.1
    (result, search, w.2)
  includeCount w := w.1.resolved
  resetIncludes w := (FileSearch.includer.reset w.1, w.2)
  acquire w := (.ok (), w.1, w.2 + 1)
  parse _ w := (.ok ⟨some (), ""⟩, w.1, w.2 + 1)
  link _ w := (.ok ⟨some (), ""⟩, w.1, w.2 + 1)
  generate _ _ w := (.ok [119734787], w.1, w.2 + 1)
  release w := (w.1, w.2 + 1)
  disassemble _ w := (.ok "", w.1, w.2 + 1)

lemma steady_lenient : lenient.Steady FileSearch.includer Prod.fst where
  result _ _ := rfl
  includer _ _ := rfl
  includeCount _ := rfl
  resetIncludes _ := rfl
  acquire _ _ := rfl
  parse _ _ _ _ := rfl
  link _ _ _ := rfl
  generate _ _ _ _ := rfl
  disassemble _ _ _ := rfl
  part_acquire _ := rfl
  part_parse _ _ := .refl
  part_link _ _ := rfl
  part_generate _ _ _ := rfl
  part_release _ := rfl
  part_disassemble _ _ := rfl

def textOnly (source : String) : Job (FileSearch × Nat) Unit Unit where
  services := lenient
  options := { definitions := .ofList [], preprocessOnly := true }
  shader := ⟨"t", source⟩
  stage := none
  fallback _ w := (none, w)
  sink := none

lemma uses_textOnly (source : String) : (textOnly source).Uses lenient Prod.fst :=
  ⟨rfl, ⟨fun _ _ _ => rfl, fun _ _ => rfl⟩⟩

def oneFile : FileSearch where
  read path := if path = "/a" then .ok "int a;\n" else .error .notFound

section

variable {source : String} {w : FileSearch × Nat}

lemma preprocessRequest_textOnly (source : String) :
    preprocessRequest (textOnly source).options (textOnly source).shader = ofSource source :=
  rfl

lemma reset_of_resolved {search : FileSearch} (h : search.resolved = 0) :
    FileSearch.includer.reset search = search := by
  change { search with resolved := 0 } = search
  rw [← h]

lemma count_textOnly (h : w.1.resolved = 0) : ((textOnly source).run w).2.1.resolved =
    (entered (finalRun FileSearch.includer (ofSource source) w.1).items.toList).length := by
  rw [state_run, state_compile_preprocessOnly rfl, preprocessRequest_textOnly,
    ← Preprocess.resolved_preprocess _ h]
  exact congrArg FileSearch.resolved ((steady_lenient.includer _ _).trans
    (congrArg (fun a => (Preprocess.preprocess FileSearch.includer _ a).2) (reset_of_resolved h)))

lemma run_textOnly {text out : String} (h : w.1.resolved = 0)
    (hresult : (Preprocess.preprocess FileSearch.includer (ofSource source) w.1).1 =
        ⟨true, text, ""⟩)
    (hentered : entered (finalRun FileSearch.includer (ofSource source) w.1).items.toList = [])
    (hremove : ∀ nextLine, Preamble.remove text "t" Preamble.endLine 0 nextLine = .ok out) :
    ((textOnly source).run w).1 = .ok ⟨none, .preprocessed out, {}⟩ := by
  have hremoved : ∀ nextLine, Preamble.remove text "t" Preamble.endLine (FileSearch.includer.count
      (Preprocess.preprocess FileSearch.includer (ofSource source) w.1).2) nextLine = .ok out := by
    rwa [FileSearch.count_includer, Preprocess.resolved_preprocess _ h, hentered]
  rw [← preprocessRequest_textOnly] at hresult hremoved
  have hprepare : (prepare lenient (textOnly source).options (textOnly source).shader w).1 =
      .ok ⟨out, (Version.effective text .default false).numbersNextLine, {}⟩ :=
    prepare_of_result steady_lenient.toBuiltIn hresult hremoved
  have hreset : lenient.resetIncludes w = w := congrArg (·, w.2) (reset_of_resolved h)
  have hrun :
      ((textOnly source).run w).1 = (compile lenient (textOnly source).options
        (textOnly source).shader
      (textOnly source).stage (textOnly source).fallback w).1 := rfl
  rw [hrun, compile_preprocessOnly rfl, hreset]
  exact congrArg (Except.map _) hprepare

end

theorem runs_as_first_of_error :
    let earlier := [textOnly "#include \"/a\"\n#error b\n"]
    let left := after earlier (oneFile, 0)
    left.1.resolved = 1 ∧
      ((textOnly "int x;\n").run left).1 = .ok ⟨none, .preprocessed "int x;\n", {}⟩ := by
  intro earlier left
  have hearlier : ∀ job ∈ earlier, job.Uses lenient Prod.fst :=
    List.forall_mem_singleton.mpr (uses_textOnly _)
  obtain ⟨hrun, -⟩ := runs_as_first steady_lenient hearlier (uses_textOnly "int x;\n") (oneFile, 0)
  have hcounted : entered (finalRun FileSearch.includer (ofSource "#include \"/a\"\n#error b\n")
      oneFile).items.toList = [⟨"/a", "int a;\n"⟩] := by cbv
  have hresult : (Preprocess.preprocess FileSearch.includer (ofSource "int x;\n") oneFile).1 =
      ⟨true, Preamble.endLine ++ "int x;\n", ""⟩ := by cbv
  have hnone :
      entered (finalRun FileSearch.includer (ofSource "int x;\n") oneFile).items.toList = [] := by
    cbv
  refine ⟨(count_textOnly rfl).trans (congrArg List.length hcounted),
    hrun.trans (run_textOnly rfl hresult hnone ?_)⟩
  decide +kernel

end Job

end ShaderPipeline
