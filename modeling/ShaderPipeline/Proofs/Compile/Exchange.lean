import ShaderPipeline.Proofs.Compile.Agreement

namespace ShaderPipeline

variable {ω υ π : Type}

inductive Exchange (υ π : Type)
  | preprocess (request : Preprocess.Request) (answer : Preprocess.Result)
  | fallback (tag : String) (answer : Option Stage)
  | acquire (answer : Except ToolchainError Unit)
  | parse (request : ParseRequest) (includes : Nat) (answer : Except ToolchainError (WithLog υ))
  | link (unit : υ) (answer : Except ToolchainError (WithLog π))
  | generate (program : π) (stage : Stage) (answer : Except ToolchainError (List UInt32))
  | disassemble (words : List UInt32) (answer : Except ToolchainError String)
  | release

namespace Exchange

def call? : Exchange υ π → Option (Call υ π)
  | .preprocess .. | .fallback .. => none
  | .acquire _ => some .acquire
  | .parse request includes _ => some (.parse request includes)
  | .link unit _ => some (.link unit)
  | .generate program stage _ => some (.generate program stage)
  | .disassemble words _ => some (.disassemble words)
  | .release => some .release

def isToolCall (x : Exchange υ π) : Bool := x.call?.isSome

def isClean (policy : WarningPolicy) (tag log : String) : Bool := (Log.filter tag policy log).1

def messages (o : CompilerOptions) (tag : String) : Exchange υ π → List Message
  | .preprocess _ result => Log.messages tag o.preprocessPolicy result.log
  | .parse _ _ (.ok r) => Log.messages tag o.warningPolicy r.log
  | .link _ (.ok r) => Log.messages tag o.warningPolicy r.log
  | _ => []

def failure? (o : CompilerOptions) (tag : String) : Exchange υ π → Option CompileError
  | .preprocess _ result =>
    if result.success && isClean o.preprocessPolicy tag result.log then none
      else some (.preprocess tag)
  | .fallback tag none => some (.unresolvedStage tag)
  | .acquire (.error e) | .parse _ _ (.error e) | .link _ (.error e) | .generate _ _ (.error e)
  | .disassemble _ (.error e) => some (.toolchain e)
  | .parse _ _ (.ok r) =>
    if r.output.isSome && isClean o.warningPolicy tag r.log then none else some (.parse tag)
  | .link _ (.ok r) =>
    if r.output.isSome && isClean o.warningPolicy tag r.log then none else some (.link tag)
  | _ => none

def phase : Exchange υ π → Phase
  | .preprocess .. => .start
  | .fallback .. => .preprocessed
  | .acquire _ | .parse .. => .stageResolved
  | .link .. => .parsed
  | .generate .. => .linked
  | .disassemble .. => .codeGenerated
  | .release => .done

def output? (o : CompilerOptions) : Exchange υ π → Option Output
  | .generate _ _ (.ok words) => if o.mode = .disassembly then none else some (.binary words)
  | .disassemble _ (.ok text) => some (.disassembly text)
  | _ => none

inductive Follows (o : CompilerOptions) (tag : String) (stage : Stage) :
    Exchange υ π → Exchange υ π → Prop
  | link {request : ParseRequest} {includes : Nat} {r : WithLog υ} {unit : υ}
      (answer : Except ToolchainError (WithLog π)) :
      r.output = some unit → isClean o.warningPolicy tag r.log = true →
      Follows o tag stage (.parse request includes (.ok r)) (.link unit answer)
  | generate {unit : υ} {r : WithLog π} {program : π}
      (answer : Except ToolchainError (List UInt32)) :
      r.output = some program → isClean o.warningPolicy tag r.log = true →
      Follows o tag stage (.link unit (.ok r)) (.generate program stage answer)
  | disassemble {program : π} {words : List UInt32} (answer : Except ToolchainError String) :
      o.mode = .disassembly →
      Follows o tag stage (.generate program stage (.ok words)) (.disassemble words answer)

end Exchange

namespace Services

def observing {α : Type} (exchange : ω → α → Exchange υ π) (f : ω → α × ω)
    (w : ω × List (Exchange υ π)) : α × ω × List (Exchange υ π) :=
  let (a, next) := f w.1
  (a, next, w.2 ++ [exchange w.1 a])

def observed (s : Services ω υ π) : Services (ω × List (Exchange υ π)) υ π where
  preprocess request := observing (fun _ => .preprocess request) (s.preprocess request)
  includeCount w := s.includeCount w.1
  resetIncludes w := (s.resetIncludes w.1, w.2)
  acquire := observing (fun _ => .acquire) s.acquire
  parse request := observing (fun w => .parse request (s.includeCount w)) (s.parse request)
  link unit := observing (fun _ => .link unit) (s.link unit)
  generate program stage := observing (fun _ => .generate program stage) (s.generate program stage)
  release w := (s.release w.1, w.2 ++ [.release])
  disassemble words := observing (fun _ => .disassemble words) (s.disassemble words)

def observedFallback (fallback : String → ω → Option Stage × ω) (tag : String) :
    ω × List (Exchange υ π) → Option Stage × ω × List (Exchange υ π) :=
  observing (fun _ => .fallback tag) (fallback tag)

def recordedFallback (fallback : String → ω → Option Stage × ω) (tag : String)
    (w : ω × List (Call υ π)) : Option Stage × ω × List (Call υ π) :=
  ((fallback tag w.1).1, (fallback tag w.1).2, w.2)

section

variable (s : Services ω υ π) (w : ω) (es : List (Exchange υ π))

lemma observed_preprocess (request : Preprocess.Request) : s.observed.preprocess request (w, es) =
    ((s.preprocess request w).1, (s.preprocess request w).2,
      es ++ [.preprocess request (s.preprocess request w).1]) :=
  rfl

lemma observed_includeCount : s.observed.includeCount (w, es) = s.includeCount w :=
  rfl

lemma observed_resetIncludes : s.observed.resetIncludes (w, es) = (s.resetIncludes w, es) :=
  rfl

lemma observed_acquire : s.observed.acquire (w, es) =
    ((s.acquire w).1, (s.acquire w).2, es ++ [.acquire (s.acquire w).1]) :=
  rfl

lemma observed_parse (request : ParseRequest) : s.observed.parse request (w, es) =
    ((s.parse request w).1, (s.parse request w).2,
      es ++ [.parse request (s.includeCount w) (s.parse request w).1]) :=
  rfl

lemma observed_link (unit : υ) : s.observed.link unit (w, es) =
    ((s.link unit w).1, (s.link unit w).2, es ++ [.link unit (s.link unit w).1]) :=
  rfl

lemma observed_generate (program : π) (stage : Stage) : s.observed.generate program stage (w, es) =
    ((s.generate program stage w).1, (s.generate program stage w).2,
      es ++ [.generate program stage (s.generate program stage w).1]) :=
  rfl

lemma observed_disassemble (words : List UInt32) : s.observed.disassemble words (w, es) =
    ((s.disassemble words w).1, (s.disassemble words w).2,
      es ++ [.disassemble words (s.disassemble words w).1]) :=
  rfl

lemma observedFallback_eq (fallback : String → ω → Option Stage × ω) (tag : String) :
    observedFallback fallback tag (w, es) =
      ((fallback tag w).1, (fallback tag w).2, es ++ [.fallback tag (fallback tag w).1]) :=
  rfl

end

def Alike {ω' : Type} (R : ω → ω' → Prop) (a : ω × List (Exchange υ π))
    (b : ω' × List (Exchange υ π)) : Prop :=
  R a.1 b.1 ∧ a.2 = b.2

section

variable {ω' α : Type} {R S : ω → ω' → Prop} {a : ω × List (Exchange υ π)}
  {b : ω' × List (Exchange υ π)}

lemma Alike.observing {f : ω → α × ω} {g : ω' → α × ω'} {x : ω → α → Exchange υ π}
    {y : ω' → α → Exchange υ π} (h : Alike R a b) (hfg : Agree S (f a.1) (g b.1))
    (hxy : x a.1 = y b.1) : Agree (Alike S) (observing x f a) (observing y g b) := by
  obtain ⟨hanswer, hstates⟩ := hfg
  refine ⟨hanswer, hstates, ?_⟩
  simp only [Services.observing]
  rw [h.2, hxy, hanswer]

lemma Agrees.observed {s : Services ω υ π} {t : Services ω' υ π} (h : s.Agrees R S t) :
    s.observed.Agrees (Alike R) (Alike S) t.observed := by
  constructor
  case weaken => exact fun a b hab => ⟨h.weaken _ _ hab.1, hab.2⟩
  case preprocess => exact fun request a b hab => hab.observing (h.preprocess request _ _ hab.1) rfl
  case includeCount => exact fun a b hab => h.includeCount _ _ hab.1
  case resetIncludes => exact fun a b hab => ⟨h.resetIncludes _ _ hab.1, hab.2⟩
  case acquire => exact fun a b hab => hab.observing (h.acquire _ _ hab.1) rfl
  case parse =>
    intro request a b hab
    refine hab.observing (h.parse request _ _ hab.1) (funext fun answer => ?_)
    rw [h.includeCount _ _ hab.1]
  case link => exact fun unit a b hab => hab.observing (h.link unit _ _ hab.1) rfl
  case generate =>
    exact fun program stage a b hab => hab.observing (h.generate program stage _ _ hab.1) rfl
  case release =>
    exact fun a b hab => ⟨h.release _ _ hab.1, congrArg (· ++ [Exchange.release]) hab.2⟩
  case disassemble => exact fun words a b hab => hab.observing (h.disassemble words _ _ hab.1) rfl

end

lemma agrees_observed (s : Services ω υ π) :
    s.observed.Agrees (fun v w => v.1 = w) (fun v w => v.1 = w) s := by
  constructor
  case weaken => exact fun _ _ h => h
  case includeCount | resetIncludes | release =>
    rintro v _ rfl
    rfl
  case acquire =>
    rintro v _ rfl
    exact ⟨rfl, rfl⟩
  case generate =>
    rintro program stage v _ rfl
    exact ⟨rfl, rfl⟩
  all_goals
    rintro question v _ rfl
    exact ⟨rfl, rfl⟩

def Notes (v : ω × List (Exchange υ π)) (u : ω × List (Call υ π)) : Prop :=
  u = (v.1, v.2.filterMap Exchange.call?)

lemma Notes.call {α : Type} {v : ω × List (Exchange υ π)} {u : ω × List (Call υ π)} (h : Notes v u)
    {exchange : ω → α → Exchange υ π} {call : ω → Call υ π} (f : ω → α × ω)
    (hcall : ∀ w a, (exchange w a).call? = some (call w)) :
    Agree Notes (observing exchange f v) (recording call f u) := by
  obtain rfl : u = (v.1, v.2.filterMap Exchange.call?) := h
  refine ⟨rfl, Prod.ext rfl ?_⟩
  simp only [observing, recording, List.filterMap_append, List.filterMap_cons, hcall,
    List.filterMap_nil]

lemma Notes.other {α : Type} {v : ω × List (Exchange υ π)} {u : ω × List (Call υ π)} (h : Notes v u)
    {exchange : ω → α → Exchange υ π} (f : ω → α × ω) (hcall : ∀ w a, (exchange w a).call? = none) :
    Agree Notes (observing exchange f v) ((f u.1).1, (f u.1).2, u.2) := by
  obtain rfl : u = (v.1, v.2.filterMap Exchange.call?) := h
  refine ⟨rfl, Prod.ext rfl ?_⟩
  simp only [observing, List.filterMap_append, List.filterMap_cons, hcall, List.filterMap_nil,
    List.append_nil]

lemma agrees_recorded (s : Services ω υ π) : s.observed.Agrees Notes Notes s.recorded := by
  constructor
  case weaken => exact fun _ _ h => h
  case preprocess => exact fun request v u h => h.other (s.preprocess request) fun _ _ => rfl
  case includeCount =>
    rintro v _ rfl
    rfl
  case resetIncludes =>
    rintro v _ rfl
    rfl
  case acquire => exact fun v u h => h.call s.acquire fun _ _ => rfl
  case parse => exact fun request v u h => h.call (s.parse request) fun _ _ => rfl
  case link => exact fun unit v u h => h.call (s.link unit) fun _ _ => rfl
  case generate => exact fun program stage v u h => h.call (s.generate program stage) fun _ _ => rfl
  case release =>
    rintro v _ rfl
    have hcalls : (v.2 ++ [Exchange.release]).filterMap Exchange.call? =
        v.2.filterMap Exchange.call? ++ [.release] :=
      List.filterMap_append
    exact Prod.ext rfl hcalls.symm
  case disassemble => exact fun words v u h => h.call (s.disassemble words) fun _ _ => rfl

end Services

namespace Compile

variable (s : Services ω υ π) (o : CompilerOptions) (shader : ShaderSource) (stage : Option Stage)
  (fallback : String → ω → Option Stage × ω) (w : ω)

def exchanges : List (Exchange υ π) :=
  (compile s.observed o shader stage (Services.observedFallback fallback) (w, [])).2.2

lemma compile_observed :
    (compile s.observed o shader stage (Services.observedFallback fallback) (w, [])).1 =
    (compile s o shader stage fallback w).1 := by
  have hf : ∀ tag (v : ω × List (Exchange υ π)) w, v.1 = w →
      Agree (fun v w => v.1 = w) (Services.observedFallback fallback tag v) (fallback tag w) := by
    rintro tag v _ rfl
    exact ⟨rfl, rfl⟩
  exact (agree_compile s.agrees_observed hf rfl o shader stage).1

lemma exchanges_of_agrees {ω' : Type} {R S : ω → ω' → Prop} {s : Services ω υ π}
    {t : Services ω' υ π} {fallback : String → ω → Option Stage × ω}
    {fallback' : String → ω' → Option Stage × ω'} (h : s.Agrees R S t) (hf : ∀ tag w v, R w v →
      Agree R (fallback tag w) (fallback' tag v)) {w : ω} {v : ω'} (hw : S w v) :
    exchanges s o shader stage fallback w = exchanges t o shader stage fallback' v := by
  have hfallback :
      ∀ tag (a : ω × List (Exchange υ π)) (b : ω' × List (Exchange υ π)), Services.Alike R a b →
      Agree (Services.Alike R) (Services.observedFallback fallback tag a)
        (Services.observedFallback fallback' tag b) :=
    fun tag a b hab => hab.observing (hf tag _ _ hab.1) rfl
  exact (agree_compile h.observed hfallback ⟨hw, rfl⟩ o shader stage).2.2

lemma calls_recorded :
    (compile s.recorded o shader stage (Services.recordedFallback fallback) (w, [])).2.2 =
    (exchanges s o shader stage fallback w).filterMap Exchange.call? := by
  have hf : ∀ tag v u, Services.Notes v u → Agree Services.Notes
      (Services.observedFallback (υ := υ) (π := π) fallback tag v)
        (Services.recordedFallback fallback tag u) :=
    fun tag v u h => h.other (fallback tag) fun _ _ => rfl
  have hstart : Services.Notes (υ := υ) (π := π) (w, []) (w, []) := rfl
  exact congrArg Prod.snd (agree_compile s.agrees_recorded hf hstart o shader stage).2

end Compile

end ShaderPipeline
