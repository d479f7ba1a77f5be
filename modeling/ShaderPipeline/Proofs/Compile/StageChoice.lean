import ShaderPipeline.Proofs.Compile.Protocol

/-! Where the stage of a compile comes from, and that the toolchain is asked for that stage
alone. -/

namespace ShaderPipeline

open Exchange

namespace Compile

variable {ω υ π : Type} {o : CompilerOptions} {shader : ShaderSource} {tag : String} {stage : Stage}
  {d : Diagnostics} {x : Exchange υ π} {xs es : List (Exchange υ π)}
  {r : Except CompileFailure Compiled} {given : Option Stage}
    {prepared : Except CompileFailure Prepared}

structure OneStage (o : CompilerOptions) (shader : ShaderSource) (stage : Stage)
    (es : List (Exchange υ π)) (r : Except CompileFailure Compiled) : Prop where
  parsed : ∀ request includes answer, .parse request includes answer ∈ es →
    request = parseRequest o shader stage
  generated : ∀ program st answer, .generate program st answer ∈ es → st = stage
  outcome : ∀ c st, r = .ok c → c.stage = some st → st = stage

structure BuildsFor (o : CompilerOptions) (shader : ShaderSource) (stage : Stage)
    (xs : List (Exchange υ π)) (r : Except CompileFailure Compiled) :
    Prop extends OneStage o shader stage xs r where
  asked : xs ≠ []
  toolCalls : ∀ x ∈ xs, x.isToolCall = true
  done : ∀ c, r = .ok c → c.stage = some stage ∧
    (∃ includes answer, .parse (parseRequest o shader stage) includes answer ∈ xs) ∧
    ∃ program answer, .generate program stage answer ∈ xs

section

variable {ys : List (Exchange υ π)}

lemma OneStage.of_noToolCalls (hes : ∀ x ∈ es, x.isToolCall = false)
    (hr : ∀ c, r = .ok c → c.stage = none) : OneStage o shader stage es r := by
  refine ⟨fun _ _ _ h => ?_, fun _ _ _ h => ?_, ?_⟩
  · cases hes _ h
  · cases hes _ h
  · intro c st hc hst
    rw [hr c hc] at hst
    cases hst

lemma OneStage.behind (h : OneStage o shader stage xs r) (hys : ∀ y ∈ ys, y.isToolCall = false) :
    OneStage o shader stage (ys ++ xs) r := by
  refine ⟨fun q n a hmem => ?_, fun p st a hmem => ?_, h.outcome⟩
  · exact (List.mem_append.mp hmem).elim (fun hmem => nomatch hys _ hmem) (h.parsed q n a)
  · exact (List.mem_append.mp hmem).elim (fun hmem => nomatch hys _ hmem) (h.generated p st a)

end

lemma asks_of_follows {y : Exchange υ π} (h : Follows o tag stage x y) :
    (∀ q n a, y ≠ .parse q n a) ∧ ∀ p st a, y = .generate p st a → st = stage := by
  cases h with
  | link | disassemble => exact ⟨by rintro _ _ _ ⟨⟩, by rintro _ _ _ ⟨⟩⟩
  | generate =>
    refine ⟨by rintro _ _ _ ⟨⟩, ?_⟩
    rintro _ _ _ ⟨⟩
    rfl

namespace Session

variable {request : ParseRequest} {includes : Nat} {answer : Except ToolchainError (WithLog υ)}

lemma asks (h : Session o tag stage d (.parse request includes answer :: xs) r) :
    ∀ x ∈ (.parse request includes answer :: xs : List (Exchange υ π)),
      (∀ q n a, x = .parse q n a → q = request) ∧ ∀ p st a, x = .generate p st a → st = stage := by
  refine h.isChain.induction _ _ (fun x y hfollows _ => ?_) fun _ => ⟨?_, by rintro _ _ _ ⟨⟩⟩
  · obtain ⟨hparse, hgenerate⟩ := asks_of_follows hfollows
    exact ⟨fun q n a hy => absurd hy (hparse q n a), hgenerate⟩
  · rintro _ _ _ ⟨⟩
    rfl

lemma generates {c : Compiled} (h : Session o tag stage d xs (.ok c)) :
    (∃ words a, xs.head? = some (.disassemble words a)) ∨ ∃ p st a, .generate p st a ∈ xs := by
  generalize hr : Except.ok c = r at h
  induction h with
  | @last d x r hends =>
    cases hends with
    | failed => cases hr
    | finished hout =>
      cases x with
      | generate p st a => exact .inr ⟨p, st, a, List.mem_singleton_self _⟩
      | disassemble words a => exact .inl ⟨words, a, rfl⟩
      | _ => cases hout
  | @next d x y ys r _ hfollows _ ih =>
    right
    rcases ih hr with ⟨words, a, hy⟩ | ⟨p, st, a, hmem⟩
    · obtain rfl : y = .disassemble words a := by simpa using hy
      cases hfollows
      exact ⟨_, _, _, List.mem_cons_self⟩
    · exact ⟨p, st, a, List.mem_cons_of_mem _ hmem⟩

end Session

lemma mem_of_isInner {ys : List (Exchange υ π)} (hx : x.isInner = true)
    (h : x ∈ (.acquire (.ok ()) :: (ys ++ [.release]) : List (Exchange υ π))) : x ∈ ys := by
  rcases List.mem_cons.mp h with rfl | h
  · cases hx
  rcases List.mem_append.mp h with h | h
  · exact h
  · obtain rfl := List.mem_singleton.mp h
    cases hx

lemma Built.buildsFor (h : Built o shader stage d xs r) : BuildsFor o shader stage xs r := by
  have hcalls := h.isToolCall
  cases h with
  | refused e =>
    refine ⟨⟨?_, ?_, by rintro _ _ ⟨⟩⟩, List.cons_ne_nil _ _, hcalls, by rintro _ ⟨⟩⟩
    · rintro _ _ _ h
      cases List.mem_singleton.mp h
    · rintro _ _ _ h
      cases List.mem_singleton.mp h
  | @served includes answer ys _ hsession =>
    have hdone : ∀ c, r = .ok c → c.stage = some stage := by
      rintro c rfl
      obtain ⟨zs, z, -, -, hends⟩ := hsession.ends
      cases hends
      rfl
    refine ⟨⟨?_, ?_, ?_⟩, List.cons_ne_nil _ _, hcalls, ?_⟩
    · exact fun q n a hmem => (hsession.asks _ (mem_of_isInner rfl hmem)).1 q n a rfl
    · exact fun p st a hmem => (hsession.asks _ (mem_of_isInner rfl hmem)).2 p st a rfl
    · intro c st hc hst
      rw [hdone c hc] at hst
      exact (Option.some.inj hst).symm
    · rintro c rfl
      obtain ⟨p, st, a, hmem⟩ := hsession.generates.resolve_left (by rintro ⟨_, _, ⟨⟩⟩)
      obtain rfl := (hsession.asks _ hmem).2 p st a rfl
      have hbetween {x : Exchange υ π}
          (hx : x ∈ (.parse (parseRequest o shader st) includes answer :: ys : List _)) :
          x ∈ (.acquire (.ok ()) :: (.parse (parseRequest o shader st) includes answer :: ys ++
            [.release]) : List _) :=
        List.mem_cons_of_mem _ (List.mem_append_left _ hx)
      exact ⟨hdone c rfl, ⟨includes, answer, hbetween List.mem_cons_self⟩, p, a, hbetween hmem⟩

section

variable (s : Services ω υ π) (o : CompilerOptions) (shader : ShaderSource) (given : Option Stage)
  (fallback : String → ω → Option Stage × ω) (w : ω)

lemma compile_given (hmode : o.mode ≠ .preprocessOnly) (stage : Stage) :
    compile s o shader (some stage) fallback w = build s o shader stage {} (s.resetIncludes w) := by
  unfold compile
  generalize o.mode = mode at hmode
  cases mode with
  | preprocessOnly => exact absurd rfl hmode
  | binary | disassembly => rfl

lemma compile_withPreprocess (hmode : o.mode ≠ .preprocessOnly) (stage : Stage)
    (preprocess : Preprocess.Request → ω → Preprocess.Result × ω) :
    compile { s with preprocess } o shader (some stage) fallback w =
      compile s o shader (some stage) fallback w := by
  rw [compile_given _ _ _ _ _ hmode, compile_given _ _ _ _ _ hmode]
  rfl

lemma exchanges_withPreprocess (hmode : o.mode ≠ .preprocessOnly) (stage : Stage)
    (preprocess : Preprocess.Request → ω → Preprocess.Result × ω) :
    exchanges { s with preprocess } o shader (some stage) fallback w =
      exchanges s o shader (some stage) fallback w := by
  rw [exchanges, exchanges, compile_given _ _ _ _ _ hmode, compile_given _ _ _ _ _ hmode]
  rfl

end

lemma Course.buildsFor_given {answer : Option Stage}
    (h : Course o shader (some stage) x prepared answer es r) (hmode : o.mode ≠ .preprocessOnly) :
    BuildsFor o shader stage es r := by
  cases h with
  | unprepared hwhy => exact absurd hwhy (by simpa using hmode)
  | onlyPrepared hwhy => exact absurd hwhy hmode
  | given _ hgiven hbuilt =>
    obtain rfl := Option.some.inj hgiven
    exact hbuilt.buildsFor
  | misdeclared _ hgiven | declared _ hgiven | unresolved _ hgiven | byFallback _ hgiven =>
    cases hgiven

def Resolved (o : CompilerOptions) (shader : ShaderSource) (x : Exchange υ π) (p : Prepared)
    (answer : Option Stage) (es : List (Exchange υ π)) (r : Except CompileFailure Compiled) :
    Prop :=
  match Stage.declared p.text shader.tag p.nextLine, answer with
  | .error e, _ => es = [x] ∧ r = .error ⟨shader.tag, .preprocessed, .stage e, p.diagnostics⟩
  | .ok (some stage), _ => ∃ xs, es = x :: xs ∧ BuildsFor o shader stage xs r
  | .ok none, none =>
    es = [x, .fallback shader.tag none] ∧
      r = .error ⟨shader.tag, .preprocessed, .unresolvedStage shader.tag, p.diagnostics⟩
  | .ok none, some stage =>
    ∃ xs, es = x :: .fallback shader.tag (some stage) :: xs ∧ BuildsFor o shader stage xs r

lemma Course.resolved {answer : Option Stage} {p : Prepared}
    (h : Course o shader none x (.ok p) answer es r) (hmode : o.mode ≠ .preprocessOnly) :
    Resolved o shader x p answer es r := by
  unfold Resolved
  cases h with
  | unprepared _ hp => cases hp
  | onlyPrepared hwhy => exact absurd hwhy hmode
  | given _ hgiven => cases hgiven
  | misdeclared _ _ hp hdeclared =>
    obtain rfl := Except.ok.inj hp
    rw [hdeclared]
    exact ⟨rfl, rfl⟩
  | declared _ _ hp hdeclared hbuilt =>
    obtain rfl := Except.ok.inj hp
    rw [hdeclared]
    exact ⟨_, rfl, hbuilt.buildsFor⟩
  | unresolved _ _ hp hdeclared hanswer =>
    obtain rfl := Except.ok.inj hp
    subst hanswer
    rw [hdeclared]
    exact ⟨rfl, rfl⟩
  | byFallback _ _ hp hdeclared hanswer hbuilt =>
    obtain rfl := Except.ok.inj hp
    subst hanswer
    rw [hdeclared]
    exact ⟨_, rfl, hbuilt.buildsFor⟩

lemma Course.oneStage {answer : Option Stage} (hx : x.isToolCall = false)
    (h : Course o shader given x prepared answer es r) : ∃ stage, OneStage o shader stage es r := by
  have hx : ∀ y ∈ [x], y.isToolCall = false := List.forall_mem_singleton.mpr hx
  have hxf (a : Option Stage) : ∀ y ∈ [x, .fallback shader.tag a], y.isToolCall = false :=
    List.forall_mem_append.mpr ⟨hx, List.forall_mem_singleton.mpr rfl⟩
  cases h with
  | unprepared | misdeclared => exact ⟨.vertex, .of_noToolCalls hx (by rintro _ ⟨⟩)⟩
  | onlyPrepared => exact ⟨.vertex, .of_noToolCalls hx (by rintro _ ⟨⟩; rfl)⟩
  | unresolved => exact ⟨.vertex, .of_noToolCalls (hxf none) (by rintro _ ⟨⟩)⟩
  | given _ _ hbuilt => exact ⟨_, hbuilt.buildsFor.toOneStage⟩
  | declared _ _ _ _ hbuilt => exact ⟨_, hbuilt.buildsFor.toOneStage.behind hx⟩
  | byFallback _ _ _ _ _ hbuilt => exact ⟨_, hbuilt.buildsFor.toOneStage.behind (hxf _)⟩

/-- A stage that is given goes before all. Else the source's own goes before that of the fallback,
which is asked once. The toolchain is asked for one stage, and for the source as it was given. -/
theorem stage_choice (s : Services ω υ π) (o : CompilerOptions) (shader : ShaderSource)
    (given : Option Stage) (fallback : String → ω → Option Stage × ω) (w : ω) :
    let es := exchanges s o shader given fallback w
    let result := (compile s o shader given fallback w).1
    (∀ stage, given = some stage → o.mode ≠ .preprocessOnly → BuildsFor o shader stage es result ∧
      ∀ preprocess, compile { s with preprocess } o shader given fallback w =
        compile s o shader given fallback w ∧
        exchanges { s with preprocess } o shader given fallback w = es) ∧
    (∀ p, given = none → o.mode ≠ .preprocessOnly →
      (prepare s o shader (s.resetIncludes w)).1 = .ok p →
      Resolved o shader (preparing s o shader (s.resetIncludes w)) p
        (fallback shader.tag (prepare s o shader (s.resetIncludes w)).2).1 es result) ∧
    (∃ stage, OneStage o shader stage es result) ∧
    ∀ request includes answer, .parse request includes answer ∈ es →
      request.source = shader.source ∧ request.preamble = Preamble.text o.definitions := by
  intro es result
  have hcourse := course_compile s o shader given fallback w
  obtain ⟨stage, hstage⟩ := hcourse.oneStage rfl
  refine ⟨?_, ?_, ⟨stage, hstage⟩, ?_⟩
  · rintro stage rfl hmode
    exact ⟨hcourse.buildsFor_given hmode, fun preprocess =>
      ⟨compile_withPreprocess s o shader fallback w hmode stage preprocess,
        exchanges_withPreprocess s o shader fallback w hmode stage preprocess⟩⟩
  · rintro p rfl hmode hp
    rw [hp] at hcourse
    exact hcourse.resolved hmode
  · intro request includes answer hmem
    rw [hstage.parsed request includes answer hmem]
    exact ⟨rfl, rfl⟩

end Compile

end ShaderPipeline
