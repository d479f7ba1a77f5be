import ShaderPipeline.Proofs.Compile.Exchange
import ShaderPipeline.Proofs.Diagnostic.Counting

/-! The courses that a compile can take: which exchanges it makes, and what it comes to after
them. -/

namespace ShaderPipeline.Compile

open Exchange

variable {ω υ π : Type}

inductive Ends (o : CompilerOptions) (tag : String) (stage : Stage) (d : Diagnostics)
    (x : Exchange υ π) :
    Except CompileFailure Compiled → Prop
  | failed {e : CompileError} :
      x.failure? o tag = some e → Ends o tag stage d x (.error ⟨tag, x.phase, e, d⟩)
  | finished {out : Output} :
      x.output? o = some out → Ends o tag stage d x (.ok ⟨some stage, out, d⟩)

inductive Session (o : CompilerOptions) (tag : String) (stage : Stage) :
    Diagnostics → List (Exchange υ π) → Except CompileFailure Compiled → Prop
  | last {d : Diagnostics} {x : Exchange υ π} {r : Except CompileFailure Compiled} :
      Ends o tag stage (d.pushAll (x.messages o tag)) x r → Session o tag stage d [x] r
  | next {d : Diagnostics} {x y : Exchange υ π} {ys : List (Exchange υ π)}
      {r : Except CompileFailure Compiled} :
      x.failure? o tag = none → Follows o tag stage x y →
      Session o tag stage (d.pushAll (x.messages o tag)) (y :: ys) r →
      Session o tag stage d (x :: y :: ys) r

inductive Built (o : CompilerOptions) (shader : ShaderSource) (stage : Stage) (d : Diagnostics) :
    List (Exchange υ π) → Except CompileFailure Compiled → Prop
  | refused (e : ToolchainError) :
      Built o shader stage d [.acquire (.error e)] (.error ⟨shader.tag, .stageResolved,
        .toolchain e, d⟩)
  | served {includes : Nat} {answer : Except ToolchainError (WithLog υ)} {xs : List (Exchange υ π)}
      {r : Except CompileFailure Compiled} :
      Session o shader.tag stage d (.parse (parseRequest o shader stage) includes answer :: xs) r →
      Built o shader stage d
        (.acquire (.ok ()) :: (.parse (parseRequest o shader stage) includes answer :: xs ++
          [.release])) r

inductive Preparation (o : CompilerOptions) (tag : String) (x : Exchange υ π) :
    Except CompileFailure Prepared → Prop
  | failed {e : CompileError} : x.failure? o tag = some e →
      Preparation o tag x (.error ⟨tag, .start, e, .ofMessages (x.messages o tag)⟩)
  | unanchored (e : Preamble.MissingAnchor) : x.failure? o tag = none →
      Preparation o tag x (.error ⟨tag, .start, .preamble e, .ofMessages (x.messages o tag)⟩)
  | prepared (text : String) (nextLine : Bool) : x.failure? o tag = none →
      Preparation o tag x (.ok ⟨text, nextLine, .ofMessages (x.messages o tag)⟩)

def preparing (s : Services ω υ π) (o : CompilerOptions) (shader : ShaderSource) (w : ω) :
    Exchange υ π :=
  .preprocess (preprocessRequest o shader) (s.preprocess (preprocessRequest o shader) w).1

/-- A compile that was given a stage or not. Its preparation makes the exchange `x` and comes to
`prepared`, if it is made, and the fallback says `answer`, if it is asked. -/
inductive Course (o : CompilerOptions) (shader : ShaderSource) (given : Option Stage)
    (x : Exchange υ π) (prepared : Except CompileFailure Prepared) (answer : Option Stage) :
    List (Exchange υ π) → Except CompileFailure Compiled → Prop
  | unprepared {f : CompileFailure} :
      o.mode = .preprocessOnly ∨ given = none → prepared = .error f →
      Course o shader given x prepared answer [x] (.error f)
  | onlyPrepared {p : Prepared} : o.mode = .preprocessOnly → prepared = .ok p →
      Course o shader given x prepared answer [x] (.ok ⟨none, .preprocessed p.text, p.diagnostics⟩)
  | given {stage : Stage} {xs : List (Exchange υ π)} {r : Except CompileFailure Compiled} :
      o.mode ≠ .preprocessOnly → given = some stage → Built o shader stage {} xs r →
      Course o shader given x prepared answer xs r
  | misdeclared {p : Prepared} {e : StageError} :
      o.mode ≠ .preprocessOnly → given = none → prepared = .ok p →
      Stage.declared p.text shader.tag p.nextLine = .error e →
      Course o shader given x prepared answer [x]
        (.error ⟨shader.tag, .preprocessed, .stage e, p.diagnostics⟩)
  | declared {p : Prepared} {stage : Stage} {xs : List (Exchange υ π)}
      {r : Except CompileFailure Compiled} :
      o.mode ≠ .preprocessOnly → given = none → prepared = .ok p →
      Stage.declared p.text shader.tag p.nextLine = .ok (some stage) →
        Built o shader stage p.diagnostics xs r →
      Course o shader given x prepared answer (x :: xs) r
  | unresolved {p : Prepared} : o.mode ≠ .preprocessOnly → given = none → prepared = .ok p →
      Stage.declared p.text shader.tag p.nextLine = .ok none → answer = none →
      Course o shader given x prepared answer [x, .fallback shader.tag none]
        (.error ⟨shader.tag, .preprocessed, .unresolvedStage shader.tag, p.diagnostics⟩)
  | byFallback {p : Prepared} {stage : Stage} {xs : List (Exchange υ π)}
      {r : Except CompileFailure Compiled} :
      o.mode ≠ .preprocessOnly → given = none → prepared = .ok p →
      Stage.declared p.text shader.tag p.nextLine = .ok none → answer = some stage →
      Built o shader stage p.diagnostics xs r →
      Course o shader given x prepared answer (x :: .fallback shader.tag (some stage) :: xs) r

variable {o : CompilerOptions} {tag : String} {stage : Stage} {d : Diagnostics} {w : ω}
  {es : List (Exchange υ π)}

lemma Session.ends {r : Except CompileFailure Compiled} (h : Session o tag stage d es r) :
    ∃ ys x, es = ys ++ [x] ∧ (∀ y ∈ ys, y.failure? o tag = none) ∧
      Ends o tag stage (d.pushAll (es.flatMap (messages o tag))) x r := by
  induction h with
  | last hends =>
    rw [List.flatMap_singleton]
    exact ⟨[], _, rfl, List.forall_mem_nil _, hends⟩
  | @next d x y ys r hx _ _ ih =>
    obtain ⟨zs, z, hzs, hgood, hends⟩ := ih
    refine ⟨x :: zs, z, by rw [hzs, List.cons_append], List.forall_mem_cons.mpr ⟨hx, hgood⟩, ?_⟩
    rwa [List.flatMap_cons, Diagnostics.pushAll_append]

lemma Preparation.failure_eq_none {x : Exchange υ π} {p : Prepared}
    (h : Preparation o tag x (.ok p)) : x.failure? o tag = none := by
  cases h
  assumption

lemma accept_cases {α : Type} (o : CompilerOptions) (tag : String) (d : Diagnostics)
    (r : WithLog α) :
    let d' := d.pushAll (Log.messages tag o.warningPolicy r.log)
    (∃ a, r.output = some a ∧ isClean o.warningPolicy tag r.log = true ∧
      accept o tag d r = (some a, d')) ∨
      (r.output.isSome && isClean o.warningPolicy tag r.log) = false ∧
      accept o tag d r = (none, d') := by
  intro d'
  have haccept :
      accept o tag d r = (if isClean o.warningPolicy tag r.log then r.output else none, d') := by
    simp only [accept, isClean, Log.filter_eq, Diagnostics.extend, Diagnostics.ofMessages_eq, d']
  rw [haccept]
  cases isClean o.warningPolicy tag r.log <;> cases r.output <;> simp

def Continues (o : CompilerOptions) (tag : String) (stage : Stage) (es : List (Exchange υ π))
    (d : Diagnostics) (x : Exchange υ π)
    (run : Except CompileFailure Compiled × ω × List (Exchange υ π)) : Prop :=
  ∃ xs, run.2.2 = es ++ x :: xs ∧ Session o tag stage d (x :: xs) run.1

section

variable {x y : Exchange υ π} {run : Except CompileFailure Compiled × ω × List (Exchange υ π)}

lemma Continues.failed {e : CompileError} (h : x.failure? o tag = some e) :
    Continues o tag stage es d x (.error ⟨tag, x.phase, e, d.pushAll (x.messages o tag)⟩, w,
      es ++ [x]) :=
  ⟨[], rfl, .last (.failed h)⟩

lemma Continues.finished {out : Output} (h : x.output? o = some out) :
    Continues o tag stage es d x (.ok ⟨some stage, out, d.pushAll (x.messages o tag)⟩, w,
      es ++ [x]) :=
  ⟨[], rfl, .last (.finished h)⟩

lemma Continues.next (hx : x.failure? o tag = none) (hxy : Follows o tag stage x y)
    (h : Continues o tag stage (es ++ [x]) (d.pushAll (x.messages o tag)) y run) :
    Continues o tag stage es d x run := by
  obtain ⟨xs, hrun, hsession⟩ := h
  exact ⟨y :: xs, by rw [hrun, List.append_assoc, List.singleton_append], .next hx hxy hsession⟩

end

variable (s : Services ω υ π) (o : CompilerOptions) (shader : ShaderSource)

lemma continues_runStages (stage : Stage) (d : Diagnostics) (w : ω) (es : List (Exchange υ π)) :
    ∃ includes answer, Continues o shader.tag stage es d
      (.parse (parseRequest o shader stage) includes answer)
        (runStages s.observed o shader stage d (w, es)) := by
  unfold runStages
  rw [Services.observed_parse]
  generalize s.parse (parseRequest o shader stage) w = a
  refine ⟨s.includeCount w, a.1, ?_⟩
  generalize s.includeCount w = includes
  rcases a with ⟨e | parsed, w⟩
  · exact .failed rfl
  dsimp only
  rcases accept_cases o shader.tag d parsed with
    ⟨unit, hunit, hclean, haccept⟩ | ⟨hbad, haccept⟩ <;> rw [haccept]
  rotate_left
  · exact .failed (by rw [failure?, hbad]; rfl)
  dsimp only
  rw [Services.observed_link]
  generalize s.link unit w = a
  refine .next (by rw [failure?, hunit, hclean]; rfl) (.link a.1 hunit hclean) ?_
  rcases a with ⟨e | linked, w⟩
  · exact .failed rfl
  dsimp only [messages]
  rcases accept_cases o shader.tag (d.pushAll (Log.messages shader.tag o.warningPolicy parsed.log))
    linked with
    ⟨program, hprogram, hclean, haccept⟩ | ⟨hbad, haccept⟩ <;> rw [haccept]
  rotate_left
  · exact .failed (by rw [failure?, hbad]; rfl)
  dsimp only
  rw [Services.observed_generate]
  generalize s.generate program stage w = a
  refine .next (by rw [failure?, hprogram, hclean]; rfl) (.generate a.1 hprogram hclean) ?_
  rcases a with ⟨e | words, w⟩
  · exact .failed rfl
  dsimp only
  by_cases hmode : o.mode = .disassembly
  rotate_left
  · rw [if_neg hmode]
    exact .finished (by rw [output?, if_neg hmode])
  rw [if_pos hmode, Services.observed_disassemble]
  generalize s.disassemble words w = a
  refine .next rfl (.disassemble a.1 hmode) ?_
  rcases a with ⟨e | text, w⟩
  · exact .failed rfl
  · exact .finished rfl

lemma built_build (stage : Stage) (d : Diagnostics) (w : ω) (es : List (Exchange υ π)) :
    ∃ xs, (build s.observed o shader stage d (w, es)).2.2 = es ++ xs ∧
      Built o shader stage d xs (build s.observed o shader stage d (w, es)).1 := by
  unfold build
  rw [Services.observed_acquire]
  generalize s.acquire w = a
  rcases a with ⟨e | ⟨⟩, w⟩
  · exact ⟨_, rfl, .refused e⟩
  obtain ⟨includes, answer, xs, hrun, hsession⟩ :=
    continues_runStages s o shader stage d w (es ++ [.acquire (.ok ())])
  refine ⟨_, ?_, .served hsession⟩
  change (runStages s.observed o shader stage d (w, es ++ [.acquire (.ok ())])).2.2 ++
    [.release] = _
  rw [hrun]
  rw [List.append_assoc, List.append_assoc]
  rfl

lemma prepare_observed (w : ω) (es : List (Exchange υ π)) : prepare s.observed o shader (w, es) =
    ((prepare s o shader w).1, (prepare s o shader w).2, es ++ [preparing s o shader w]) := by
  unfold prepare preparing
  rw [Services.observed_preprocess]
  generalize s.preprocess (preprocessRequest o shader) w = a
  obtain ⟨result, w⟩ := a
  dsimp only
  rw [Services.observed_includeCount]
  split
  · split <;> rfl
  · rfl

lemma preparation_prepare (w : ω) :
    Preparation o shader.tag (preparing s o shader w) (prepare s o shader w).1 := by
  unfold prepare preparing
  generalize s.preprocess (preprocessRequest o shader) w = a
  obtain ⟨result, w⟩ := a
  dsimp only
  split
  · rename_i hok
    have hgood :
        (Exchange.preprocess (υ := υ) (π := π) (preprocessRequest o shader) result).failure? o
          shader.tag = none :=
      if_pos hok
    split
    · exact .prepared _ _ hgood
    · exact .unanchored _ hgood
  · rename_i hbad
    exact .failed (if_neg hbad)

theorem course_compile (given : Option Stage) (fallback : String → ω → Option Stage × ω) (w : ω) :
    Course o shader given (preparing s o shader (s.resetIncludes w))
      (prepare s o shader (s.resetIncludes w)).1
      (fallback shader.tag (prepare s o shader (s.resetIncludes w)).2).1
      (exchanges s o shader given fallback w) (compile s o shader given fallback w).1 := by
  rw [← compile_observed, exchanges]
  unfold compile
  dsimp only
  rw [Services.observed_resetIncludes, prepare_observed]
  generalize s.resetIncludes w = w
  generalize preparing s o shader w = x
  split
  · rename_i hmode
    generalize prepare s o shader w = a
    rcases a with ⟨f | p, w⟩
    · exact .unprepared (.inl hmode) rfl
    · exact .onlyPrepared hmode rfl
  · rename_i stage hmode
    obtain ⟨xs, hrun, hbuilt⟩ := built_build s o shader stage {} w []
    rw [hrun]
    exact .given hmode rfl hbuilt
  · rename_i hmode
    generalize prepare s o shader w = a
    rcases a with ⟨f | p, w⟩
    · exact .unprepared (.inr rfl) rfl
    unfold resolveStage
    dsimp only
    rcases hdeclared : Stage.declared p.text shader.tag p.nextLine with e | _ | stage
    · exact .misdeclared hmode rfl rfl hdeclared
    · dsimp only
      rw [Services.observedFallback_eq]
      generalize fallback shader.tag w = a
      rcases a with ⟨_ | stage, w⟩
      · exact .unresolved hmode rfl rfl hdeclared rfl
      · obtain ⟨xs, hrun, hbuilt⟩ :=
          built_build s o shader stage p.diagnostics w [x, .fallback shader.tag (some stage)]
        dsimp only [List.nil_append, List.singleton_append]
        rw [hrun]
        exact .byFallback hmode rfl rfl hdeclared rfl hbuilt
    · obtain ⟨xs, hrun, hbuilt⟩ := built_build s o shader stage p.diagnostics w [x]
      dsimp only [List.nil_append]
      rw [hrun]
      exact .declared hmode rfl rfl hdeclared hbuilt

end ShaderPipeline.Compile
