import ShaderPipeline.Proofs.Preprocess.Reached

/-! The history of a run, with every file read in place of the line that includes it. Whatever the
includer answers, a run has one history, and it is finite. -/

namespace ShaderPipeline.Preprocess

variable {σ : Type} {inc : Includer σ}

structure Visit (σ : Type) where
  found : Included
  first : Reading σ
  last : Reading σ

/-- One call of the includer, between the readings in which its line begins and ends. -/
structure Inclusion (σ : Type) where
  before : Reading σ
  request : IncludeRequest
  answer : Except IncludeError (Visit σ)
  after : Reading σ

namespace Reading

def asks? (r : Reading σ) (s : String) : Option IncludeRequest :=
  match directiveTokens? (Token.tokenize s) with
  | some (name :: args) =>
    if name.text = "include" ∧ r.place.isSkipping = false ∧ r.run.includeEnabled ∧
      r.place.depth < maxIncludeDepth then
      match includeTarget (Token.trim args) with
      | .ok (target, kind) => some (r.request target kind)
      | .error _ => none
    else none
  | _ => none

def opened (r : Reading σ) (found : Included) : Reading σ :=
  ⟨{ name := found.name, depth := r.place.depth + 1, file := r.run.files + 1 },
    r.run.entering found⟩

def resumed (r : Reading σ) (run : Run σ) : Reading σ :=
  { r with run := run.emit (.leave run.nextLine r.place.line r.place.name) }

/-- The reading comes over the lines to its end, with these inclusions on the way, in the order of
the calls. -/
inductive Evaluates (inc : Includer σ) :
    Reading σ → List String → List (Inclusion σ) → Reading σ → Prop
  | done (r : Reading σ) : Evaluates inc r [] [] r
  | line {r last : Reading σ} {s : String} {ss : List String} {es : List (Inclusion σ)} :
      r.asks? s = none →
      Evaluates inc (r.line inc none s).advance ss es last → Evaluates inc r (s :: ss) es last
  | refused {r after last : Reading σ} {s : String} {ss : List String} {es : List (Inclusion σ)}
      {q : IncludeRequest} {e : IncludeError} :
      r.asks? s = some q → (inc.resolve r.flush.run.includer q).1 = .error e →
      ((r.flush.ask inc q).fault "#include" (.inclusion e)).newline = after →
      Evaluates inc after.advance ss es last →
        Evaluates inc r (s :: ss) (⟨r, q, .error e, after⟩ :: es) last
  | file {r first end' after last : Reading σ} {s : String} {ss : List String}
      {fs es : List (Inclusion σ)} {q : IncludeRequest} {found : Included} : r.asks? s = some q →
      (inc.resolve r.flush.run.includer q).1 = .ok found →
        (r.flush.ask inc q).opened found = first →
      Evaluates inc first (Text.lines (Text.clean found.content)) fs end' →
      (r.flush.ask inc q).resumed end'.close.run = after → Evaluates inc after.advance ss es last →
      Evaluates inc r (s :: ss) (⟨r, q, .ok ⟨found, first, end'⟩, after⟩ :: (fs ++ es)) last

end Reading

def Run.Evaluates (inc : Includer σ) (depth : Nat) (source : Included) (file : Nat) (run : Run σ)
    (es : List (Inclusion σ)) (run' : Run σ) : Prop :=
  ∃ last, Reading.Evaluates inc ⟨{ name := source.name, depth, file }, run⟩
    (Text.lines (Text.clean source.content)) es
    last ∧ last.close.run = run'

def Preprocesses (inc : Includer σ) (request : Request) (includer : σ) (es : List (Inclusion σ))
    (run' : Run σ) : Prop :=
  ∃ fs gs run, Run.Evaluates inc 0 ⟨request.tag, request.preamble⟩ 0
      (Run.start request.version request.forced includer) fs run ∧
    Run.Evaluates inc 0 ⟨request.tag, request.source⟩ 0 run gs run' ∧ fs ++ gs = es

namespace Reading

lemma place_flush (r : Reading σ) : r.flush.place = { r.place with held := none } := by
  rcases hheld : r.place.held with _ | h
  · rw [flush_of_held hheld, ← hheld]
  · rw [flush, hheld]
    dsimp only
    cases r.run.table.expand h.builtins h.tokens <;> rfl

lemma includeEnabled_flush (r : Reading σ) : r.flush.run.includeEnabled = r.run.includeEnabled := by
  rw [flush]
  rcases r.place.held with _ | h
  · rfl
  dsimp only
  cases r.run.table.expand h.builtins h.tokens <;> rfl

lemma directive_of_ne {name : String} (hname : name ≠ "include") (r : Reading σ) (args : List Token)
    (descent descent' : Descent σ) :
    r.directive inc descent name args = r.directive inc descent' name args := by
  rw [directive_eq, directive_eq, activeDirective_of_ne hname r args descent descent']

lemma line_of_include {descent : Descent σ} {s : String} {name : Token} {args : List Token}
    (hs : directiveTokens? (Token.tokenize s) = some (name :: args)) (hname : name.text = "include")
    (r : Reading σ) :
    r.line inc descent s =
      if r.place.isSkipping then r.flush.newline else r.flush.inclusion inc descent
        (Token.trim args) := by
  simp only [line, hs, hname, directive, isSkipping_flush]
  rfl

lemma asks_eq_some {r : Reading σ} {s : String} {q : IncludeRequest} (h : r.asks? s = some q) :
    ∃ name args target kind, directiveTokens? (Token.tokenize s) = some (name :: args) ∧
    name.text = "include" ∧
      r.place.isSkipping = false ∧ r.run.includeEnabled ∧ r.place.depth < maxIncludeDepth ∧
      includeTarget (Token.trim args) = .ok (target, kind) ∧ r.request target kind = q := by
  unfold asks? at h
  split at h
  case h_2 => cases h
  rename_i name args hs
  split at h
  case isFalse => cases h
  rename_i hasks
  obtain ⟨hname, hreading, henabled, hdepth⟩ := hasks
  split at h
  case h_2 => cases h
  rename_i target kind htarget
  exact ⟨name, args, target, kind, hs, hname, hreading, henabled, hdepth, htarget,
    Option.some.inj h⟩

lemma line_of_silent {descend : Included → Nat → Run σ → Run σ} {r : Reading σ} {s : String}
    (h : r.asks? s = none) (hdepth : r.place.depth < maxIncludeDepth) :
    r.line inc (some descend) s = r.line inc none s := by
  rcases hs : directiveTokens? (Token.tokenize s) with _ | _ | ⟨name, args⟩
  · simp only [line, hs]
  · simp only [line, hs]
  by_cases hname : name.text = "include"
  · simp only [asks?, hs, hname, hdepth] at h
    simp only [line_of_include hs hname, inclusion, includeEnabled_flush]
    cases hreading : r.place.isSkipping with
    | true => rfl
    | false =>
      cases henabled : r.run.includeEnabled with
      | false => rfl
      | true =>
        cases htarget : includeTarget (Token.trim args) with
        | error cause => rfl
        | ok target => simp [hreading, henabled, htarget] at h
  · simp only [line, hs]
    exact directive_of_ne hname _ _ _ _

lemma line_of_asks {descend : Included → Nat → Run σ → Run σ} {r : Reading σ} {s : String}
    {q : IncludeRequest} (h : r.asks? s = some q) : r.line inc (some descend) s =
      match (inc.resolve r.flush.run.includer q).1 with
      | .error e => ((r.flush.ask inc q).fault "#include" (.inclusion e)).newline
      | .ok found => (r.flush.ask inc q).enter descend found := by
  obtain ⟨name, args, target, kind, hs, hname, hreading, henabled, -, htarget, rfl⟩ :=
    asks_eq_some h
  have hrequest : r.flush.request target kind = r.request target kind := by
    rw [request, place_flush, request]
  rw [line_of_include hs hname, hreading, inclusion, includeEnabled_flush, henabled,
    htarget, ← hrequest]
  rfl

lemma exists_evaluates_deepest (inc : Includer σ) {r : Reading σ}
    (hr : r.place.depth = maxIncludeDepth) (ss : List String) :
    ∃ es, Evaluates inc r ss es (r.lines inc none ss) := by
  induction ss generalizing r with
  | nil => exact ⟨[], .done r⟩
  | cons s ss ih =>
    have hsilent : r.asks? s = none := by
      by_contra hasks
      obtain ⟨q, hq⟩ := Option.ne_none_iff_exists'.mp hasks
      obtain ⟨_, _, _, _, -, -, -, -, hdepth, -⟩ := asks_eq_some hq
      omega
    obtain ⟨es, h⟩ := ih ((depth_line r s).trans hr)
    exact ⟨es, .line hsilent h⟩

lemma exists_evaluates_above (inc : Includer σ) {descend : Included → Nat → Run σ → Run σ}
    {depth : Nat} (hdepth : depth < maxIncludeDepth)
    (hd : ∀ found file run, ∃ fs, Run.Evaluates inc (depth + 1) found file run fs
      (descend found file run))
    {r : Reading σ} (hr : r.place.depth = depth) (ss : List String) :
    ∃ es, Evaluates inc r ss es (r.lines inc (some descend) ss) := by
  induction ss generalizing r with
  | nil => exact ⟨[], .done r⟩
  | cons s ss ih =>
    have hnext : (r.line inc (some descend) s).advance.place.depth = depth :=
      (depth_line r s).trans hr
    obtain ⟨es, h⟩ := ih hnext
    have hlines : r.lines inc (some descend) (s :: ss) =
        (r.line inc (some descend) s).advance.lines inc (some descend) ss := rfl
    rw [← hlines] at h
    cases hq : r.asks? s with
    | none =>
      rw [line_of_silent hq (hr ▸ hdepth)] at h
      exact ⟨es, .line hq h⟩
    | some q =>
      rw [line_of_asks hq] at h
      cases hanswer : (inc.resolve r.flush.run.includer q).1 with
      | error e =>
        rw [hanswer] at h
        exact ⟨_, .refused hq hanswer rfl h⟩
      | ok found =>
        rw [hanswer] at h
        let asked := r.flush.ask inc q
        have hopened : asked.place.depth = depth := by
          change r.flush.place.depth = depth
          rw [place_flush]
          exact hr
        obtain ⟨fs, last, hfs, hlast⟩ := hd found (asked.run.files + 1) (asked.run.entering found)
        have hresumed : asked.resumed last.close.run = asked.enter descend found :=
          congrArg asked.resumed hlast
        rw [← hopened] at hfs
        exact ⟨_, .file hq hanswer rfl hfs hresumed h⟩

theorem Evaluates.unique {r last last' : Reading σ} {ss : List String} {es es' : List (Inclusion σ)}
    (h : Evaluates inc r ss es last) (h' : Evaluates inc r ss es' last') :
    es' = es ∧ last' = last := by
  induction h generalizing es' last' with
  | done => cases h' with
    | done => exact ⟨rfl, rfl⟩
  | line hsilent _ ih => cases h' with
    | line _ h' => exact ih h'
    | refused hq => cases hsilent.symm.trans hq
    | file hq => cases hsilent.symm.trans hq
  | refused hq he hafter _ ih => cases h' with
    | line hsilent => cases hq.symm.trans hsilent
    | refused hq' he' hafter' h' =>
      obtain rfl := Option.some.inj (hq.symm.trans hq')
      obtain rfl := Except.error.inj (he.symm.trans he')
      obtain rfl := hafter.symm.trans hafter'
      obtain ⟨rfl, rfl⟩ := ih h'
      exact ⟨rfl, rfl⟩
    | file hq' hf =>
      obtain rfl := Option.some.inj (hq.symm.trans hq')
      cases he.symm.trans hf
  | file hq hf hfirst _ hafter _ ihfile ih => cases h' with
    | line hsilent => cases hq.symm.trans hsilent
    | refused hq' he =>
      obtain rfl := Option.some.inj (hq.symm.trans hq')
      cases hf.symm.trans he
    | file hq' hf' hfirst' hread hafter' h' =>
      obtain rfl := Option.some.inj (hq.symm.trans hq')
      obtain rfl := Except.ok.inj (hf.symm.trans hf')
      obtain rfl := hfirst.symm.trans hfirst'
      obtain ⟨rfl, rfl⟩ := ihfile hread
      obtain rfl := hafter.symm.trans hafter'
      obtain ⟨rfl, rfl⟩ := ih h'
      exact ⟨rfl, rfl⟩

end Reading

namespace Run

theorem exists_evaluates (inc : Includer σ) {levels : Nat} (hlevels : levels ≤ maxIncludeDepth)
    (source : Included) (file : Nat) (run : Run σ) :
    ∃ es, Run.Evaluates inc (maxIncludeDepth - levels) source file run es
      (Run.unit inc levels source file run) := by
  -- a file is read with one level less than its requester, the lines of one unit on the same level
  induction levels generalizing source file run with
  | zero =>
    obtain ⟨es, h⟩ := Reading.exists_evaluates_deepest inc
      (r := ⟨{ name := source.name, depth := maxIncludeDepth, file }, run⟩) rfl
        (Text.lines (Text.clean source.content))
    exact ⟨es, _, h, rfl⟩
  | succ levels ih =>
    have hdepth : maxIncludeDepth - (levels + 1) < maxIncludeDepth := by omega
    have hbelow : maxIncludeDepth - (levels + 1) + 1 = maxIncludeDepth - levels := by omega
    obtain ⟨es, h⟩ := Reading.exists_evaluates_above inc hdepth (hbelow ▸ ih (by omega))
      (r := ⟨{ name := source.name, depth := maxIncludeDepth - (levels + 1), file }, run⟩) rfl
      (Text.lines (Text.clean source.content))
    exact ⟨es, _, h, rfl⟩

lemma Evaluates.unique {depth file : Nat} {source : Included} {run run₁ run₂ : Run σ}
    {es fs : List (Inclusion σ)} (h : Run.Evaluates inc depth source file run es run₁)
    (h' : Run.Evaluates inc depth source file run fs run₂) : fs = es ∧ run₂ = run₁ := by
  obtain ⟨last, hread, rfl⟩ := h
  obtain ⟨last', hread', rfl⟩ := h'
  obtain ⟨rfl, rfl⟩ := hread.unique hread'
  exact ⟨rfl, rfl⟩

end Run

lemma Preprocesses.unique {request : Request} {includer : σ} {es fs : List (Inclusion σ)}
    {run run' : Run σ} (h : Preprocesses inc request includer es run)
    (h' : Preprocesses inc request includer fs run') : fs = es ∧ run' = run := by
  obtain ⟨_, _, _, hpreamble, hsource, rfl⟩ := h
  obtain ⟨_, _, _, hpreamble', hsource', rfl⟩ := h'
  obtain ⟨rfl, rfl⟩ := hpreamble.unique hpreamble'
  obtain ⟨rfl, rfl⟩ := hsource.unique hsource'
  exact ⟨rfl, rfl⟩

lemma exists_preprocesses (inc : Includer σ) (request : Request) (includer : σ) :
    ∃ es, Preprocesses inc request includer es (finalRun inc request includer) := by
  obtain ⟨fs, hpreamble⟩ :=
    Run.exists_evaluates inc (le_refl maxIncludeDepth) ⟨request.tag, request.preamble⟩ 0
    (Run.start request.version request.forced includer)
  obtain ⟨gs, hsource⟩ :=
    Run.exists_evaluates inc (le_refl maxIncludeDepth) ⟨request.tag, request.source⟩ 0
    (Run.unit inc maxIncludeDepth ⟨request.tag, request.preamble⟩ 0
      (Run.start request.version request.forced includer))
  rw [Nat.sub_self] at hpreamble hsource
  exact ⟨_, _, _, _, hpreamble, hsource, rfl⟩

end ShaderPipeline.Preprocess
