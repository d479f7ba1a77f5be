import ShaderPipeline.Proofs.Preprocess.EndsLine
import ShaderPipeline.Proofs.Preprocess.Faults

/-! The readings that a run comes to, one line after the other and in one file inside the other. -/

namespace ShaderPipeline.Preprocess

variable {σ : Type} {inc : Includer σ} {descent : Descent σ}

structure Origin where
  name : String
  depth : Nat
  file : Nat
  deriving DecidableEq, Repr

def Place.origin (p : Place) : Origin :=
  ⟨p.name, p.depth, p.file⟩

namespace Reading

variable {r : Reading σ}

def Enters (inc : Includer σ) (r : Reading σ) (s : String) (asked : Reading σ) (found : Included) :
    Prop :=
  ∀ descend, r.line inc (some descend) s = asked.enter descend found

def Remains (inc : Includer σ) (r : Reading σ) (s : String) : Prop :=
  ∀ descend descend', r.line inc (some descend) s = r.line inc (some descend') s

lemma inclusion_cases (r : Reading σ) (args : List Token) :
    (∀ descend descend', r.inclusion inc (some descend) args =
      r.inclusion inc (some descend') args) ∨
      ∃ (asked : Reading σ) (found : Included),
        ∀ descend, r.inclusion inc (some descend) args = asked.enter descend found := by
  simp only [inclusion]
  split
  · split
    · exact .inl fun _ _ => rfl
    · simp only [includeFile]
      split
      · exact .inl fun _ _ => rfl
      · exact .inr ⟨_, _, fun _ => rfl⟩
  · exact .inl fun _ _ => rfl

lemma activeDirective_of_ne {name : String} (hname : name ≠ "include") (r : Reading σ)
    (args : List Token) (descent descent' : Descent σ) :
    r.activeDirective inc descent name args = r.activeDirective inc descent' name args := by
  unfold activeDirective
  split <;> simp_all

lemma remains_or_enters (inc : Includer σ) (r : Reading σ) (s : String) :
    r.Remains inc s ∨ ∃ asked found, r.Enters inc s asked found := by
  by_cases hs : Role.ofLine s = .plain
  · simp only [Remains, Enters, line_of_plain _ hs]
    split
    · exact .inl fun _ _ => rfl
    · split
      · exact .inl fun _ _ => rfl
      rename_i name args _ _
      by_cases hname : name.text = "include"
      · rw [hname]
        exact inclusion_cases r.flush (Token.trim args)
      · exact .inl fun _ _ => activeDirective_of_ne hname _ _ _ _
    · exact .inl fun _ _ => rfl
  · refine .inl fun _ _ => ?_
    rw [line_of_role _ hs, line_of_role _ hs]

lemma origin_acts {V : List Token → Prop} {r' : Reading σ} (h : Acts inc descent V r r') :
    r'.place.origin = r.place.origin := by
  induction h with
  | refl => rfl
  | tail _ hact ih =>
    rw [← ih]
    cases hact with
    | version =>
      rw [place_declareVersion]
      rfl
    | _ => rfl

lemma depth_acts {V : List Token → Prop} {r' : Reading σ} (h : Acts inc descent V r r') :
    r'.place.depth = r.place.depth :=
  congrArg Origin.depth (origin_acts h)

lemma depth_line (r : Reading σ) (s : String) :
    (r.line inc descent s).advance.place.depth = r.place.depth := by
  have hacts : Acts inc descent (fun _ => True) r (r.line inc descent s) :=
    acts_line r s fun _ _ => trivial
  exact depth_acts (hacts.tail (.advance _))

end Reading

/-- What a run comes to, with the places in other files to which it will return, and with the
version directives that it has processed. -/
inductive Reached (inc : Includer σ) (first : Run σ) :
    List (List Token) → List Place → Reading σ → Prop
  | start (name : String) : Reached inc first [] [] ⟨{ name, depth := 0, file := 0 }, first⟩
  | line {vs : List (List Token)} {outer : List Place} {r : Reading σ} {s : String}
      (descend : Included → Nat → Run σ → Run σ) :
      Reached inc first vs outer r → r.place.depth < maxIncludeDepth →
      r.Remains inc s → Reached inc first (vs ++ (r.versionRead? s).toList) outer
        (r.line inc (some descend) s).advance
  | deepest {vs : List (List Token)} {outer : List Place} {r : Reading σ} (s : String) :
      Reached inc first vs outer r →
      r.place.depth = maxIncludeDepth →
      Reached inc first (vs ++ (r.versionRead? s).toList) outer (r.line inc none s).advance
  | enter {vs : List (List Token)} {outer : List Place} {r asked : Reading σ} {s : String}
      {found : Included} :
      Reached inc first vs outer r → r.place.depth < maxIncludeDepth → r.Enters inc s asked found →
      Reached inc first (vs ++ (r.versionRead? s).toList) (asked.place :: outer)
        ⟨{ name := found.name, depth := r.place.depth + 1, file := asked.run.files + 1 },
          asked.run.entering found⟩
  | leave {vs : List (List Token)} {p : Place} {outer : List Place} {r : Reading σ} :
      Reached inc first vs (p :: outer) r →
      Reached inc first vs outer
        (⟨p, r.close.run.emit (.leave r.close.run.nextLine p.line p.name)⟩ : Reading σ).advance
  | next {vs : List (List Token)} {r : Reading σ} (name : String) : Reached inc first vs [] r →
      Reached inc first vs [] ⟨{ name, depth := 0, file := 0 }, r.close.run⟩

namespace Reached

variable {first : Run σ} {vs : List (List Token)} {outer : List Place} {r : Reading σ}

lemma lines {d : Nat} (hline : ∀ {vs} {r : Reading σ} (s), Reached inc first vs outer r →
    r.place.depth = d →
    ∃ vs', Reached inc first vs' outer (r.line inc descent s).advance)
    (h : Reached inc first vs outer r)
    (hd : r.place.depth = d) (ss : List String) : ∃ vs', Reached inc first vs' outer
      (r.lines inc descent ss) := by
  induction ss generalizing vs r with
  | nil => exact ⟨vs, h⟩
  | cons s ss ih =>
    obtain ⟨vs', h'⟩ := hline s h hd
    exact ih h' ((Reading.depth_line r s).trans hd)

theorem unit {levels : Nat} (hlevels : levels ≤ maxIncludeDepth) {source : Included} {file : Nat}
    {run : Run σ} (h : Reached inc first vs outer
      ⟨{ name := source.name, depth := maxIncludeDepth - levels, file }, run⟩) :
    ∃ vs' r, Reached inc first vs' outer r ∧ r.close.run = Run.unit inc levels source file run := by
  -- a line that enters a file is read by `enter`, the file's own unit one level further down, and
  -- `leave`
  induction levels generalizing vs outer source file run with
  | zero =>
    have hlines :=
      h.lines (fun s h hd => ⟨_, h.deepest s hd⟩) rfl (Text.lines (Text.clean source.content))
    obtain ⟨vs', hlines⟩ := hlines
    exact ⟨vs', _, hlines, rfl⟩
  | succ levels ih =>
    have hline : ∀ {vs} {r : Reading σ} (s), Reached inc first vs outer r →
        r.place.depth = maxIncludeDepth - (levels + 1) →
        ∃ vs', Reached inc first vs' outer (r.line inc (some (Run.unit inc levels)) s).advance := by
      intro vs r s h hd
      have hdepth : r.place.depth < maxIncludeDepth := by omega
      rcases Reading.remains_or_enters inc r s with hremains | ⟨asked, found, henters⟩
      · exact ⟨_, h.line _ hdepth hremains⟩
      · have hinside := h.enter hdepth henters
        have hnext : r.place.depth + 1 = maxIncludeDepth - levels := by omega
        rw [hnext] at hinside
        obtain ⟨vs', r', h', hrun⟩ := ih (by omega) hinside
        have hback := h'.leave
        rw [hrun] at hback
        rw [henters]
        exact ⟨vs', hback⟩
    obtain ⟨vs', hlines⟩ := h.lines hline rfl (Text.lines (Text.clean source.content))
    exact ⟨vs', _, hlines, rfl⟩

theorem finalRun (inc : Includer σ) (request : Request) (includer : σ) :
    ∃ vs r, Reached inc (Run.start request.version request.forced includer) vs [] r ∧
      r.close.run = finalRun inc request includer := by
  let first := Run.start request.version request.forced includer
  have hpreamble : ∃ vs r, Reached inc first vs [] r ∧
      r.close.run = Run.unit inc maxIncludeDepth ⟨request.tag, request.preamble⟩ 0 first :=
    (Reached.start request.tag).unit le_rfl
  obtain ⟨vs, r, h, hrun⟩ := hpreamble
  have hnext := h.next request.tag
  rw [hrun] at hnext
  exact hnext.unit le_rfl

end Reached

end ShaderPipeline.Preprocess
