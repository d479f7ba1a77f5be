import Mathlib
import ShaderPipeline.Proofs.Macro.Machine

/-! The macros disabled during a scan are those that were when it began and those whose marks
wait. -/

namespace ShaderPipeline.Macro

def Frame.marks (f : Frame) : List String :=
  f.enables ++ Pending.names f.rest

namespace Machine

def marks (q : List Pending) (frames : List Frame) : List String :=
  Pending.names q ++ frames.flatMap Frame.marks

def Named : List Frame → Prop
  | [] => True
  | f :: frames => f.name ∉ (f :: frames).flatMap Frame.marks ∧ Named frames

/-- The disabled macros are a stack with one mark for each of them. -/
structure InStep (m : Machine) : Prop where
  disabled_eq : m.disabled = (marks m.queue m.frames).reverse
  nodup : (marks m.queue m.frames).Nodup
  named : Named m.frames

variable {t : Table} {b : Builtins} {m m' : Machine} {f : Frame} {frames : List Frame} {x : Token}
  {q : List Pending}

lemma marks_ofTokens (ts : List Token) (frames : List Frame) :
    marks (Pending.ofTokens ts) frames = frames.flatMap Frame.marks := by
  rw [marks, Pending.names_ofTokens, List.nil_append]

lemma marks_replacement (ts : List Token) (name : String) (q : List Pending) (frames : List Frame) :
    marks (Pending.ofTokens ts ++ .enable name :: q) frames = name :: marks q frames := by
  rw [marks, Pending.names_ofTokens_append]
  rfl

lemma inStep_start (openEnded : Bool) (ts : List Token) : InStep (start openEnded ts) := by
  have hmarks : marks (Pending.ofTokens ts) [] = [] := marks_ofTokens ts []
  refine ⟨?_, ?_, trivial⟩
  · exact (congrArg List.reverse hmarks).symm
  · exact hmarks ▸ List.nodup_nil

lemma inStep_replacement {name : String} (hname : name ∉ marks q frames)
    (hnodup : (marks q frames).Nodup) (hnamed : Named frames) (ts out : List Token) (o : Bool) :
    InStep ⟨Pending.ofTokens ts ++ .enable name :: q, (marks q frames).reverse ++ [name], out, o,
      frames⟩ := by
  have hmarks := marks_replacement ts name q frames
  refine ⟨?_, ?_, hnamed⟩
  · rw [hmarks, List.reverse_cons]
  · rw [hmarks, List.nodup_cons]
    exact ⟨hname, hnodup⟩

lemma inStep_resume (hnodup : ((f :: frames).flatMap Frame.marks).Nodup)
    (hnamed : Named (f :: frames)) :
    InStep (resume f ((f :: frames).flatMap Frame.marks).reverse frames) := by
  have hmarks :
      marks (Pending.marks f.enables ++ f.rest) frames = (f :: frames).flatMap Frame.marks := by
    rw [marks, Pending.names_marks_append]
    rfl
  rw [resume]
  split
  · rename_i arg waiting _
    have harg : marks (Pending.ofTokens arg) ({ f with waiting } :: frames) =
        (f :: frames).flatMap Frame.marks :=
      marks_ofTokens arg _
    exact ⟨by rw [harg], by rwa [harg], hnamed⟩
  · rw [← hmarks] at hnodup ⊢
    rw [List.append_assoc, List.cons_append]
    exact inStep_replacement (by rw [hmarks]; exact hnamed.1) hnodup hnamed.2 _ _ _

lemma notMem_of_enabled {d : List String} {name : String} {d' : Macro}
    (h : t.enabled? d name = some d') : name ∉ d := by
  intro hm
  rw [Table.enabled?, if_pos hm] at h
  cases h

lemma InStep.step (h : m.InStep) (hs : m.step t b = .go m') : m'.InStep := by
  obtain ⟨queue, disabled, out, o, frames⟩ := m
  obtain ⟨hdisabled, hnodup, hnamed⟩ := h
  obtain rfl : disabled = (marks queue frames).reverse := hdisabled
  rcases queue with _ | ⟨x | name, q⟩
  · cases frames with
    | nil => cases hs
    | cons f frames =>
      obtain rfl := Next.go.inj hs
      exact inStep_resume (f := { f with replaced := f.replaced ++ [out] }) hnodup hnamed
  · have hmarks : marks (.token x :: q) frames = marks q frames := rfl
    rw [hmarks] at hnodup hs
    simp only [Machine.step] at hs
    cases ha : t.action b o (marks q frames).reverse x q with
    | write v =>
      rw [ha] at hs
      obtain rfl := Next.go.inj hs
      exact ⟨rfl, hnodup, hnamed⟩
    | replace d =>
      rw [ha] at hs
      obtain rfl := Next.go.inj hs
      have hx := notMem_of_enabled (Table.enabled_of_replace ha)
      exact inStep_replacement (fun hm => hx (List.mem_reverse.mpr hm)) hnodup hnamed _ _ _
    | invoke d params a =>
      rw [ha] at hs
      obtain rfl := Next.go.inj hs
      have hx := notMem_of_enabled (Table.enabled_of_invoke ha).1
      -- the marks taken with the arguments and those behind them are the marks of the queue
      have hframe :
          marks q frames = (⟨x.text, d.body, params, a.args, [], a.enables, a.rest, out, o⟩ ::
          frames).flatMap Frame.marks := by
        rw [marks, Table.marks_of_invoke ha]
        rfl
      rw [hframe] at hnodup hx ⊢
      exact inStep_resume hnodup ⟨fun hm => hx (List.mem_reverse.mpr hm), hnamed⟩
    | wait =>
      rw [ha] at hs
      cases hs
    | fail e =>
      rw [ha] at hs
      cases hs
  · obtain rfl := Next.go.inj hs
    have hmarks : marks (.enable name :: q) frames = name :: marks q frames := rfl
    rw [hmarks, List.nodup_cons] at hnodup
    refine ⟨?_, hnodup.2, hnamed⟩
    rw [hmarks, List.reverse_cons, eraseLast_append_self]

def Reaches (t : Table) (b : Builtins) : Machine → Machine → Prop :=
  Relation.ReflTransGen fun m m' => m.step t b = .go m'

lemma InStep.of_reaches (h : m.InStep) (hm : Reaches t b m m') : m'.InStep := by
  induction hm with
  | refl => exact h
  | tail _ hs ih => exact ih.step hs

inductive Within (t : Table) (b : Builtins) (first : Machine) : Machine → Prop
  | start : Within t b first first
  | step {m m' : Machine} :
      Within t b first m → ¬ (m.queue = [] ∧ m.frames = first.frames) → m.step t b = .go m' →
      Within t b first m'

lemma Within.reaches {first : Machine} (h : Within t b first m) : Reaches t b first m := by
  induction h with
  | start => exact .refl
  | step _ _ hs ih => exact ih.tail hs

lemma frames_resume (f : Frame) (d : List String) (frames : List Frame) :
    frames <:+ (resume f d frames).frames := by
  rw [resume]
  split
  · exact List.suffix_cons _ _
  · exact List.suffix_rfl

lemma frames_step (hs : m.step t b = .go m') :
    m.frames <:+ m'.frames ∨ m.queue = [] ∧ ∃ f frames, m.frames = f :: frames ∧
    frames <:+ m'.frames := by
  obtain ⟨queue, disabled, out, o, frames⟩ := m
  rcases queue with _ | ⟨x | name, q⟩
  · cases frames with
    | nil => cases hs
    | cons f frames =>
      obtain rfl := Next.go.inj hs
      exact .inr ⟨rfl, f, frames, rfl, frames_resume _ _ _⟩
  · simp only [Machine.step] at hs
    split at hs
    · obtain rfl := Next.go.inj hs
      exact .inl List.suffix_rfl
    · obtain rfl := Next.go.inj hs
      exact .inl List.suffix_rfl
    · obtain rfl := Next.go.inj hs
      exact .inl (frames_resume _ _ _)
    · cases hs
    · cases hs
  · obtain rfl := Next.go.inj hs
    exact .inl List.suffix_rfl

lemma Within.above {first : Machine} (h : Within t b first m) : first.frames <:+ m.frames := by
  induction h with
  | start => exact List.suffix_rfl
  | @step m m' _ hopen hs ih =>
    rcases frames_step hs with hframes | ⟨hq, f, frames, hm, hframes⟩
    · exact ih.trans hframes
    · rw [hm, List.suffix_cons_iff] at ih
      rcases ih with heq | hsuffix
      · exact (hopen ⟨hq, hm.trans heq.symm⟩).elim
      · exact hsuffix.trans hframes

theorem disabled_of_scan {o : Bool} {ts arg : List Token} {first : Machine}
    (hfirst : Reaches t b (start o ts) first) (hqueue : first.queue = Pending.ofTokens arg)
    (h : Within t b first m) :
    (∃ inner, m.frames = inner ++ first.frames ∧
      m.disabled = first.disabled ++ (marks m.queue inner).reverse ∧
      m.disabled.Nodup) ∧
    (m.queue = [] → m.frames = first.frames → m.disabled = first.disabled) ∧
    ∀ r, t.rescan b first.openEnded (Pending.ofTokens arg) first.disabled = .ok r →
      r.complete = true →
      r.disabled = first.disabled ∧
        Leads t b first ⟨[], first.disabled, first.out ++ r.out, first.openEnded,
          first.frames⟩ := by
  have hbegun := (inStep_start o ts).of_reaches hfirst
  have hnow := hbegun.of_reaches h.reaches
  obtain ⟨inner, hframes⟩ := h.above
  have hentry : first.disabled = (first.frames.flatMap Frame.marks).reverse := by
    rw [hbegun.disabled_eq, hqueue, marks_ofTokens]
  have hdisabled : m.disabled = first.disabled ++ (marks m.queue inner).reverse := by
    rw [hnow.disabled_eq, ← hframes, hentry, marks, marks, List.flatMap_append, ← List.append_assoc,
      List.reverse_append]
  refine ⟨⟨inner, hframes.symm, hdisabled, ?_⟩, ?_, ?_⟩
  · rw [hnow.disabled_eq]
    exact List.nodup_reverse.mpr hnow.nodup
  · intro hq hsame
    rw [hnow.disabled_eq, hq, hsame, hentry]
    rfl
  · intro r hr hc
    have hd : r.disabled = first.disabled := by
      rw [Table.disabled_of_complete hr hc, Pending.names_ofTokens]
      rfl
    refine ⟨hd, ?_⟩
    have hperforms := performs_rescan (t := t) (b := b) first.openEnded first.queue first.disabled
      first.out first.frames
    rw [hqueue, hr] at hperforms
    obtain ⟨out, complete, disabled⟩ := r
    obtain rfl : complete = true := hc
    obtain rfl : disabled = first.disabled := hd
    rw [← hqueue] at hperforms
    exact hperforms

def openBodied : Table :=
  ⟨[("G", .object [.ident "F", .punct "("]), ("F", .function ["x"] [.ident "x"]),
    ("H", .object [.number "2"])]⟩

theorem disabled_of_scan_of_openBodied :
    let b : Builtins := ⟨1, 0, 110⟩
    let frame : Frame := ⟨"F", [.ident "x"], ["x"], [], [], ["G"], [], [], false⟩
    let first : Machine := ⟨Pending.ofTokens [.ident "H"], ["G"], [], false, [frame]⟩
    let m : Machine := ⟨[.token (.number "2"), .enable "H"], ["G", "H"], [], false, [frame]⟩
    Reaches openBodied b (start false [.ident "G", .ident "H", .punct ")"]) first ∧
      Within openBodied b first m ∧
      m.disabled = first.disabled ++ ["H"] := by
  intro b frame first m
  have hfirst : Reaches openBodied b (start false [.ident "G", .ident "H", .punct ")"]) first :=
    .tail (.tail .refl rfl) rfl
  have hwithin : Within openBodied b first m := .step .start (by simp [first, Pending.ofTokens]) rfl
  obtain ⟨⟨inner, hframes, hdisabled, -⟩, -, -⟩ := disabled_of_scan hfirst rfl hwithin
  obtain rfl : inner = [] := by simpa [m, first] using hframes
  exact ⟨hfirst, hwithin, hdisabled⟩

end Machine

end ShaderPipeline.Macro
