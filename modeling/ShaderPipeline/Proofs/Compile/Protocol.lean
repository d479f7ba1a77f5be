import Mathlib.Data.List.Chain
import ShaderPipeline.Proofs.Compile.Course

/-! A compile keeps to the order in which the toolchain is to be used, and tells how far it came. -/

namespace ShaderPipeline

variable {ω υ π : Type}

namespace Exchange

variable {o : CompilerOptions} {tag : String} {stage : Stage} {x y : Exchange υ π}

def isInner : Exchange υ π → Bool
  | .parse .. | .link .. | .generate .. | .disassemble .. => true
  | _ => false

lemma Follows.isInner (h : Follows o tag stage x y) : y.isInner = true := by
  cases h <;> rfl

lemma isToolCall_of_isInner (h : x.isInner = true) : x.isToolCall = true := by
  cases x <;> first | rfl | cases h

lemma filterMap_call? (es : List (Exchange υ π)) :
    (es.filter isToolCall).filterMap call? = es.filterMap call? := by
  rw [List.filterMap_filter]
  refine List.filterMap_congr fun x _ => ?_
  rw [isToolCall]
  cases x.call? <;> rfl

lemma phase_of_isToolCall (h : x.isToolCall = true) :
    x.phase ≠ .start ∧ x.phase ≠ .preprocessed := by
  cases x <;> simp [isToolCall, call?, phase] at h ⊢

end Exchange

namespace Compile

open Exchange

/-- What is called between an acquisition and the release. It stops only where a call failed or gave
the output. -/
structure IsSession (o : CompilerOptions) (tag : String) (stage : Stage)
    (xs : List (Exchange υ π)) : Prop where
  begins : ∃ request includes answer, xs.head? = some (.parse request includes answer)
  ordered : xs.IsChain (Follows o tag stage)
  inner : ∀ x ∈ xs, x.isInner = true
  complete : ∀ x, xs.getLast? = some x → x.failure? o tag ≠ none ∨ x.output? o ≠ none

variable {o : CompilerOptions} {shader : ShaderSource} {tag : String} {stage : Stage}
  {d : Diagnostics} {xs : List (Exchange υ π)} {r : Except CompileFailure Compiled}

namespace Session

lemma isChain (h : Session o tag stage d xs r) : xs.IsChain (Follows o tag stage) := by
  induction h with
  | last => exact .singleton _
  | next _ hfollows _ ih => exact .cons_cons hfollows ih

variable {request : ParseRequest} {includes : Nat} {answer : Except ToolchainError (WithLog υ)}

lemma inner (h : Session o tag stage d (.parse request includes answer :: xs) r) :
    ∀ x ∈ (.parse request includes answer :: xs : List (Exchange υ π)), x.isInner = true :=
  h.isChain.induction (fun x => x.isInner = true) _ (fun _ _ hfollows _ => hfollows.isInner)
    fun _ => rfl

lemma isSession (h : Session o tag stage d (.parse request includes answer :: xs) r) :
    IsSession o tag stage (.parse request includes answer :: xs) := by
  refine ⟨⟨request, includes, answer, rfl⟩, h.isChain, h.inner, ?_⟩
  obtain ⟨ys, x, hxs, -, hends⟩ := h.ends
  rw [hxs]
  intro y hy
  obtain rfl : x = y := by simpa using hy
  cases hends with
  | failed he => exact .inl (by simp [he])
  | finished hout => exact .inr (by simp [hout])

end Session

def FailedAt (o : CompilerOptions) (tag : String) (es : List (Exchange υ π)) (f : CompileFailure) :
    Prop :=
  ∃ ys x rest, es = ys ++ x :: rest ∧ (rest = [] ∨ rest = [.release]) ∧
    (∀ y ∈ ys, y.failure? o tag = none) ∧
    x.failure? o tag = some f.error ∧ f.phase = x.phase

lemma FailedAt.behind {f : CompileFailure} {zs : List (Exchange υ π)} (h : FailedAt o tag xs f)
    (hzs : ∀ z ∈ zs, z.failure? o tag = none) : FailedAt o tag (zs ++ xs) f := by
  obtain ⟨ys, x, rest, hxs, hrest, hys, hx⟩ := h
  exact ⟨zs ++ ys, x, rest, by rw [hxs, List.append_assoc], hrest,
    List.forall_mem_append.mpr ⟨hzs, hys⟩, hx⟩

namespace Built

lemma shape (h : Built o shader stage d xs r) : (∃ e, xs = [.acquire (.error e)]) ∨
    ∃ mid, xs = .acquire (.ok ()) :: (mid ++ [.release]) ∧ IsSession o shader.tag stage mid := by
  cases h with
  | refused e => exact .inl ⟨e, rfl⟩
  | served hsession => exact .inr ⟨_, rfl, hsession.isSession⟩

lemma isToolCall (h : Built o shader stage d xs r) : ∀ x ∈ xs, x.isToolCall = true := by
  rcases h.shape with ⟨e, rfl⟩ | ⟨mid, rfl, hmid⟩
  · exact List.forall_mem_singleton.mpr rfl
  · rw [List.forall_mem_cons, List.forall_mem_append, List.forall_mem_singleton]
    exact ⟨rfl, fun x hx => isToolCall_of_isInner (hmid.inner x hx), rfl⟩

lemma failedAt {f : CompileFailure} (h : Built o shader stage d xs (.error f)) :
    FailedAt o shader.tag xs f := by
  cases h with
  | refused e => exact ⟨[], .acquire (.error e), [], rfl, .inl rfl, List.forall_mem_nil _, rfl, rfl⟩
  | served hsession =>
    obtain ⟨ys, x, hxs, hys, hends⟩ := hsession.ends
    have hx : FailedAt o shader.tag (ys ++ [x, .release]) f := by
      cases hends with
      | failed he => exact ⟨ys, x, [.release], rfl, .inr rfl, hys, he, rfl⟩
    rw [hxs, List.append_assoc]
    have hacquire : ∀ z ∈ [(.acquire (.ok ()) : Exchange υ π)], z.failure? o shader.tag = none :=
      List.forall_mem_singleton.mpr rfl
    exact hx.behind hacquire

end Built

def Explains (o : CompilerOptions) (tag : String) (es : List (Exchange υ π)) (f : CompileFailure) :
    Prop :=
  FailedAt o tag es f ∨ (∃ e, f.error = .preamble e ∧ f.phase = .start) ∨
    ∃ e, f.error = .stage e ∧ f.phase = .preprocessed

inductive Use (o : CompilerOptions) (shader : ShaderSource) :
    List (Exchange υ π) → Except CompileFailure Compiled → Prop
  | none {es : List (Exchange υ π)} {r : Except CompileFailure Compiled} :
      es.filter Exchange.isToolCall = [] →
      (o.mode = .preprocessOnly ∨ ∃ f, r = .error f ∧
        (f.phase = .start ∨ f.phase = .preprocessed)) →
      (∀ f, r = .error f → Explains o shader.tag es f) → Use o shader es r
  | behind {stage : Stage} {d : Diagnostics} {ys xs : List (Exchange υ π)}
      {r : Except CompileFailure Compiled} :
      o.mode ≠ .preprocessOnly → (∀ y ∈ ys, y.isToolCall = false ∧
        y.failure? o shader.tag = .none) →
      Built o shader stage d xs r → Use o shader (ys ++ xs) r

section

variable {given : Option Stage} {q : Preprocess.Request} {answer : Preprocess.Result}
  {prepared : Except CompileFailure Prepared} {es : List (Exchange υ π)} {f : CompileFailure}

lemma Preparation.explains (h : Preparation o tag (.preprocess q answer : Exchange υ π)
    (.error f)) : f.phase = .start ∧ Explains o tag [(.preprocess q answer : Exchange υ π)] f := by
  cases h with
  | failed he => exact ⟨rfl, .inl ⟨[], _, [], rfl, .inl rfl, List.forall_mem_nil _, he, rfl⟩⟩
  | unanchored e => exact ⟨rfl, .inr (.inl ⟨e, rfl, rfl⟩)⟩

lemma Course.use
    (hprepared : Preparation o shader.tag (.preprocess q answer : Exchange υ π) prepared)
    {said : Option Stage} {r : Except CompileFailure Compiled}
    (h : Course o shader given (.preprocess q answer) prepared said es r) :
    Use o shader es r := by
  cases h with
  | unprepared _ hf =>
    obtain ⟨hphase, hexplains⟩ := (hf ▸ hprepared).explains
    refine .none rfl (.inr ⟨_, rfl, .inl hphase⟩) ?_
    rintro _ ⟨⟩
    exact hexplains
  | onlyPrepared hmode => exact .none rfl (.inl hmode) fun _ hf => nomatch hf
  | given hmode _ hbuilt => exact .behind hmode (List.forall_mem_nil _) hbuilt
  | @misdeclared p e =>
    refine .none rfl (.inr ⟨_, rfl, .inr rfl⟩) ?_
    rintro _ ⟨⟩
    exact .inr (.inr ⟨e, rfl, rfl⟩)
  | declared hmode _ hp _ hbuilt =>
    exact .behind hmode (List.forall_mem_singleton.mpr ⟨rfl, (hp ▸ hprepared).failure_eq_none⟩)
      hbuilt
  | unresolved _ _ hp =>
    refine .none rfl (.inr ⟨_, rfl, .inr rfl⟩) ?_
    rintro _ ⟨⟩
    have hasked := (hp ▸ hprepared).failure_eq_none
    exact .inl ⟨[_], _, [], rfl, .inl rfl, List.forall_mem_singleton.mpr hasked, rfl, rfl⟩
  | @byFallback _ stage _ _ hmode _ hp _ _ hbuilt =>
    have hasked : ∀ y ∈ [(.preprocess q answer : Exchange υ π), .fallback shader.tag (some stage)],
        y.isToolCall = false ∧ y.failure? o shader.tag = none := by
      rw [List.forall_mem_cons, List.forall_mem_singleton]
      exact ⟨⟨rfl, (hp ▸ hprepared).failure_eq_none⟩, rfl, rfl⟩
    exact .behind hmode hasked hbuilt

end

theorem toolchain_protocol (s : Services ω υ π) (o : CompilerOptions) (shader : ShaderSource)
    (given : Option Stage) (fallback : String → ω → Option Stage × ω) (w : ω) :
    let es := exchanges s o shader given fallback w
    let calls := es.filter Exchange.isToolCall
    let result := (compile s o shader given fallback w).1
    (compile s.recorded o shader given (Services.recordedFallback fallback) (w, [])).2.2 =
      calls.filterMap call? ∧
    (calls = [] ∨ (∃ e, calls = [.acquire (.error e)]) ∨
      ∃ stage mid, calls = .acquire (.ok ()) :: (mid ++ [.release]) ∧
      IsSession o shader.tag stage mid) ∧
    (calls = [] ↔ o.mode = .preprocessOnly ∨
      ∃ f, result = .error f ∧ (f.phase = .start ∨ f.phase = .preprocessed)) ∧
    ∀ f, result = .error f → Explains o shader.tag es f := by
  intro es calls result
  refine ⟨(calls_recorded s o shader given fallback w).trans (filterMap_call? es).symm, ?_⟩
  have huse : Use o shader es result :=
    (course_compile s o shader given fallback w).use
      (preparation_prepare s o shader (s.resetIncludes w))
  have hcalls : calls = es.filter Exchange.isToolCall := rfl
  generalize es = es, result = result at huse hcalls
  cases huse with
  | none hnone hwhy hexplains =>
    have hnone := hcalls.trans hnone
    exact ⟨.inl hnone, ⟨fun _ => hwhy, fun _ => hnone⟩, hexplains⟩
  | @behind stage d ys xs _ hmode hys hbuilt =>
    have hxs : calls = xs := by
      rw [hcalls, List.filter_append, List.filter_eq_self.mpr hbuilt.isToolCall,
        List.filter_eq_nil_iff.mpr fun y hy => by simp [hys y hy], List.nil_append]
    rw [hxs]
    refine ⟨.inr (hbuilt.shape.imp_right fun h => ⟨stage, h⟩), ⟨?_, ?_⟩, ?_⟩
    · rintro rfl
      rcases hbuilt.shape with ⟨e, h⟩ | ⟨mid, h, -⟩ <;> cases h
    · rintro (h | ⟨f, rfl, hphase⟩)
      · exact absurd h hmode
      obtain ⟨zs, x, rest, rfl, -, -, -, hf⟩ := hbuilt.failedAt
      have hx := phase_of_isToolCall (hbuilt.isToolCall x (List.mem_append_cons_self ..))
      rw [← hf] at hx
      exact (hphase.elim hx.1 hx.2).elim
    · rintro f rfl
      exact .inl (hbuilt.failedAt.behind fun y hy => (hys y hy).2)

end Compile

end ShaderPipeline
