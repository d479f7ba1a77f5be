import Mathlib.Tactic.Lemma
import ShaderPipeline.Compile

/-! Services that answer alike, whatever states they keep, lead to compiles that end alike. -/

namespace ShaderPipeline

variable {ω ω' υ π : Type}

def Agree {α : Type} (R : ω → ω' → Prop) (a : α × ω) (b : α × ω') : Prop :=
  a.1 = b.1 ∧ R a.2 b.2

lemma Agree.exists {α : Type} {R : ω → ω' → Prop} {a : α × ω} {b : α × ω'} (h : Agree R a b) :
    ∃ x w v, a = (x, w) ∧ b = (x, v) ∧ R w v :=
  ⟨b.1, a.2, b.2, Prod.ext h.1 rfl, rfl, h.2⟩

/-- Related services. The states are related by `R` from a reset of the includes to the parsing of
the source, and by the weaker `S` behind that, up to the next reset. -/
structure Services.Agrees (R S : ω → ω' → Prop) (s : Services ω υ π) (t : Services ω' υ π) :
    Prop where
  weaken : ∀ w v, R w v → S w v
  preprocess : ∀ request w v, R w v → Agree R (s.preprocess request w) (t.preprocess request v)
  includeCount : ∀ w v, R w v → s.includeCount w = t.includeCount v
  resetIncludes : ∀ w v, S w v → R (s.resetIncludes w) (t.resetIncludes v)
  acquire : ∀ w v, R w v → Agree R (s.acquire w) (t.acquire v)
  parse : ∀ request w v, R w v → Agree S (s.parse request w) (t.parse request v)
  link : ∀ unit w v, S w v → Agree S (s.link unit w) (t.link unit v)
  generate : ∀ program stage w v, S w v →
    Agree S (s.generate program stage w) (t.generate program stage v)
  release : ∀ w v, S w v → S (s.release w) (t.release v)
  disassemble : ∀ words w v, S w v → Agree S (s.disassemble words w) (t.disassemble words v)

namespace Compile

variable {R S : ω → ω' → Prop} {s : Services ω υ π} {t : Services ω' υ π} {w : ω} {v : ω'}

lemma agree_runStages (h : s.Agrees R S t) (hw : R w v) (o : CompilerOptions)
    (shader : ShaderSource) (stage : Stage) (d : Diagnostics) :
    Agree S (runStages s o shader stage d w) (runStages t o shader stage d v) := by
  unfold runStages
  obtain ⟨a, w, v, ha, hb, hw⟩ := (h.parse (parseRequest o shader stage) w v hw).exists
  rw [ha, hb]
  rcases a with e | parsed
  · exact ⟨rfl, hw⟩
  dsimp only
  rcases accept o shader.tag d parsed with ⟨_ | unit, d⟩
  · exact ⟨rfl, hw⟩
  obtain ⟨a, w, v, ha, hb, hw⟩ := (h.link unit w v hw).exists
  dsimp only
  rw [ha, hb]
  rcases a with e | linked
  · exact ⟨rfl, hw⟩
  dsimp only
  rcases accept o shader.tag d linked with ⟨_ | program, d⟩
  · exact ⟨rfl, hw⟩
  obtain ⟨a, w, v, ha, hb, hw⟩ := (h.generate program stage w v hw).exists
  dsimp only
  rw [ha, hb]
  rcases a with e | words
  · exact ⟨rfl, hw⟩
  dsimp only
  split
  · obtain ⟨a, w, v, ha, hb, hw⟩ := (h.disassemble words w v hw).exists
    rw [ha, hb]
    rcases a with e | text
    · exact ⟨rfl, hw⟩
    · exact ⟨rfl, hw⟩
  · exact ⟨rfl, hw⟩

lemma agree_build (h : s.Agrees R S t) (hw : R w v) (o : CompilerOptions) (shader : ShaderSource)
    (stage : Stage) (d : Diagnostics) :
    Agree S (build s o shader stage d w) (build t o shader stage d v) := by
  unfold build
  obtain ⟨a, w, v, ha, hb, hw⟩ := (h.acquire w v hw).exists
  rw [ha, hb]
  rcases a with e | ⟨⟩
  · exact ⟨rfl, h.weaken _ _ hw⟩
  · obtain ⟨hresult, hw⟩ := agree_runStages h hw o shader stage d
    exact ⟨hresult, h.release _ _ hw⟩

lemma agree_prepare (h : s.Agrees R S t) (hw : R w v) (o : CompilerOptions)
    (shader : ShaderSource) : Agree R (prepare s o shader w) (prepare t o shader v) := by
  unfold prepare
  obtain ⟨a, w, v, ha, hb, hw⟩ := (h.preprocess (preprocessRequest o shader) w v hw).exists
  rw [ha, hb]
  dsimp only
  rw [h.includeCount w v hw]
  split
  · split
    · exact ⟨rfl, hw⟩
    · exact ⟨rfl, hw⟩
  · exact ⟨rfl, hw⟩

variable {fallback : String → ω → Option Stage × ω} {fallback' : String → ω' → Option Stage × ω'}

lemma agree_resolveStage (hf : ∀ tag w v, R w v → Agree R (fallback tag w) (fallback' tag v))
    (hw : R w v) (shader : ShaderSource) (p : Prepared) :
    Agree R (resolveStage shader fallback p w) (resolveStage shader fallback' p v) := by
  unfold resolveStage
  split
  · exact ⟨rfl, hw⟩
  · exact ⟨rfl, hw⟩
  · obtain ⟨a, w, v, ha, hb, hw⟩ := (hf shader.tag w v hw).exists
    rw [ha, hb]
    rcases a with _ | stage
    · exact ⟨rfl, hw⟩
    · exact ⟨rfl, hw⟩

theorem agree_compile (h : s.Agrees R S t)
    (hf : ∀ tag w v, R w v → Agree R (fallback tag w) (fallback' tag v)) (hw : S w v)
    (o : CompilerOptions) (shader : ShaderSource) (stage : Option Stage) :
    Agree S (compile s o shader stage fallback w) (compile t o shader stage fallback' v) := by
  have hw := h.resetIncludes w v hw
  unfold compile
  generalize s.resetIncludes w = w at hw
  generalize t.resetIncludes v = v at hw
  dsimp only
  obtain ⟨a, w₁, v₁, ha, hb, hprepared⟩ := (agree_prepare h hw o shader).exists
  split
  · rw [ha, hb]
    rcases a with f | p
    · exact ⟨rfl, h.weaken _ _ hprepared⟩
    · exact ⟨rfl, h.weaken _ _ hprepared⟩
  · exact agree_build h hw o shader _ _
  · rw [ha, hb]
    rcases a with f | p
    · exact ⟨rfl, h.weaken _ _ hprepared⟩
    obtain ⟨a, w, v, ha, hb, hw⟩ := (agree_resolveStage hf hprepared shader p).exists
    dsimp only
    rw [ha, hb]
    rcases a with f | stage
    · exact ⟨rfl, h.weaken _ _ hw⟩
    · exact agree_build h hw o shader stage _

end Compile

end ShaderPipeline
