import ShaderPipeline.Proofs.Preprocess.Act
import ShaderPipeline.Proofs.Preprocess.Written

namespace ShaderPipeline.Preprocess

namespace Item

def EndsLine (x : Item) : Prop :=
  ∃ cs, x.render.toList = cs ++ ['\n']

lemma endsLine_append {x : Item} {s : String} (h : x.render = s ++ "\n") : x.EndsLine :=
  ⟨s.toList, by rw [h, String.toList_append]; rfl⟩

lemma endsLine_text (ts : List Token) {n : Nat} (hn : 0 < n) : EndsLine (.text ts n) := by
  obtain ⟨n, rfl⟩ := Nat.exists_eq_add_of_lt hn
  refine ⟨(Token.join ts).toList ++ List.replicate n '\n', ?_⟩
  rw [render, String.toList_append, String.toList_ofList, Nat.zero_add, List.replicate_succ',
    List.append_assoc]

lemma endsLine_directive (word : String) (args : List Token) {x : Item}
    (h : x.render = directiveLine word args) : x.EndsLine :=
  endsLine_append h

lemma endsLine_resume (nextLine : Bool) (l : LineNumber) (name : String) {x : Item}
    (h : x.render = LineNumber.resume nextLine l name) : x.EndsLine :=
  ⟨resumeRow nextLine l name, by rw [h, toList_resume]⟩

theorem isClosed_renderAll {xs : List Item} (h : ∀ x ∈ xs, x.EndsLine) :
    Text.IsClosed (renderAll xs).toList := by
  have htext : (renderAll xs).toList = xs.flatMap (·.render.toList) := by
    rw [renderAll, String.toList_join, List.flatMap_map]
  rcases List.eq_nil_or_concat xs with rfl | ⟨xs, x, rfl⟩
  · exact Text.isClosed_replicate 0
  · obtain ⟨cs, hx⟩ := h x (by simp)
    rw [htext, List.concat_eq_append, List.flatMap_append, List.flatMap_singleton, hx,
      ← List.append_assoc]
    exact Text.isClosed_append_singleton

end Item

open Item

variable {σ : Type} {r : Reading σ}

def Run.EndsLines (run : Run σ) : Prop :=
  ∀ x ∈ run.items.toList, x.EndsLine

lemma Run.EndsLines.emit {run : Run σ} {x : Item} (h : run.EndsLines) (hx : x.EndsLine) :
    (run.emit x).EndsLines := by
  intro y hy
  rw [Run.emit, Array.toList_push] at hy
  rcases List.mem_append.mp hy with hy | hy
  · exact h y hy
  · exact List.mem_singleton.mp hy ▸ hx

namespace Reading

lemma place_declareVersion (r : Reading σ) (args : List Token) :
    (r.declareVersion args).place = r.place := by
  rw [declareVersion]
  split
  · rfl
  dsimp only
  split
  · rfl
  · split <;> rfl

lemma items_declareVersion (r : Reading σ) (args : List Token) :
    (r.declareVersion args).run.items = r.run.items := by
  rw [declareVersion]
  split
  · rfl
  dsimp only
  split
  · rfl
  · split <;> rfl

lemma endsLines_enter (h : r.run.EndsLines) {descend : Included → Nat → Run σ → Run σ}
    (hd : ∀ source file run, Run.EndsLines run → (descend source file run).EndsLines)
    (found : Included) : (r.enter descend found).run.EndsLines := by
  have hcounted : Run.EndsLines { r.run with files := r.run.files + 1 } := h
  have hentered := hcounted.emit (endsLine_resume _ _ _ rfl (x := .enter r.run.nextLine found))
  exact (hd found _ _ hentered).emit (endsLine_resume _ _ _ rfl)

lemma lines_of_isPending {h : Held} (hp : r.IsPending h)
    (hheld : ∀ h, r.place.held = some h → 0 < h.lines) : 0 < h.lines := by
  rcases hp with hp | ⟨ts, rfl⟩
  · exact hheld h hp
  · rw [extendHeld]
    split <;> exact Nat.succ_pos _

end Reading

theorem invariant_endsLines (inc : Includer σ) : Run.Invariant inc Run.EndsLines
    fun r => r.run.EndsLines ∧ ∀ h, r.place.held = some h → 0 < h.lines where
  start name depth file run h := ⟨h, by simp⟩
  act descent r r' hd hr hact := by
    obtain ⟨h, hheld⟩ := hr
    cases hact with
    | fault | groups | define | undefine | includes | advance => exact ⟨h, hheld⟩
    | blank => exact ⟨h.emit ⟨[], rfl⟩, hheld⟩
    | version args ht =>
      constructor
      · intro x hx
        rw [Reading.items_declareVersion] at hx
        exact h.emit (endsLine_directive _ _ rfl) x hx
      · rwa [Reading.place_declareVersion]
    | extension name behavior => exact ⟨h.emit (endsLine_append rfl), hheld⟩
    | pragma args => exact ⟨h.emit (endsLine_directive _ _ rfl), hheld⟩
    | renumber args => exact ⟨h.emit (endsLine_directive _ _ rfl), hheld⟩
    | hold ts =>
      refine ⟨h, ?_⟩
      rintro _ ⟨⟩
      exact Reading.lines_of_isPending (.inr ⟨ts, rfl⟩) hheld
    | write out hp =>
      refine ⟨h.emit (endsLine_text out (Reading.lines_of_isPending hp hheld)), ?_⟩
      rintro _ ⟨⟩
    | missed => exact ⟨Run.EndsLines.emit h ⟨[], rfl⟩, hheld⟩
    | entered hdescend =>
      exact ⟨Reading.endsLines_enter (r := r.ask inc _) h (hd _ hdescend) _, hheld⟩
  finish r hr := hr.1
  report r g hr := hr.1

end ShaderPipeline.Preprocess
