/-! A well-founded order on lists of levels: an entry may give way to any number of smaller ones. -/

namespace ShaderPipeline.Macro

/-- `Descends new old`: one entry of `old` is replaced by smaller ones. -/
inductive Descends : List Nat → List Nat → Prop
  | head {n : Nat} {new rest : List Nat} : (∀ m ∈ new, m < n) → Descends (new ++ rest) (n :: rest)
  | tail {n : Nat} {new old : List Nat} : Descends new old → Descends (n :: new) (n :: old)

namespace Descends

theorem acc_nil : Acc Descends [] :=
  ⟨_, fun _ h => nomatch h⟩

theorem acc_append {new rest : List Nat} (hr : Acc Descends rest)
    (hn : ∀ m ∈ new, ∀ l, Acc Descends l → Acc Descends (m :: l)) : Acc Descends (new ++ rest) := by
  induction new with
  | nil => exact hr
  | cons m new ih =>
    exact hn m (by simp) _ (ih fun k hk => hn k (by simp [hk]))

theorem acc_cons (n : Nat) : ∀ l, Acc Descends l → Acc Descends (n :: l) := by
  induction n using Nat.strongRecOn with
  | ind n ihn =>
    intro l hl
    induction hl with
    | intro l hl ihl =>
      refine ⟨_, fun k hk => ?_⟩
      cases hk with
      | head hnew => exact acc_append ⟨_, hl⟩ fun m hm => ihn m (hnew m hm)
      | tail h => exact ihl _ h

theorem wellFounded : WellFounded Descends := by
  refine ⟨fun l => ?_⟩
  induction l with
  | nil => exact acc_nil
  | cons n l ih => exact acc_cons n l ih

end Descends

structure Workload where
  levels : List Nat
  size : Nat

namespace Workload

def Less (a b : Workload) : Prop :=
  Prod.Lex (Relation.TransGen Descends) (· < ·) (a.levels, a.size) (b.levels, b.size)

theorem Less.wellFounded : WellFounded Less :=
  InvImage.wf (fun w : Workload => (w.levels, w.size))
    (Prod.lex ⟨_, Descends.wellFounded.transGen⟩ Nat.lt_wfRel).wf

instance : WellFoundedRelation Workload := ⟨Less, Less.wellFounded⟩

theorem less_of_descends {a b : Workload} (h : Relation.TransGen Descends a.levels b.levels) :
    Less a b :=
  .left _ _ h

theorem less_of_size {a b : Workload} (h : a.levels = b.levels) (hs : a.size < b.size) :
    Less a b := by
  unfold Less
  rw [h]
  exact .right _ hs

end Workload

namespace Descends

open Relation

theorem drop_head (n : Nat) (l : List Nat) : Descends l (n :: l) :=
  show Descends ([] ++ l) (n :: l) from .head (by simp)

theorem of_append (l₁ l₂ : List Nat) : l₂ = l₁ ++ l₂ ∨ TransGen Descends l₂ (l₁ ++ l₂) := by
  induction l₁ with
  | nil => exact .inl rfl
  | cons n l₁ ih =>
    rcases ih with h | h
    · rw [List.cons_append, ← h]
      exact .inr (.single (drop_head n l₂))
    · exact .inr (h.tail (drop_head n _))

theorem cons_transGen {n : Nat} {new old : List Nat} (h : TransGen Descends new old) :
    TransGen Descends (n :: new) (n :: old) := by
  induction h with
  | single h => exact .single h.tail
  | tail _ h ih => exact ih.tail h.tail

theorem of_append_right (l₁ l₂ : List Nat) : l₁ = l₁ ++ l₂ ∨ TransGen Descends l₁ (l₁ ++ l₂) := by
  induction l₁ with
  | nil => simpa using of_append l₂ []
  | cons n l₁ ih =>
    rcases ih with h | h
    · exact .inl (congrArg (n :: ·) h)
    · exact .inr (cons_transGen h)

theorem replace_dropping {n : Nat} {new l₁ l₂ : List Nat} (h : ∀ m ∈ new, m < n) :
    TransGen Descends (new ++ l₂) (n :: (l₁ ++ l₂)) := by
  rcases of_append l₁ l₂ with e | d
  · rw [← e]
    exact .single (.head h)
  · exact (TransGen.single (Descends.head h)).trans (cons_transGen d)

theorem replicate_of_le {n k : Nat} {l : List Nat} (hk : k ≤ l.length) (h : ∀ m ∈ l, n ≤ m) :
    List.replicate k n = l ∨ TransGen Descends (List.replicate k n) l := by
  induction l generalizing k with
  | nil =>
    obtain rfl : k = 0 := by simpa using hk
    exact .inl rfl
  | cons m l ih =>
    cases k with
    | zero =>
      rcases of_append (m :: l) [] with e | d
      · simp at e
      · rw [List.append_nil] at d
        exact .inr d
    | succ k =>
      rw [List.replicate_succ]
      have hl := ih (by simpa using hk) fun j hj => h j (by simp [hj])
      have hm : n ≤ m := h m (by simp)
      rcases Nat.lt_or_eq_of_le hm with hlt | rfl
      · have step : Descends ([n] ++ l) (m :: l) := .head (by simpa using hlt)
        rcases hl with e | d
        · rw [e]
          exact .inr (.single step)
        · exact .inr ((cons_transGen d).tail step)
      · rcases hl with e | d
        · rw [e]
          exact .inl rfl
        · exact .inr (cons_transGen d)

end Descends

end ShaderPipeline.Macro
