import ShaderPipeline.Macro.Invocation
import ShaderPipeline.Macro.Workload
/-! The level of a token that waits for replacement: how many macros will be enabled when it is
reached. -/

namespace ShaderPipeline.Macro

def eraseLast (names : List String) (name : String) : List String :=
  (names.reverse.erase name).reverse

theorem mem_of_mem_eraseLast {names : List String} {name x : String}
    (h : x ∈ eraseLast names name) : x ∈ names := by
  simpa using List.mem_of_mem_erase (List.mem_reverse.1 h)

@[simp] theorem eraseLast_append_self (names : List String) (name : String) :
    eraseLast (names ++ [name]) name = names := by
  simp [eraseLast]

namespace Table

def enabled? (t : Table) (disabled : List String) (name : String) : Option Macro :=
  if name ∈ disabled then none else t.find? name

def enabledCount (t : Table) (disabled : List String) : Nat :=
  (t.names.filter (· ∉ disabled)).length

theorem enabledCount_le_of_subset {t : Table} {d e : List String} (h : ∀ x ∈ d, x ∈ e) :
    t.enabledCount e ≤ t.enabledCount d := by
  unfold enabledCount
  rw [← List.countP_eq_length_filter, ← List.countP_eq_length_filter]
  exact List.countP_mono_left fun x _ hx => by simp at hx ⊢; exact fun hd => hx (h x hd)

theorem mem_names_of_find? {t : Table} {name : String} {m : Macro} (h : t.find? name = some m) :
    name ∈ t.names := by
  obtain ⟨entries⟩ := t
  simp only [find?, names] at h ⊢
  induction entries with
  | nil => simp at h
  | cons e entries ih =>
    rw [List.lookup_cons] at h
    split at h
    · rename_i hb
      simp [beq_iff_eq.1 hb]
    · simp [ih h]

theorem enabledCount_append_lt {t : Table} {d : List String} {name : String} {m : Macro}
    (h : t.enabled? d name = some m) : t.enabledCount (d ++ [name]) < t.enabledCount d := by
  unfold enabled? at h
  split at h
  · simp at h
  · rename_i hd
    have hn := mem_names_of_find? h
    have hf : t.names.filter (· ∉ d ++ [name]) = (t.names.filter (· ∉ d)).filter (· ≠ name) := by
      rw [List.filter_filter]
      congr 1
      funext x
      simp [not_or, Bool.and_comm]
    unfold enabledCount
    rw [hf]
    exact List.length_filter_lt_length_iff_exists.2 ⟨name, by simp [hn, hd], by simp⟩

def levels (t : Table) : List String → List Pending → List Nat
  | _, [] => []
  | d, .token _ :: q => t.enabledCount d :: levels t d q
  | d, .enable name :: q => levels t (eraseLast d name) q

def workload (t : Table) (d : List String) (q : List Pending) : Workload :=
  ⟨t.levels d q, q.length⟩

theorem levels_ofTokens_append (t : Table) (d : List String) (ts : List Token) (q : List Pending) :
    t.levels d (Pending.ofTokens ts ++ q) =
      List.replicate ts.length (t.enabledCount d) ++ t.levels d q := by
  induction ts with
  | nil => rfl
  | cons x ts ih =>
    simp only [Pending.ofTokens, List.map_cons, List.cons_append, levels, List.length_cons,
      List.replicate_succ]
    rw [← ih]
    rfl

theorem levels_ofTokens (t : Table) (d : List String) (ts : List Token) :
    t.levels d (Pending.ofTokens ts) = List.replicate ts.length (t.enabledCount d) := by
  have h := t.levels_ofTokens_append d ts []
  simpa [levels] using h

def Pays (t : Table) (d : List String) (taken : List Nat) (args : List (List Token)) : Prop :=
  (∀ n ∈ taken, t.enabledCount d ≤ n) ∧ ∀ arg ∈ args, arg.length ≤ taken.length

theorem Pays.of_eraseLast {t : Table} {d : List String} {name : String} {taken : List Nat}
    {args : List (List Token)} (h : t.Pays (eraseLast d name) taken args) : t.Pays d taken args :=
  ⟨fun n hn => Nat.le_trans (enabledCount_le_of_subset fun _ => mem_of_mem_eraseLast) (h.1 n hn),
    h.2⟩

theorem Pays.cons {t : Table} {d : List String} {taken : List Nat} {args : List (List Token)}
    (h : t.Pays d taken args) : t.Pays d (t.enabledCount d :: taken) args :=
  ⟨by simpa using h.1, fun arg ha => Nat.le_succ_of_le (h.2 arg ha)⟩

theorem Pays.push {t : Table} {d : List String} {taken : List Nat} {a : Arguments} (x : Token)
    (h : t.Pays d taken a.args) : t.Pays d (t.enabledCount d :: taken) (a.push x).args := by
  refine ⟨by simpa using h.1, fun arg ha => ?_⟩
  obtain ⟨args, enables, rest⟩ := a
  cases args with
  | nil =>
    obtain rfl : arg = [x] := by simpa [Arguments.push] using ha
    simp
  | cons b args =>
    rcases List.mem_cons.1 (by simpa [Arguments.push] using ha) with rfl | hm
    · simpa using h.2 b (by simp)
    · exact Nat.le_succ_of_le (h.2 arg (by simp [hm]))

theorem levels_of_collect? {t : Table} {q : List Pending} {k : Nat} {d : List String}
    {a : Arguments} (h : Arguments.collect? k q = some a) :
    ∃ taken, t.levels d q = taken ++ t.levels d (Pending.marks a.enables ++ a.rest) ∧
      t.Pays d taken a.args := by
  induction q generalizing k d a with
  | nil => simp [Arguments.collect?] at h
  | cons p q ih =>
    cases p with
    | enable name =>
      simp only [Arguments.collect?, Option.map_eq_some_iff] at h
      obtain ⟨b, hb, rfl⟩ := h
      obtain ⟨taken, e, hp⟩ := ih (d := eraseLast d name) hb
      exact ⟨taken, by simpa [levels, Arguments.mark, Pending.marks] using e, hp.of_eraseLast⟩
    | token x =>
      simp only [Arguments.collect?] at h
      split at h
      · obtain rfl := Option.some.inj h
        exact ⟨[t.enabledCount d], by simp [levels, Pending.marks], by simp [Pays]⟩
      split at h
      · simp only [Option.map_eq_some_iff] at h
        obtain ⟨b, hb, rfl⟩ := h
        obtain ⟨taken, e, hp⟩ := ih (d := d) hb
        refine ⟨t.enabledCount d :: taken, by simpa [levels, Arguments.nextArgument] using e, ?_⟩
        exact ⟨hp.cons.1, by simpa [Arguments.nextArgument] using hp.cons.2⟩
      · simp only [Option.map_eq_some_iff] at h
        obtain ⟨b, hb, rfl⟩ := h
        obtain ⟨taken, e, hp⟩ := ih (d := d) hb
        refine ⟨t.enabledCount d :: taken, ?_, hp.push x⟩
        have he : (b.push x).enables = b.enables ∧ (b.push x).rest = b.rest := by
          unfold Arguments.push
          split <;> exact ⟨rfl, rfl⟩
        simpa [levels, he.1, he.2] using e

theorem levels_of_opening {t : Table} {q rest : List Pending} {d names : List String}
    (h : opening q = .paren names rest) :
    ∃ taken, t.levels d q = taken ++ t.levels d (Pending.marks names ++ rest) ∧
      ∀ n ∈ taken, t.enabledCount d ≤ n := by
  induction q generalizing d names with
  | nil => simp [opening] at h
  | cons p q ih =>
    cases p with
    | enable name =>
      simp only [opening] at h
      split at h
      · rename_i ns r hq
        obtain ⟨rfl, rfl⟩ : name :: ns = names ∧ r = rest := by simpa using h
        obtain ⟨taken, e, hp⟩ := ih (d := eraseLast d name) hq
        exact ⟨taken, by simpa [levels, Pending.marks] using e, fun n hn =>
          Nat.le_trans (enabledCount_le_of_subset fun _ => mem_of_mem_eraseLast) (hp n hn)⟩
      · rename_i hne
        exact (hne _ _ h).elim
    | token x =>
      simp only [opening] at h
      split at h
      · obtain ⟨taken, e, hp⟩ := ih (d := d) h
        exact ⟨t.enabledCount d :: taken, by simpa [levels] using e, by simpa using hp⟩
      split at h
      · obtain ⟨rfl, rfl⟩ : [] = names ∧ q = rest := by simpa using h
        exact ⟨[t.enabledCount d], by simp [levels, Pending.marks], by simp⟩
      · simp at h

theorem levels_marks_append (t : Table) (d names : List String) (q : List Pending) :
    t.levels d (Pending.marks names ++ q) = t.levels (names.foldl eraseLast d) q := by
  induction names generalizing d with
  | nil => rfl
  | cons name names ih => exact ih _

theorem mem_of_mem_foldl_eraseLast {names d : List String} {x : String}
    (h : x ∈ names.foldl eraseLast d) : x ∈ d := by
  induction names generalizing d with
  | nil => exact h
  | cons name names ih => exact mem_of_mem_eraseLast (ih h)

theorem levels_of_invocation {t : Table} {q : List Pending} {d : List String} {a : Arguments}
    (h : invocation q = .arguments a) :
    ∃ taken, t.levels d q = taken ++ t.levels d (Pending.marks a.enables ++ a.rest) ∧
      t.Pays d taken a.args := by
  unfold invocation at h
  split at h
  · simp at h
  · simp at h
  · rename_i names r ho
    split at h
    · simp at h
    · rename_i b hb
      obtain rfl := Invocation.arguments.inj h
      obtain ⟨l₁, e₁, h₁⟩ := levels_of_opening (t := t) (d := d) ho
      obtain ⟨l₂, e₂, h₂⟩ := levels_of_collect? (t := t) (d := names.foldl eraseLast d) hb
      refine ⟨l₁ ++ l₂, ?_, fun n hn => ?_, fun arg ha => ?_⟩
      · rw [e₁, levels_marks_append, e₂, List.append_assoc]
        simp only [Pending.marks, List.map_append, List.append_assoc]
        congr 2
        exact (levels_marks_append t d names _).symm
      · rcases List.mem_append.1 hn with hn | hn
        · exact h₁ n hn
        · exact Nat.le_trans (enabledCount_le_of_subset fun _ => mem_of_mem_foldl_eraseLast)
            (h₂.1 n hn)
      · obtain ⟨arg, hm, rfl⟩ := List.mem_map.1 ha
        have := Token.length_trim_le arg
        have := h₂.2 arg hm
        rw [List.length_append]
        omega

open Relation

theorem workload_replacement_less {t : Table} {d : List String} {name : String}
    {m : Macro} {x : Token} {body : List Token} {names : List String} {taken : List Nat}
    {q rest : List Pending} (h : t.enabled? d name = some m)
    (hl : t.levels d q = taken ++ t.levels d (Pending.marks names ++ rest)) :
    (t.workload (d ++ [name])
      (Pending.ofTokens body ++ .enable name :: Pending.marks names ++ rest)).Less
      (t.workload d (.token x :: q)) := by
  apply Workload.less_of_descends
  have e :
      t.levels (d ++ [name]) (Pending.ofTokens body ++ .enable name ::
        Pending.marks names ++ rest) =
      List.replicate body.length (t.enabledCount (d ++ [name])) ++
        t.levels d (Pending.marks names ++ rest) := by
    rw [List.append_assoc, levels_ofTokens_append]
    simp [levels]
  simp only [workload, e, levels, hl]
  apply Descends.replace_dropping
  intro n hn
  rw [(List.mem_replicate.1 hn).2]
  exact enabledCount_append_lt h

theorem workload_body_less {t : Table} {d : List String} {name : String} {m : Macro} {x : Token}
    {body : List Token} {q : List Pending} (h : t.enabled? d name = some m) :
    (t.workload (d ++ [name]) (Pending.ofTokens body ++ .enable name :: q)).Less
      (t.workload d (.token x :: q)) := by
  have e : t.levels d q = [] ++ t.levels d (Pending.marks [] ++ q) := rfl
  simpa [Pending.marks] using @workload_replacement_less t d name m x body [] [] q q h e

theorem workload_argument_less {t : Table} {d : List String} {x : Token} {q rest : List Pending}
    {taken : List Nat} {args : List (List Token)} {arg : List Token}
    (hl : t.levels d q = taken ++ t.levels d rest) (hp : t.Pays d taken args) (ha : arg ∈ args) :
    (t.workload d (Pending.ofTokens arg)).Less (t.workload d (.token x :: q)) := by
  apply Workload.less_of_descends
  simp only [workload, levels_ofTokens, levels, hl]
  have h₁ :
      TransGen Descends (taken ++ t.levels d rest) (t.enabledCount d ::
        (taken ++ t.levels d rest)) :=
    .single (Descends.drop_head _ _)
  have h₂ : taken = taken ++ t.levels d rest ∨ TransGen Descends taken (taken ++ t.levels d rest) :=
    Descends.of_append_right _ _
  rcases Descends.replicate_of_le (hp.2 arg ha) hp.1 with e | h₃
  · rw [e]
    rcases h₂ with e₂ | h₂
    · rw [← e₂] at h₁ ⊢
      exact h₁
    · exact h₂.trans h₁
  · rcases h₂ with e₂ | h₂
    · rw [← e₂] at h₁ ⊢
      exact h₃.trans h₁
    · exact (h₃.trans h₂).trans h₁

theorem workload_token_less (t : Table) (d : List String) (x : Token) (q : List Pending) :
    (t.workload d q).Less (t.workload d (.token x :: q)) :=
  Workload.less_of_descends (.single (Descends.drop_head _ _))

theorem workload_enable_less (t : Table) (d : List String) (name : String) (q : List Pending) :
    (t.workload (eraseLast d name) q).Less (t.workload d (.enable name :: q)) :=
  Workload.less_of_size rfl (Nat.lt_succ_self _)

end Table

end ShaderPipeline.Macro
