import ShaderPipeline.Proofs.Macro.Rescan

/-! What holds of the queue, of the bodies of macros and of the values of builtins holds of all that
is written. -/

namespace ShaderPipeline

lemma Token.mem_of_mem_trim {ts : List Token} {x : Token} (h : x ∈ trim ts) : x ∈ ts := by
  have h₁ := (List.dropWhile_sublist _).subset (List.mem_reverse.mp h)
  exact (List.dropWhile_sublist _).subset (List.mem_reverse.mp h₁)

namespace Macro

lemma kind_of_value {b : Builtins} {name : String} {v : Token} (h : b.value? name = some v) :
    v.kind = .number := by
  simp only [Builtins.value?] at h
  split at h <;> grind [Token.number]

lemma mem_of_collect {q : List Pending} {k : Nat} {a : Arguments}
    (h : Arguments.collect? k q = some a) :
    (∀ arg ∈ a.args, ∀ x ∈ arg, .token x ∈ q) ∧ ∀ p ∈ a.rest, p ∈ q := by
  induction q generalizing k a with
  | nil => cases h
  | cons p q ih =>
    cases p with
    | enable name =>
      obtain ⟨c, hc, rfl⟩ := Option.map_eq_some_iff.mp h
      obtain ⟨ha, hr⟩ := ih hc
      exact ⟨fun arg harg x hx => .tail _ (ha arg harg x hx), fun p hp => .tail _ (hr p hp)⟩
    | token y =>
      simp only [Arguments.collect?] at h
      split at h
      · obtain rfl := Option.some.inj h
        exact ⟨by simp, fun p hp => .tail _ hp⟩
      split at h
      · obtain ⟨c, hc, rfl⟩ := Option.map_eq_some_iff.mp h
        obtain ⟨ha, hr⟩ := ih hc
        refine ⟨fun arg harg x hx => .tail _ ?_, fun p hp => .tail _ (hr p hp)⟩
        rcases List.mem_cons.mp harg with rfl | harg
        · cases hx
        · exact ha arg harg x hx
      · obtain ⟨c, hc, rfl⟩ := Option.map_eq_some_iff.mp h
        obtain ⟨ha, hr⟩ := ih hc
        refine ⟨fun arg harg x hx => ?_, fun p hp => ?_⟩
        · obtain ⟨args, enables, rest⟩ := c
          cases args with
          | nil =>
            obtain rfl : arg = [y] := by simpa [Arguments.push] using harg
            simp_all
          | cons arg' args =>
            rcases List.mem_cons.mp (show arg ∈ (y :: arg') :: args from harg) with rfl | harg
            · rcases List.mem_cons.mp hx with rfl | hx
              · exact .head _
              · exact .tail _ (ha arg' (.head _) x hx)
            · exact .tail _ (ha arg (.tail _ harg) x hx)
        · rw [(c.push_frame y).2] at hp
          exact .tail _ (hr p hp)

lemma mem_of_opening {q rest : List Pending} {ns : List String} (h : opening q = .paren ns rest) :
    ∀ p ∈ rest, p ∈ q := by
  induction q generalizing ns with
  | nil => cases h
  | cons p q ih =>
    cases p with
    | enable name =>
      simp only [opening] at h
      split at h
      · rename_i ms r hq
        obtain ⟨-, rfl⟩ : name :: ms = ns ∧ r = rest := by simpa using h
        exact fun p hp => .tail _ (ih hq p hp)
      · rename_i hne
        exact (hne _ _ h).elim
    | token x =>
      simp only [opening] at h
      split at h
      · exact fun p hp => .tail _ (ih h p hp)
      split at h
      · obtain ⟨-, rfl⟩ : [] = ns ∧ q = rest := by simpa using h
        exact fun p hp => .tail _ hp
      · cases h

lemma mem_of_invocation {q : List Pending} {a : Arguments} (h : invocation q = .arguments a) :
    (∀ arg ∈ a.args, ∀ x ∈ arg, .token x ∈ q) ∧ ∀ p ∈ a.rest, p ∈ q := by
  rw [invocation] at h
  split at h
  · cases h
  · cases h
  · rename_i ns r ho
    split at h
    · cases h
    · rename_i c hc
      obtain rfl := Invocation.arguments.inj h
      obtain ⟨ha, hr⟩ := mem_of_collect hc
      refine ⟨fun arg harg x hx => ?_, fun p hp => mem_of_opening ho p (hr p hp)⟩
      obtain ⟨arg', harg', rfl⟩ := List.mem_map.mp harg
      exact mem_of_opening ho _ (ha arg' harg' x (Token.mem_of_mem_trim hx))

lemma mem_of_mem_substitute {body : List Token} {params : List String}
    {args : List (List Token)} {x : Token} (h : x ∈ substitute body params args) :
    x ∈ body ∨ ∃ arg ∈ args, x ∈ arg := by
  obtain ⟨y, hy, hx⟩ := List.mem_flatMap.mp h
  have hxy : x ∈ [y] → x ∈ body := fun h => List.mem_singleton.mp h ▸ hy
  split at hx
  · cases hl : (params.zip args).lookup y.text with
    | none =>
      rw [hl] at hx
      exact .inl (hxy hx)
    | some arg =>
      rw [hl] at hx
      obtain ⟨l₁, l₂, he, -⟩ := List.lookup_eq_some_iff.mp hl
      have hm : (y.text, arg) ∈ params.zip args := by simp [he]
      exact .inr ⟨arg, (List.of_mem_zip hm).2, hx⟩
  · exact .inl (hxy hx)

namespace Table

variable {t : Table} {b : Builtins} {P : Token → Prop}

def Bodies (t : Table) (P : Token → Prop) : Prop :=
  ∀ name m, t.find? name = some m → ∀ x ∈ m.body, P x

def Carries (t : Table) (P : Token → Prop) : Prop :=
  ∀ x m, P x → x.kind = .ident → t.find? x.text = some m → ∀ y ∈ m.body, P y

lemma Bodies.carries (h : t.Bodies P) : t.Carries P :=
  fun x m _ _ hm => h x.text m hm

lemma lookup_cons_eq {β : Type} (n : String) (e : String × β) (entries : List (String × β)) :
    (e :: entries).lookup n = if n = e.1 then some e.2 else entries.lookup n := by
  rw [List.lookup_cons]
  cases he : n == e.1 <;> simp_all

lemma find_erase (t : Table) (name n : String) :
    (t.erase name).find? n = if n = name then none else t.find? n := by
  obtain ⟨entries⟩ := t
  simp only [find?, erase]
  induction entries with
  | nil => simp
  | cons e entries ih =>
    rw [List.filter_cons, lookup_cons_eq]
    by_cases he : e.1 = name
    · rw [if_neg (by simp [he]), ih]
      by_cases hn : n = name <;> simp [he, hn]
    · by_cases hn : n = e.1 <;> simp [he, hn, ih, lookup_cons_eq]

lemma find_insert (t : Table) (name n : String) (m : Macro) :
    (t.insert name m).find? n = if n = name then some m else t.find? n := by
  have hlookup : (t.insert name m).find? n = if n = name then some m else (t.erase name).find? n :=
    lookup_cons_eq n (name, m) _
  rw [hlookup, find_erase]
  by_cases hn : n = name <;> simp [hn]

lemma Bodies.erase {name : String} (h : t.Bodies P) : (t.erase name).Bodies P := by
  intro n m hm
  rw [find_erase] at hm
  split at hm
  · cases hm
  · exact h n m hm

lemma Bodies.insert {name : String} {m : Macro} (h : t.Bodies P) (hm : ∀ x ∈ m.body, P x) :
    (t.insert name m).Bodies P := by
  intro n m' hm'
  rw [find_insert] at hm'
  split at hm'
  · obtain rfl := Option.some.inj hm'
    exact hm
  · exact h n m' hm'

lemma Bodies.define {t' : Table} {name : String} {m : Macro} (h : t.Bodies P)
    (hm : ∀ x ∈ m.body, P x) (ht : t.define name m = .ok t') : t'.Bodies P := by
  have hi : t' = t.insert name m := by grind [Table.define]
  rw [hi]
  exact h.insert hm

lemma Bodies.undefine {t' : Table} {name : String} (h : t.Bodies P)
    (ht : t.undefine name = .ok t') : t'.Bodies P := by
  have he : t' = t.erase name := by grind [Table.undefine]
  rw [he]
  exact h.erase

def Tokens (P : Token → Prop) (q : List Pending) : Prop :=
  ∀ x, .token x ∈ q → P x

lemma find_of_enabled {d : List String} {name : String} {m : Macro}
    (h : t.enabled? d name = some m) : t.find? name = some m := by
  rw [enabled?] at h
  split at h
  · cases h
  · exact h

lemma ident_of_replace {o : Bool} {d : List String} {x : Token} {q : List Pending} {m : Macro}
    (h : t.action b o d x q = .replace m) : x.kind = .ident ∧ t.find? x.text = some m := by
  refine ⟨?_, find_of_enabled (enabled_of_replace h)⟩
  grind [action]

lemma ident_of_invoke {o : Bool} {d : List String} {x : Token} {q : List Pending} {m : Macro}
    {params : List String} {a : Arguments} (h : t.action b o d x q = .invoke m params a) :
    x.kind = .ident ∧ t.find? x.text = some m := by
  refine ⟨?_, find_of_enabled (enabled_of_invoke h).1⟩
  grind [action]

lemma Tokens.tail {p : Pending} {q : List Pending} (h : Tokens P (p :: q)) : Tokens P q :=
  fun x hx => h x (.tail _ hx)

lemma tokens_ofTokens {ts : List Token} : Tokens P (Pending.ofTokens ts) ↔ ∀ x ∈ ts, P x := by
  simp [Tokens, Pending.ofTokens]

lemma Tokens.replacement {ts : List Token} {name : String} {ns : List String} {q : List Pending}
    (hts : ∀ x ∈ ts, P x) (hq : Tokens P q) :
    Tokens P (Pending.ofTokens ts ++ .enable name :: Pending.marks ns ++ q) := by
  intro x hx
  rcases List.mem_append.mp hx with hx | hx
  · rcases List.mem_append.mp hx with hx | hx
    · exact tokens_ofTokens.mpr hts x hx
    · simp [Pending.marks] at hx
  · exact hq x hx

lemma tokens_of_replace {o : Bool} {q : List Pending} {d : List String} {x : Token} {m : Macro}
    (ht : t.Carries P) (hq : Tokens P (.token x :: q)) (ha : t.action b o d x q = .replace m) :
    Tokens P (Pending.ofTokens m.body ++ .enable x.text :: q) := by
  obtain ⟨hk, hm⟩ := ident_of_replace ha
  have hbody : Tokens P (Pending.ofTokens m.body ++ .enable x.text :: Pending.marks [] ++ q) :=
    Tokens.replacement (ht x m (hq x (.head _)) hk hm) hq.tail
  simpa [Pending.marks] using hbody

theorem forall_of_rescan {o : Bool} {q : List Pending} {d : List String} {r : Rescan}
    (hv : ∀ name v, b.value? name = some v → P v) (ht : t.Carries P) (hq : Tokens P q)
    (h : t.rescan b o q d = .ok r) : ∀ x ∈ r.out, P x := by
  induction o, q, d using rescan_induction t b generalizing r with
  | nil o d =>
    rw [rescan_nil] at h
    obtain rfl := Except.ok.inj h
    simp
  | enable o d name q ih => exact ih hq.tail (rescan_enable ▸ h)
  | write o d x q v ha ih =>
    rw [rescan_write ha] at h
    obtain ⟨s, hs, rfl⟩ := map_push_eq_ok h
    have hxv : P v := by
      have hx := hq x (.head _)
      grind [action]
    intro y hy
    rcases List.mem_cons.mp hy with rfl | hy
    · exact hxv
    · exact ih (r := s) hq.tail hs y hy
  | replace o d x q m ha ih => exact ih (tokens_of_replace ht hq ha) (rescan_replace ha ▸ h)
  | invoke o d x q m params a ha iha ih =>
    obtain ⟨hk, hm⟩ := ident_of_invoke ha
    obtain ⟨hargs, hrest⟩ := mem_of_invocation (enabled_of_invoke ha).2
    obtain ⟨args, hr, h'⟩ := invoke_eq_ok ha h
    have hout : ∀ out ∈ args, ∀ y ∈ out, P y := by
      intro out hout
      obtain ⟨arg, harg, s, hs, rfl⟩ := mem_replaceArguments hr hout
      exact iha arg harg (tokens_ofTokens.mpr fun y hy => hq.tail y (hargs arg harg y hy)) hs
    refine ih args hr (Tokens.replacement (fun y hy => ?_) fun y hy => hq.tail y (hrest _ hy)) h'
    rcases mem_of_mem_substitute hy with hy | ⟨out, ho, hy⟩
    · exact ht x m (hq x (.head _)) hk hm y hy
    · exact hout out ho y hy
  | wait o d x q ha =>
    rw [rescan_wait ha] at h
    obtain rfl := Except.ok.inj h
    simp
  | fail o d x q e ha =>
    rw [rescan_fail ha] at h
    cases h

lemma forall_of_expand {ts out : List Token} (hv : ∀ name v, b.value? name = some v → P v)
    (ht : t.Bodies P) (hts : ∀ x ∈ ts, P x) (h : t.expand b ts = .ok out) : ∀ x ∈ out, P x := by
  rw [expand] at h
  cases hr : t.rescan b false (Pending.ofTokens ts) [] with
  | error e =>
    rw [hr] at h
    cases h
  | ok r =>
    rw [hr] at h
    obtain rfl := Except.ok.inj h
    exact forall_of_rescan hv ht.carries (tokens_ofTokens.mpr hts) hr

lemma tokens_of_invoke {o : Bool} {q : List Pending} {d : List String} {x : Token} {m : Macro}
    {params : List String} {a : Arguments} {args : List (List Token)}
    (hv : ∀ name v, b.value? name = some v → P v) (ht : t.Carries P) (hq : Tokens P (.token x :: q))
    (ha : t.action b o d x q = .invoke m params a)
    (hr : t.replaceArguments b d a.args = .ok args) :
    Tokens P (Pending.ofTokens (substitute m.body params args) ++ .enable x.text ::
      Pending.marks a.enables ++ a.rest) := by
  obtain ⟨hk, hm⟩ := ident_of_invoke ha
  obtain ⟨hargs, hrest⟩ := mem_of_invocation (enabled_of_invoke ha).2
  apply Tokens.replacement
  · intro y hy
    rcases mem_of_mem_substitute hy with hy | ⟨out, ho, hy⟩
    · exact ht x m (hq x (.head _)) hk hm y hy
    · obtain ⟨arg, harg, s, hs, rfl⟩ := mem_replaceArguments hr ho
      exact forall_of_rescan hv ht (tokens_ofTokens.mpr fun z hz => hq.tail z (hargs arg harg z hz))
        hs y hy
  · exact fun y hy => hq.tail y (hrest _ hy)

theorem rescan_congr {t' : Table} {b' : Builtins} {o : Bool} {q : List Pending} {d : List String}
    (hx : ∀ x, P x → x.kind = .ident → b.value? x.text = b'.value? x.text ∧
      t.find? x.text = t'.find? x.text)
    (hv : ∀ name v, b.value? name = some v → P v) (ht : t.Carries P) (hq : Tokens P q) :
    t.rescan b o q d = t'.rescan b' o q d := by
  have haction : ∀ {o d q} {x : Token}, Tokens P (.token x :: q) →
      t'.action b' o d x q = t.action b o d x q := by
    intro o d q x hq
    by_cases hk : x.kind = .ident
    · obtain ⟨hvalue, hfind⟩ := hx x (hq x (.head _)) hk
      simp only [action, enabled?, hvalue, hfind]
    · simp only [action, ne_eq, hk, not_false_eq_true, if_true]
  induction o, q, d using rescan_induction t b with
  | nil o d => rw [rescan_nil, rescan_nil]
  | enable o d name q ih => rw [rescan_enable, rescan_enable, ih hq.tail]
  | write o d x q v ha ih => rw [rescan_write ha, rescan_write ((haction hq).trans ha), ih hq.tail]
  | replace o d x q m ha ih =>
    rw [rescan_replace ha, rescan_replace ((haction hq).trans ha), ih (tokens_of_replace ht hq ha)]
  | invoke o d x q m params a ha iha ih =>
    have hargs := (mem_of_invocation (enabled_of_invoke ha).2).1
    have harg : ∀ arg ∈ a.args, Tokens P (Pending.ofTokens arg) := fun arg harg =>
      tokens_ofTokens.mpr fun y hy => hq.tail y (hargs arg harg y hy)
    have he : t'.replaceArguments b' d a.args = t.replaceArguments b d a.args :=
      replaceArguments_congr fun arg h => (iha arg h (harg arg h)).symm
    rw [rescan_invoke ha, rescan_invoke ((haction hq).trans ha), he]
    cases hr : t.replaceArguments b d a.args with
    | error e => rfl
    | ok args =>
      exact ih args hr (tokens_of_invoke hv ht hq ha hr)
  | wait o d x q ha => rw [rescan_wait ha, rescan_wait ((haction hq).trans ha)]
  | fail o d x q e ha => rw [rescan_fail ha, rescan_fail ((haction hq).trans ha)]

end Table

end Macro

end ShaderPipeline
