import ShaderPipeline.Proofs.Macro.Rescan

/-! What is appended to the queue of a scan that completes is scanned after it as if it stood
alone. -/

namespace ShaderPipeline.Macro

def Arguments.followedBy (a : Arguments) (q : List Pending) : Arguments :=
  { a with rest := a.rest ++ q }

lemma Arguments.followedBy_push (a : Arguments) (x : Token) (q : List Pending) :
    (a.push x).followedBy q = (a.followedBy q).push x := by
  obtain ⟨args, enables, rest⟩ := a
  cases args <;> rfl

lemma collect_append {q : List Pending} {k : Nat} {a : Arguments}
    (h : Arguments.collect? k q = some a) (q' : List Pending) :
    Arguments.collect? k (q ++ q') = some (a.followedBy q') := by
  induction q generalizing k a with
  | nil => cases h
  | cons p q ih =>
    cases p with
    | enable name =>
      obtain ⟨c, hc, rfl⟩ := Option.map_eq_some_iff.mp h
      exact Option.map_eq_some_iff.mpr ⟨_, ih hc, rfl⟩
    | token x =>
      simp only [Arguments.collect?, List.cons_append] at h ⊢
      split at h
      · rename_i hx
        obtain rfl := Option.some.inj h
        rw [if_pos hx]
        rfl
      rename_i hx
      rw [if_neg hx]
      split at h
      · rename_i hy
        obtain ⟨c, hc, rfl⟩ := Option.map_eq_some_iff.mp h
        rw [if_pos hy]
        exact Option.map_eq_some_iff.mpr ⟨_, ih hc, rfl⟩
      · rename_i hy
        rw [if_neg hy]
        obtain ⟨c, hc, rfl⟩ := Option.map_eq_some_iff.mp h
        exact Option.map_eq_some_iff.mpr ⟨_, ih hc, (c.followedBy_push x q').symm⟩

lemma opening_append {q : List Pending} (h : opening q ≠ .ended) (q' : List Pending) :
    opening (q ++ q') =
      match opening q with
      | .paren names rest => .paren names (rest ++ q')
      | o => o := by
  induction q with
  | nil => exact (h rfl).elim
  | cons p q ih =>
    cases p with
    | enable name =>
      have hq : opening q ≠ .ended := by
        intro he
        simp [opening, he] at h
      simp only [opening, List.cons_append, ih hq]
      cases opening q <;> rfl
    | token x =>
      simp only [opening, List.cons_append] at h ⊢
      split
      · rename_i hx
        rw [if_pos hx] at h
        exact ih h
      split <;> rfl

lemma invocation_append {q : List Pending} (h : ∀ u, invocation q ≠ .incomplete u)
    (q' : List Pending) :
    invocation (q ++ q') =
      match invocation q with
      | .arguments a => .arguments (a.followedBy q')
      | i => i := by
  have ho : opening q ≠ .ended := by
    intro he
    exact h false (by simp [invocation, he])
  simp only [invocation] at h ⊢
  rw [opening_append ho q']
  cases hq : opening q with
  | ended => exact (ho hq).elim
  | other => rfl
  | paren names rest =>
    rw [hq] at h
    cases hc : Arguments.collect? 0 rest with
    | none => exact (h true (by simp [hc])).elim
    | some a =>
      simp only [hc, collect_append hc q']
      rfl

namespace Table

variable {t : Table} {b : Builtins} {o : Bool} {d : List String} {x : Token} {q : List Pending}

lemma action_append (h : t.action b true d x q ≠ .wait) (q' : List Pending) (o : Bool) :
    t.action b o d x (q ++ q') =
      match t.action b true d x q with
      | .invoke m params a => .invoke m params (a.followedBy q')
      | c => c := by
  simp only [action] at h ⊢
  by_cases hx : x.kind ≠ .ident
  · simp only [if_pos hx]
  simp only [if_neg hx] at h ⊢
  cases hv : b.value? x.text with
  | some v => rfl
  | none =>
    cases hm : t.enabled? d x.text with
    | none => rfl
    | some m =>
      cases hp : m.params with
      | none => simp only [hp]
      | some params =>
        simp only [hv, hm, hp] at h ⊢
        have hi : ∀ u, invocation q ≠ .incomplete u := by
          intro u hu
          simp [hu] at h
        rw [invocation_append hi q']
        cases hq : invocation q with
        | notInvoked => rfl
        | incomplete u => exact (hi u hq).elim
        | arguments a =>
          by_cases hf : fits params a.args
          · simp only [Arguments.followedBy, hf, if_true]
          · simp only [Arguments.followedBy, hf, if_false, Bool.false_eq_true]

end Table

def Rescan.prepend (ts : List Token) (r : Rescan) : Rescan :=
  { r with out := ts ++ r.out }

lemma map_prepend_nil (r : Except Error Rescan) : r.map (.prepend []) = r := by
  cases r <;> rfl

lemma map_prepend_push (r : Except Error Rescan) (v : Token) (ts : List Token) :
    (r.map (Rescan.prepend ts)).map (Rescan.push v) = r.map (Rescan.prepend (v :: ts)) := by
  cases r <;> rfl

namespace Table

variable {t : Table} {b : Builtins} {q : List Pending} {d : List String}

theorem rescan_append {r : Rescan} (h : t.rescan b true q d = .ok r)
    (hc : r.complete = true) (o : Bool) (q' : List Pending) :
    t.rescan b o (q ++ q') d = (t.rescan b o q' r.disabled).map (.prepend r.out) := by
  -- a scan that completes never waits, so that every action is the same in front of the longer
  -- queue
  generalize ho : true = open' at h
  induction open', q, d using rescan_induction t b generalizing r with
  | nil _ d =>
    rw [rescan_nil] at h
    obtain rfl := Except.ok.inj h
    exact (map_prepend_nil _).symm
  | enable _ d name q ih =>
    rw [List.cons_append, rescan_enable]
    exact ih hc ho (rescan_enable ▸ h)
  | write _ d x q v ha ih =>
    subst ho
    have ha' := action_append (by rw [ha]; exact Action.noConfusion) q' o
    rw [ha] at ha'
    rw [rescan_write ha] at h
    obtain ⟨s, hs, rfl⟩ := map_push_eq_ok h
    have hs' := ih (r := s) hc rfl hs
    rw [List.cons_append, rescan_write ha', hs', map_prepend_push]
    rfl
  | replace _ d x q m ha ih =>
    subst ho
    have ha' := action_append (by rw [ha]; exact Action.noConfusion) q' o
    rw [ha] at ha'
    rw [List.cons_append, rescan_replace ha', ← ih hc rfl (rescan_replace ha ▸ h)]
    simp only [List.append_assoc, List.cons_append]
  | invoke _ d x q m params a ha _ ih =>
    subst ho
    have ha' := action_append (by rw [ha]; exact Action.noConfusion) q' o
    rw [ha] at ha'
    obtain ⟨args, hargs, hr⟩ := invoke_eq_ok ha h
    rw [List.cons_append, rescan_invoke ha']
    simp only [Arguments.followedBy, hargs]
    rw [← ih args hargs hc rfl hr]
    simp only [List.append_assoc, List.cons_append]
  | wait _ d x q ha =>
    rw [rescan_wait ha] at h
    obtain rfl := Except.ok.inj h
    cases hc
  | fail _ d x q e ha =>
    rw [rescan_fail ha] at h
    cases h

lemma rescan_ofTokens_append {ts out : List Token} (h : t.expandOpen b ts = .ok (some out))
    (o : Bool) (us : List Token) :
    t.rescan b o (Pending.ofTokens (ts ++ us)) [] =
      (t.rescan b o (Pending.ofTokens us) []).map (.prepend out) := by
  rw [expandOpen] at h
  cases hr : t.rescan b true (Pending.ofTokens ts) [] with
  | error e =>
    rw [hr] at h
    cases h
  | ok r =>
    rw [hr] at h
    obtain ⟨hc, rfl⟩ : r.complete = true ∧ r.out = out := by simpa [Except.map] using h
    have hd : r.disabled = [] := by
      rw [disabled_of_complete hr hc, Pending.names_ofTokens]
      rfl
    have happ := rescan_append hr hc o (Pending.ofTokens us)
    rw [hd] at happ
    rw [← happ]
    simp only [Pending.ofTokens, List.map_append]

theorem expand_append {ts out : List Token} (h : t.expandOpen b ts = .ok (some out))
    (us : List Token) : t.expand b (ts ++ us) = (t.expand b us).map (out ++ ·) := by
  simp only [expand]
  rw [rescan_ofTokens_append h]
  cases t.rescan b false (Pending.ofTokens us) [] <;> rfl

theorem expandOpen_append {ts out : List Token} (h : t.expandOpen b ts = .ok (some out))
    (us : List Token) : t.expandOpen b (ts ++ us) = (t.expandOpen b us).map (·.map (out ++ ·)) := by
  simp only [expandOpen]
  rw [rescan_ofTokens_append h]
  cases t.rescan b true (Pending.ofTokens us) [] with
  | error e => rfl
  | ok r =>
    obtain ⟨us', complete, disabled⟩ := r
    cases complete <;> rfl

lemma expand_nil : t.expand b [] = .ok [] := by
  simp only [expand, Pending.ofTokens, List.map_nil, rescan_nil]
  rfl

theorem expand_of_expandOpen {ts out : List Token} (h : t.expandOpen b ts = .ok (some out)) :
    t.expand b ts = .ok out := by
  have he := expand_append h []
  rw [List.append_nil, expand_nil] at he
  simpa [Except.map] using he

end Table

end ShaderPipeline.Macro
