import Mathlib.Tactic.Lemma
import ShaderPipeline.Macro.Replace

/-! One equation for each action of a scan. -/

namespace ShaderPipeline.Macro

namespace Pending

def names : List Pending → List String
  | [] => []
  | .token _ :: q => names q
  | .enable name :: q => name :: names q

@[simp] lemma names_ofTokens_append (ts : List Token) (q : List Pending) :
    names (ofTokens ts ++ q) = names q := by
  induction ts with
  | nil => rfl
  | cons x ts ih => simpa only [ofTokens, List.map_cons, List.cons_append, names] using ih

@[simp] lemma names_ofTokens (ts : List Token) : names (ofTokens ts) = [] := by
  simpa only [List.append_nil, names] using names_ofTokens_append ts []

@[simp] lemma names_marks_append (ns : List String) (q : List Pending) :
    names (marks ns ++ q) = ns ++ names q := by
  induction ns with
  | nil => rfl
  | cons name ns ih => simp only [marks, List.map_cons, List.cons_append, names] at ih ⊢; rw [ih]

end Pending

lemma Arguments.push_frame (x : Token) (a : Arguments) :
    (a.push x).enables = a.enables ∧ (a.push x).rest = a.rest := by
  rw [Arguments.push]
  split <;> exact ⟨rfl, rfl⟩

lemma names_of_collect {q : List Pending} {k : Nat} {a : Arguments}
    (h : Arguments.collect? k q = some a) :
    Pending.names q = a.enables ++ Pending.names a.rest := by
  induction q generalizing k a with
  | nil => cases h
  | cons p q ih =>
    cases p with
    | enable name =>
      obtain ⟨c, hc, rfl⟩ := Option.map_eq_some_iff.mp h
      simp only [Pending.names, ih hc, Arguments.mark, List.cons_append]
    | token x =>
      simp only [Arguments.collect?] at h
      split at h
      · obtain rfl := Option.some.inj h
        rfl
      split at h
      · obtain ⟨c, hc, rfl⟩ := Option.map_eq_some_iff.mp h
        simpa only [Pending.names, Arguments.nextArgument] using ih hc
      · obtain ⟨c, hc, rfl⟩ := Option.map_eq_some_iff.mp h
        rw [(c.push_frame x).1, (c.push_frame x).2]
        exact ih hc

lemma names_of_opening {q rest : List Pending} {ns : List String} (h : opening q = .paren ns rest) :
    Pending.names q = ns ++ Pending.names rest := by
  induction q generalizing ns with
  | nil => cases h
  | cons p q ih =>
    cases p with
    | enable name =>
      simp only [opening] at h
      split at h
      · rename_i ms r hq
        obtain ⟨rfl, rfl⟩ : name :: ms = ns ∧ r = rest := by simpa using h
        simp only [Pending.names, ih hq, List.cons_append]
      · rename_i hne
        exact (hne _ _ h).elim
    | token x =>
      simp only [opening] at h
      split at h
      · exact ih h
      split at h
      · obtain ⟨rfl, rfl⟩ : [] = ns ∧ q = rest := by simpa using h
        rfl
      · cases h

lemma names_of_invocation {q : List Pending} {a : Arguments} (h : invocation q = .arguments a) :
    Pending.names q = a.enables ++ Pending.names a.rest := by
  rw [invocation] at h
  split at h
  · cases h
  · cases h
  · rename_i ns r ho
    split at h
    · cases h
    · rename_i c hc
      obtain rfl := Invocation.arguments.inj h
      rw [names_of_opening ho, names_of_collect hc, List.append_assoc]

namespace Table

variable {t : Table} {b : Builtins} {openEnded : Bool} {d : List String} {x : Token}
  {q : List Pending}

def replaceArguments (t : Table) (b : Builtins) (d : List String) (args : List (List Token)) :
    Except Error (List (List Token)) :=
  args.mapM fun arg => (t.rescan b false (Pending.ofTokens arg) d).map (·.out)

lemma rescan_nil : t.rescan b openEnded [] d = .ok ⟨[], true, d⟩ := by
  rw [rescan]

lemma rescan_enable {name : String} :
    t.rescan b openEnded (.enable name :: q) d = t.rescan b openEnded q (eraseLast d name) := by
  rw [rescan]

lemma rescan_write {v : Token} (h : t.action b openEnded d x q = .write v) :
    t.rescan b openEnded (.token x :: q) d = (t.rescan b openEnded q d).map (.push v) := by
  rw [rescan]
  split <;> simp_all

lemma rescan_replace {m : Macro} (h : t.action b openEnded d x q = .replace m) :
    t.rescan b openEnded (.token x :: q) d =
      t.rescan b openEnded (Pending.ofTokens m.body ++ .enable x.text :: q) (d ++ [x.text]) := by
  rw [rescan]
  split <;> simp_all

lemma rescan_wait (h : t.action b openEnded d x q = .wait) :
    t.rescan b openEnded (.token x :: q) d = .ok ⟨[], false, d⟩ := by
  rw [rescan]
  split <;> simp_all

lemma rescan_fail {e : Error} (h : t.action b openEnded d x q = .fail e) :
    t.rescan b openEnded (.token x :: q) d = .error e := by
  rw [rescan]
  split <;> simp_all

lemma rescan_invoke {m : Macro} {params : List String} {a : Arguments}
    (h : t.action b openEnded d x q = .invoke m params a) :
    t.rescan b openEnded (.token x :: q) d =
      match t.replaceArguments b d a.args with
      | .error e => .error e
      | .ok args =>
        t.rescan b openEnded
          (Pending.ofTokens (substitute m.body params args) ++ .enable x.text ::
            Pending.marks a.enables ++ a.rest)
          (d ++ [x.text]) := by
  rw [rescan]
  split
  case h_3 m' params' a' h' =>
    obtain ⟨rfl, rfl, rfl⟩ : m = m' ∧ params = params' ∧ a = a' := by simpa [h] using h'
    have hm :
        (a.args.attach.mapM fun arg => (t.rescan b false (Pending.ofTokens arg.1) d).map (·.out)) =
        t.replaceArguments b d a.args := by
      simp only [replaceArguments, List.mapM_subtype, List.unattach_attach]
    rewrite [hm]
    cases t.replaceArguments b d a.args <;> rfl
  all_goals simp_all

lemma replaceArguments_cons {arg : List Token} {args outs : List (List Token)}
    (h : t.replaceArguments b d (arg :: args) = .ok outs) :
    ∃ r outs', t.rescan b false (Pending.ofTokens arg) d = .ok r ∧
    t.replaceArguments b d args = .ok outs' ∧
      outs = r.out :: outs' := by
  rw [replaceArguments] at h
  rw [List.mapM_cons] at h
  cases hr : t.rescan b false (Pending.ofTokens arg) d with
  | error e =>
    rw [hr] at h
    cases h
  | ok r =>
    rw [hr] at h
    cases ho : t.replaceArguments b d args with
    | error e =>
      rw [replaceArguments] at ho
      rw [ho] at h
      cases h
    | ok outs' =>
      rw [replaceArguments] at ho
      rw [ho] at h
      exact ⟨r, outs', rfl, rfl, (Except.ok.inj h).symm⟩

lemma mem_replaceArguments {args outs : List (List Token)} {out : List Token}
    (h : t.replaceArguments b d args = .ok outs) (ho : out ∈ outs) :
    ∃ arg ∈ args, ∃ r, t.rescan b false (Pending.ofTokens arg) d = .ok r ∧ r.out = out := by
  induction args generalizing outs with
  | nil =>
    obtain rfl := Except.ok.inj h
    cases ho
  | cons arg args ih =>
    obtain ⟨r, outs', hr, hrest, rfl⟩ := replaceArguments_cons h
    rcases List.mem_cons.mp ho with rfl | ho
    · exact ⟨arg, .head _, r, hr, rfl⟩
    · obtain ⟨arg', harg, hs⟩ := ih hrest ho
      exact ⟨arg', .tail _ harg, hs⟩

lemma replaceArguments_congr {t' : Table} {b' : Builtins} {args : List (List Token)}
    (h : ∀ arg ∈ args, t.rescan b false (Pending.ofTokens arg) d =
      t'.rescan b' false (Pending.ofTokens arg) d) :
    t.replaceArguments b d args = t'.replaceArguments b' d args := by
  simp only [replaceArguments]
  induction args with
  | nil => rfl
  | cons arg args ih =>
    rw [List.mapM_cons, List.mapM_cons, h arg (by simp), ih fun a ha => h a (by simp [ha])]

@[elab_as_elim]
theorem rescan_induction (t : Table) (b : Builtins)
    {motive : Bool → List Pending → List String → Prop} (nil : ∀ o d, motive o [] d)
    (enable : ∀ o d name q, motive o q (eraseLast d name) → motive o (.enable name :: q) d)
    (write : ∀ o d x q v, t.action b o d x q = .write v → motive o q d → motive o (.token x :: q) d)
    (replace : ∀ o d x q m, t.action b o d x q = .replace m →
      motive o (Pending.ofTokens m.body ++ .enable x.text :: q) (d ++ [x.text]) →
        motive o (.token x :: q) d)
    (invoke : ∀ o d x q m params a, t.action b o d x q = .invoke m params a →
      (∀ arg ∈ a.args, motive false (Pending.ofTokens arg) d) →
      (∀ args, t.replaceArguments b d a.args = .ok args →
        motive o (Pending.ofTokens (substitute m.body params args) ++ .enable x.text ::
          Pending.marks a.enables ++ a.rest) (d ++ [x.text])) →
      motive o (.token x :: q) d)
    (wait : ∀ o d x q, t.action b o d x q = .wait → motive o (.token x :: q) d)
    (fail : ∀ o d x q e, t.action b o d x q = .fail e → motive o (.token x :: q) d)
    (o : Bool) (q : List Pending) (d : List String) : motive o q d := by
  induction o, q, d using rescan.induct t b with
  | case1 o d => exact nil o d
  | case2 o d name q ih => exact enable o d name q ih
  | case3 o d x q v h ih => exact write o d x q v h ih
  | case4 o d x q m h ih => exact replace o d x q m h ih
  | case5 o d x q m params a h e he ih =>
    refine invoke o d x q m params a h (fun arg harg => ih ⟨arg, harg⟩) fun args hargs => ?_
    simp only [List.mapM_subtype, List.unattach_attach] at he
    cases he.symm.trans hargs
  | case6 o d x q m params a h args hargs ih ihr =>
    refine invoke o d x q m params a h (fun arg harg => ih ⟨arg, harg⟩) fun args' hargs' => ?_
    simp only [List.mapM_subtype, List.unattach_attach] at hargs
    obtain rfl := Except.ok.inj (hargs.symm.trans hargs')
    exact ihr
  | case7 o d x q h => exact wait o d x q h
  | case8 o d x q e h => exact fail o d x q e h

lemma openEnded_of_wait (h : t.action b openEnded d x q = .wait) : openEnded = true := by
  grind [action]

lemma marks_of_invoke {m : Macro} {params : List String} {a : Arguments}
    (h : t.action b openEnded d x q = .invoke m params a) :
    Pending.names q = a.enables ++ Pending.names a.rest :=
  names_of_invocation (enabled_of_invoke h).2

lemma map_push_eq_ok {r : Except Error Rescan} {v : Token} {s : Rescan}
    (h : r.map (.push v) = .ok s) : ∃ s', r = .ok s' ∧ s = s'.push v := by
  cases r with
  | error e => cases h
  | ok s' => exact ⟨s', rfl, (Except.ok.inj h).symm⟩

lemma invoke_eq_ok {m : Macro} {params : List String} {a : Arguments} {r : Rescan}
    (h : t.action b openEnded d x q = .invoke m params a)
    (hr : t.rescan b openEnded (.token x :: q) d = .ok r) :
    ∃ args, t.replaceArguments b d a.args = .ok args ∧
      t.rescan b openEnded (Pending.ofTokens (substitute m.body params args) ++ .enable x.text ::
        Pending.marks a.enables ++ a.rest) (d ++ [x.text]) = .ok r := by
  rw [rescan_invoke h] at hr
  split at hr
  · cases hr
  · rename_i args hargs
    exact ⟨args, hargs, hr⟩

lemma complete_of_closed {r : Rescan} (h : t.rescan b false q d = .ok r) : r.complete = true := by
  generalize ho : false = o at h
  induction o, q, d using rescan_induction t b generalizing r with
  | nil o d =>
    rw [rescan_nil] at h
    obtain rfl := Except.ok.inj h
    rfl
  | enable o d name q ih => exact ih ho (rescan_enable ▸ h)
  | write o d x q v ha ih =>
    rw [rescan_write ha] at h
    obtain ⟨s, hs, rfl⟩ := map_push_eq_ok h
    change s.complete = true
    exact ih ho hs
  | replace o d x q m ha ih => exact ih ho (rescan_replace ha ▸ h)
  | invoke o d x q m params a ha _ ih =>
    obtain ⟨args, hargs, hr⟩ := invoke_eq_ok ha h
    exact ih args hargs ho hr
  | wait o d x q ha =>
    subst ho
    cases openEnded_of_wait ha
  | fail o d x q e ha =>
    rw [rescan_fail ha] at h
    cases h

theorem disabled_of_complete {r : Rescan} (h : t.rescan b openEnded q d = .ok r)
    (hc : r.complete = true) : r.disabled = (Pending.names q).foldl eraseLast d := by
  induction openEnded, q, d using rescan_induction t b generalizing r with
  | nil o d =>
    rw [rescan_nil] at h
    obtain rfl := Except.ok.inj h
    rfl
  | enable o d name q ih => exact ih (rescan_enable ▸ h) hc
  | write o d x q v ha ih =>
    rw [rescan_write ha] at h
    obtain ⟨s, hs, rfl⟩ := map_push_eq_ok h
    change s.disabled = _
    exact ih hs hc
  | replace o d x q m ha ih =>
    rw [ih (rescan_replace ha ▸ h) hc]
    simp [Pending.names]
  | invoke o d x q m params a ha _ ih =>
    obtain ⟨args, hargs, hr⟩ := invoke_eq_ok ha h
    rw [ih args hargs hr hc, Pending.names, marks_of_invoke ha, List.append_assoc]
    simp [Pending.names]
  | wait o d x q ha =>
    rw [rescan_wait ha] at h
    obtain rfl := Except.ok.inj h
    cases hc
  | fail o d x q e ha =>
    rw [rescan_fail ha] at h
    cases h

lemma disabled_of_argument {arg : List Token} {r : Rescan}
    (h : t.rescan b false (Pending.ofTokens arg) d = .ok r) : r.disabled = d := by
  rw [disabled_of_complete h (complete_of_closed h), Pending.names_ofTokens]
  rfl

def Inert (t : Table) (b : Builtins) (x : Token) : Prop :=
  x.kind = .ident → b.value? x.text = none ∧ t.find? x.text = none

lemma action_of_inert (h : t.Inert b x) : t.action b openEnded d x q = .write x := by
  by_cases hk : x.kind = .ident
  · obtain ⟨hvalue, hfind⟩ := h hk
    simp [action, hk, hvalue, enabled?, hfind]
  · rw [action, if_pos hk]

theorem rescan_of_inert {ts : List Token} (h : ∀ x ∈ ts, t.Inert b x) :
    t.rescan b openEnded (Pending.ofTokens ts) d = .ok ⟨ts, true, d⟩ := by
  induction ts with
  | nil => exact rescan_nil
  | cons x ts ih =>
    obtain ⟨hx, hts⟩ := List.forall_mem_cons.mp h
    rw [Pending.ofTokens, List.map_cons, rescan_write (action_of_inert hx)]
    exact congrArg (Except.map (Rescan.push x)) (ih hts)

lemma expandOpen_of_inert {ts : List Token} (h : ∀ x ∈ ts, t.Inert b x) :
    t.expandOpen b ts = .ok (some ts) := by
  rw [expandOpen, rescan_of_inert h]
  rfl

end Table

end ShaderPipeline.Macro
