import ShaderPipeline.Proofs.Macro.Rescan

/-! Macro replacement as a machine that takes one item of the queue at a time. Scans of arguments
are frames on a stack and share one list of disabled macros. -/

namespace ShaderPipeline.Macro

structure Frame where
  name : String
  body : List Token
  params : List String
  waiting : List (List Token)
  replaced : List (List Token)
  enables : List String
  rest : List Pending
  out : List Token
  openEnded : Bool

structure Machine where
  queue : List Pending
  disabled : List String
  out : List Token
  openEnded : Bool
  frames : List Frame

namespace Machine

inductive Next
  | go (m : Machine)
  | halt (r : Except Error Rescan)

def start (openEnded : Bool) (ts : List Token) : Machine :=
  ⟨Pending.ofTokens ts, [], [], openEnded, []⟩

def resume (f : Frame) (disabled : List String) (frames : List Frame) : Machine :=
  match f.waiting with
  | arg :: waiting => ⟨Pending.ofTokens arg, disabled, [], false, { f with waiting } :: frames⟩
  | [] =>
    ⟨Pending.ofTokens (substitute f.body f.params f.replaced) ++ .enable f.name ::
      Pending.marks f.enables ++ f.rest, disabled ++ [f.name], f.out, f.openEnded, frames⟩

def step (t : Table) (b : Builtins) (m : Machine) : Next :=
  match m.queue with
  | [] =>
    match m.frames with
    | [] => .halt (.ok ⟨m.out, true, m.disabled⟩)
    | f :: frames => .go (resume { f with replaced := f.replaced ++ [m.out] } m.disabled frames)
  | .enable name :: q => .go { m with queue := q, disabled := eraseLast m.disabled name }
  | .token x :: q =>
    match t.action b m.openEnded m.disabled x q with
    | .write v => .go { m with queue := q, out := m.out ++ [v] }
    | .replace d =>
      .go { m with
        queue := Pending.ofTokens d.body ++ .enable x.text :: q
        disabled := m.disabled ++ [x.text] }
    | .invoke d params a =>
      .go (resume ⟨x.text, d.body, params, a.args, [], a.enables, a.rest, m.out, m.openEnded⟩
        m.disabled m.frames)
    | .wait => .halt (.ok ⟨m.out, false, m.disabled⟩)
    | .fail e => .halt (.error e)

def run (t : Table) (b : Builtins) : Nat → Machine → Option (Except Error Rescan)
  | 0, _ => none
  | n + 1, m =>
    match m.step t b with
    | .go m' => run t b n m'
    | .halt r => some r

variable (t : Table) (b : Builtins)

def Leads (m m' : Machine) : Prop :=
  ∃ n, ∀ k, run t b (n + k) m = run t b k m'

def Halts (m : Machine) (r : Except Error Rescan) : Prop :=
  ∃ n, run t b n m = some r

variable {t b}

lemma Leads.refl (m : Machine) : Leads t b m m :=
  ⟨0, fun k => by rw [Nat.zero_add]⟩

lemma Leads.trans {m m' m'' : Machine} (h : Leads t b m m') (h' : Leads t b m' m'') :
    Leads t b m m'' := by
  obtain ⟨n, hn⟩ := h
  obtain ⟨n', hn'⟩ := h'
  exact ⟨n + n', fun k => by rw [Nat.add_assoc, hn, hn']⟩

lemma Leads.halts {m m' : Machine} {r : Except Error Rescan} (h : Leads t b m m')
    (h' : Halts t b m' r) : Halts t b m r := by
  obtain ⟨n, hn⟩ := h
  obtain ⟨n', hn'⟩ := h'
  exact ⟨n + n', (hn n').trans hn'⟩

lemma leads_of_step {m m' : Machine} (h : m.step t b = .go m') : Leads t b m m' :=
  ⟨1, fun k => by rw [Nat.add_comm, run, h]⟩

lemma halts_of_step {m : Machine} {r : Except Error Rescan} (h : m.step t b = .halt r) :
    Halts t b m r :=
  ⟨1, by rw [run, h]⟩

variable (t b)

def Performs (out : List Token) (openEnded : Bool) (frames : List Frame) (m : Machine) :
    Except Error Rescan → Prop
  | .error e => Halts t b m (.error e)
  | .ok ⟨ts, true, disabled⟩ => Leads t b m ⟨[], disabled, out ++ ts, openEnded, frames⟩
  | .ok ⟨ts, false, disabled⟩ => Halts t b m (.ok ⟨out ++ ts, false, disabled⟩)

variable {t b} {out : List Token} {openEnded : Bool} {frames : List Frame} {d : List String}

lemma Leads.performs {m m' : Machine} {r : Except Error Rescan} (h : Leads t b m m')
    (h' : Performs t b out openEnded frames m' r) : Performs t b out openEnded frames m r := by
  match r with
  | .error e => exact h.halts h'
  | .ok ⟨ts, true, disabled⟩ => exact h.trans h'
  | .ok ⟨ts, false, disabled⟩ => exact h.halts h'

lemma Performs.push {m : Machine} {r : Except Error Rescan} {v : Token}
    (h : Performs t b (out ++ [v]) openEnded frames m r) :
    Performs t b out openEnded frames m (r.map (.push v)) := by
  match r with
  | .error e => exact h
  | .ok ⟨ts, true, disabled⟩ =>
    change Leads t b m ⟨[], disabled, out ++ v :: ts, openEnded, frames⟩
    simpa only [Performs, List.append_assoc, List.singleton_append] using h
  | .ok ⟨ts, false, disabled⟩ =>
    change Halts t b m (.ok ⟨out ++ v :: ts, false, disabled⟩)
    simpa only [Performs, List.append_assoc, List.singleton_append] using h

lemma performs_argument {arg : List Token}
    (h : Performs t b [] false frames ⟨Pending.ofTokens arg, d, [], false, frames⟩
      (t.rescan b false (Pending.ofTokens arg) d)) :
    match (t.rescan b false (Pending.ofTokens arg) d).map (·.out) with
    | .error e => Halts t b ⟨Pending.ofTokens arg, d, [], false, frames⟩ (.error e)
    | .ok ts =>
      Leads t b ⟨Pending.ofTokens arg, d, [], false, frames⟩ ⟨[], d, ts, false, frames⟩ := by
  cases hr : t.rescan b false (Pending.ofTokens arg) d with
  | error e =>
    rw [hr] at h
    exact h
  | ok r =>
    have hc := Table.complete_of_closed hr
    have hd := Table.disabled_of_argument hr
    obtain ⟨ts, complete, disabled⟩ := r
    obtain rfl : complete = true := hc
    obtain rfl : disabled = d := hd
    rw [hr] at h
    exact h

lemma resume_arguments {args : List (List Token)}
    (ih : ∀ arg ∈ args, ∀ frames, Performs t b [] false frames ⟨Pending.ofTokens arg, d, [],
      false, frames⟩
      (t.rescan b false (Pending.ofTokens arg) d)) (f : Frame) (hf : f.waiting = args)
        (frames : List Frame) :
    match t.replaceArguments b d args with
    | .error e => Halts t b (resume f d frames) (.error e)
    | .ok outs => Leads t b (resume f d frames)
        (resume { f with waiting := [], replaced := f.replaced ++ outs } d frames) := by
  induction args generalizing f with
  | nil =>
    obtain ⟨name, body, params, waiting, replaced, enables, rest, out, o⟩ := f
    obtain rfl : waiting = [] := hf
    simpa [Table.replaceArguments, pure, Except.pure] using Leads.refl _
  | cons arg args ihs =>
    have hs : resume f d frames =
        ⟨Pending.ofTokens arg, d, [], false, { f with waiting := args } :: frames⟩ := by
      rw [resume, hf]
    have hp := performs_argument (ih arg (by simp) ({ f with waiting := args } :: frames))
    rw [hs, Table.replaceArguments, List.mapM_cons]
    cases ho : (t.rescan b false (Pending.ofTokens arg) d).map (·.out) with
    | error e =>
      rw [ho] at hp
      exact hp
    | ok ts =>
      rw [ho] at hp
      have hl := hp.trans (leads_of_step rfl)
      have hrest := ihs (fun a ha => ih a (by simp [ha]))
        { f with waiting := args, replaced := f.replaced ++ [ts] } rfl
      rw [Table.replaceArguments] at hrest
      cases hm : args.mapM fun arg => (t.rescan b false (Pending.ofTokens arg) d).map (·.out) with
      | error e =>
        rw [hm] at hrest
        exact hl.halts hrest
      | ok outs =>
        simp only [hm, List.append_assoc, List.singleton_append] at hrest
        exact hl.trans hrest

theorem performs_rescan (openEnded : Bool) (q : List Pending) (d : List String) (out : List Token)
    (frames : List Frame) :
    Performs t b out openEnded frames ⟨q, d, out, openEnded, frames⟩
      (t.rescan b openEnded q d) := by
  induction openEnded, q, d using Table.rescan_induction t b generalizing out frames with
  | nil o d =>
    rw [Table.rescan_nil]
    simpa only [Performs, List.append_nil] using Leads.refl _
  | enable o d name q ih =>
    have hs : step t b ⟨.enable name :: q, d, out, o, frames⟩ =
        .go ⟨q, eraseLast d name, out, o, frames⟩ := rfl
    rw [Table.rescan_enable]
    exact (leads_of_step hs).performs (ih out frames)
  | write o d x q v ha ih =>
    have hs : step t b ⟨.token x :: q, d, out, o, frames⟩ = .go ⟨q, d, out ++ [v], o, frames⟩ := by
      simp only [step, ha]
    rw [Table.rescan_write ha]
    exact Performs.push ((leads_of_step hs).performs (ih (out ++ [v]) frames))
  | replace o d x q m ha ih =>
    have hs : step t b ⟨.token x :: q, d, out, o, frames⟩ =
        .go ⟨Pending.ofTokens m.body ++ .enable x.text :: q, d ++ [x.text], out, o, frames⟩ := by
      simp only [step, ha]
    rw [Table.rescan_replace ha]
    exact (leads_of_step hs).performs (ih out frames)
  | invoke o d x q m params a ha iha ih =>
    let f : Frame := ⟨x.text, m.body, params, a.args, [], a.enables, a.rest, out, o⟩
    have hs : step t b ⟨.token x :: q, d, out, o, frames⟩ = .go (resume f d frames) := by
      simp only [step, ha, f]
    have hr := resume_arguments (fun arg harg frames => iha arg harg [] frames) f rfl frames
    rw [Table.rescan_invoke ha]
    cases hargs : t.replaceArguments b d a.args with
    | error e =>
      rw [hargs] at hr
      exact (leads_of_step hs).halts hr
    | ok args =>
      rw [hargs] at hr
      exact ((leads_of_step hs).trans hr).performs (ih args hargs out frames)
  | wait o d x q ha =>
    rw [Table.rescan_wait ha]
    change Halts t b _ (.ok ⟨out ++ [], false, d⟩)
    rw [List.append_nil]
    exact halts_of_step (by simp only [step, ha])
  | fail o d x q e ha =>
    rw [Table.rescan_fail ha]
    exact halts_of_step (by simp only [step, ha])

theorem halts_of_start (t : Table) (b : Builtins) (openEnded : Bool) (ts : List Token) :
    Halts t b (start openEnded ts) (t.rescan b openEnded (Pending.ofTokens ts) []) := by
  have h := performs_rescan (t := t) (b := b) openEnded (Pending.ofTokens ts) [] [] []
  match hr : t.rescan b openEnded (Pending.ofTokens ts) [] with
  | .error e =>
    rw [hr] at h
    exact h
  | .ok ⟨out, true, disabled⟩ =>
    rw [hr] at h
    exact Leads.halts h (halts_of_step rfl)
  | .ok ⟨out, false, disabled⟩ =>
    rw [hr] at h
    exact h

end Machine

/-- From all tokens, under any macros, the machine halts after finitely many steps, those in
arguments included, and its result is that of the replacement. -/
theorem replacement_terminates (t : Table) (b : Builtins) (ts : List Token) :
    (∃ n r, Machine.run t b n (.start false ts) = some r ∧ r.map (·.out) = t.expand b ts) ∧
      ∃ n r, Machine.run t b n (.start true ts) = some r ∧
        r.map (fun r => if r.complete then some r.out else none) = t.expandOpen b ts := by
  obtain ⟨n, hn⟩ := Machine.halts_of_start t b false ts
  obtain ⟨n', hn'⟩ := Machine.halts_of_start t b true ts
  exact ⟨⟨n, _, hn, rfl⟩, ⟨n', _, hn', rfl⟩⟩

end ShaderPipeline.Macro
