import ShaderPipeline.Macro.Levels
/-! Macro replacement. It ends because a replacement writes tokens at which one macro fewer is
enabled. -/

namespace ShaderPipeline.Macro

/-- Result of a scan. It is not `complete` if the tokens may go on and end before an invocation
does. -/
structure Rescan where
  out : List Token
  complete : Bool
  disabled : List String
  deriving DecidableEq, Repr

def Rescan.push (t : Token) (r : Rescan) : Rescan :=
  { r with out := t :: r.out }

inductive Action
  | write (t : Token)
  | replace (m : Macro)
  | invoke (m : Macro) (params : List String) (a : Arguments)
  | wait
  | fail (e : Error)
  deriving DecidableEq, Repr

namespace Table

def action (t : Table) (b : Builtins) (openEnded : Bool) (d : List String) (x : Token)
    (q : List Pending) : Action :=
  if x.kind ≠ .ident then .write x
  else match b.value? x.text with
    | some v => .write v
    | none =>
      match t.enabled? d x.text with
      | none => .write x
      | some m =>
        match m.params with
        | none => .replace m
        | some params =>
          match invocation q with
          | .notInvoked => .write x
          | .incomplete unterminated =>
            if openEnded then .wait
            else if unterminated then .fail (.unterminated x.text)
            else .write x
          | .arguments a =>
            if fits params a.args then .invoke m params a
            else .fail (.arity x.text params.length a.args.length)

theorem enabled_of_replace {t : Table} {b : Builtins} {openEnded : Bool}
    {d : List String} {x : Token} {q : List Pending} {m : Macro}
    (h : t.action b openEnded d x q = .replace m) : t.enabled? d x.text = some m := by
  grind [action]

theorem enabled_of_invoke {t : Table} {b : Builtins} {openEnded : Bool}
    {d : List String} {x : Token} {q : List Pending} {m : Macro} {params : List String}
    {a : Arguments} (h : t.action b openEnded d x q = .invoke m params a) :
    t.enabled? d x.text = some m ∧ invocation q = .arguments a := by
  grind [action]

def rescan (t : Table) (b : Builtins) (openEnded : Bool) (q : List Pending) (d : List String) :
    Except Error Rescan :=
  match q with
  | [] => .ok ⟨[], true, d⟩
  | .enable name :: q => rescan t b openEnded q (eraseLast d name)
  | .token x :: q =>
    match _h : t.action b openEnded d x q with
    | .write v => (rescan t b openEnded q d).map (.push v)
    | .replace m =>
      rescan t b openEnded (Pending.ofTokens m.body ++ .enable x.text :: q) (d ++ [x.text])
    | .invoke m params a =>
      match a.args.attach.mapM fun arg =>
        (rescan t b false (Pending.ofTokens arg.1) d).map (·.out) with
      | .error e => .error e
      | .ok args =>
        rescan t b openEnded
          (Pending.ofTokens (substitute m.body params args) ++ .enable x.text ::
            Pending.marks a.enables ++ a.rest)
          (d ++ [x.text])
    | .wait => .ok ⟨[], false, d⟩
    | .fail e => .error e
termination_by t.workload d q
decreasing_by
  · exact workload_enable_less t d name q
  · exact workload_token_less t d x q
  · exact workload_body_less (enabled_of_replace _h)
  · obtain ⟨taken, e, hp⟩ := levels_of_invocation (t := t) (d := d) (enabled_of_invoke _h).2
    exact workload_argument_less e hp arg.2
  · obtain ⟨taken, e, _⟩ := levels_of_invocation (t := t) (d := d) (enabled_of_invoke _h).2
    exact workload_replacement_less (enabled_of_invoke _h).1 e

def expand (t : Table) (b : Builtins) (ts : List Token) : Except Error (List Token) :=
  (t.rescan b false (Pending.ofTokens ts) []).map (·.out)

def expandOpen (t : Table) (b : Builtins) (ts : List Token) : Except Error (Option (List Token)) :=
  (t.rescan b true (Pending.ofTokens ts) []).map fun r => if r.complete then some r.out else none

end Table

end ShaderPipeline.Macro
