import ShaderPipeline.Proofs.Condition.Value
import ShaderPipeline.Proofs.LineNumber
import ShaderPipeline.Proofs.Preprocess.Effect

namespace ShaderPipeline

lemma newline_notMem_append {a b : String} (ha : '\n' ∉ a.toList) (hb : '\n' ∉ b.toList) :
    '\n' ∉ (a ++ b).toList := by
  rw [String.toList_append, List.mem_append]
  exact fun h => h.elim ha hb

lemma newline_notMem_ofList {cs : List Char} (h : '\n' ∉ cs) :
    '\n' ∉ (String.ofList cs).toList := by
  rwa [String.toList_ofList]

namespace LineNumber

def Unsigned (n : LineNumber) : Prop :=
  0 ≤ n ∧ n.InRange

lemma unsigned_one : Unsigned 1 :=
  ⟨by decide, by decide, by decide⟩

lemma Unsigned.advance {n : LineNumber} (h : n.Unsigned) (k : Nat) : (n.advance k).Unsigned := by
  have hm : ∀ (m l : Int) (a : Nat), 0 ≤ l → 0 ≤ m → 0 ≤ min (m + a) l := by
    intro m l a
    omega
  exact ⟨hm n limit k (by decide) h.1, h.2.advance k⟩

lemma ofChars_nonneg {c : Char} (hb : Text.isBlank c = false) (hc : c ≠ '-') (cs : List Char) :
    0 ≤ ofChars (c :: cs) := by
  rw [ofChars_of_notBlank hb, if_neg hc]
  split <;> exact Int.natCast_nonneg _

lemma ofText_repr_nonneg (n : Nat) : 0 ≤ ofText n.repr := by
  rw [ofText, Nat.repr_eq_ofList_toDigits, String.toList_ofList]
  cases hds : Nat.toDigits 10 n with
  | nil => exact (Nat.toDigits_ne_nil hds).elim
  | cons d ds =>
    have hd := isDigit_of_mem_toDigits (n := n) d (hds ▸ List.mem_cons_self)
    refine ofChars_nonneg (isBlank_of_isDigit hd) ?_ ds
    rintro rfl
    exact absurd hd (by decide)

lemma ofText_toString_nonneg {n : Int} (h : 0 ≤ n) : 0 ≤ ofText (toString n) := by
  rw [Int.toString_eq_repr, Int.repr_eq_if, if_pos h]
  exact ofText_repr_nonneg n.toNat

end LineNumber

namespace Token

structure Plain (t : Token) : Prop where
  oneLine : t.OneLine
  unsigned : t.kind = .number → 0 ≤ LineNumber.ofText t.text

lemma startsNumber_of_munch {c : Char} {cs : List Char} (h : (munch c cs).1 = .number) :
    Text.isBlank c = false ∧ c ≠ '-' := by
  simp only [munch] at h
  split at h
  · cases h
  rename_i hblank
  split at h
  · cases h
  split at h
  · rename_i hstart
    refine ⟨by simpa using hblank, ?_⟩
    rintro rfl
    simp [startsNumber] at hstart
  split at h <;> cases h

lemma unsigned_of_mem_scan {cs : List Char} :
    ∀ t ∈ scan cs, t.kind = .number → 0 ≤ LineNumber.ofText t.text := by
  induction cs using scan.induct with
  | case1 =>
    rw [scan_nil]
    exact List.forall_mem_nil _
  | case2 c cs ih =>
    rw [scan_cons, List.forall_mem_cons]
    refine ⟨fun hk => ?_, ih⟩
    obtain ⟨hblank, hminus⟩ := startsNumber_of_munch hk
    rw [LineNumber.ofText, String.toList_ofList]
    exact LineNumber.ofChars_nonneg hblank hminus _

lemma plain_of_tokenize {s : String} (h : '\n' ∉ s.toList) : ∀ t ∈ tokenize s, t.Plain :=
  fun t ht => ⟨oneLine_of_tokenize h t ht, unsigned_of_mem_scan t ht⟩

end Token

namespace Macro

variable {t : Table} {b : Builtins} {ts out : List Token}

def Error.name? : Error → Option String
  | .predefined name | .redefined name | .tokenPasting name | .unterminated name | .arity name .. =>
    some name
  | .badDefined => none

lemma Error.oneLine_message {e : Error} (h : ∀ name, e.name? = some name → '\n' ∉ name.toList) :
    '\n' ∉ e.message.toList := by
  cases e with
  | badDefined => exact newline_notMem_ofList (by decide)
  | arity name expected found =>
    have hname := newline_notMem_append (a := "wrong number of arguments in macro ")
      (newline_notMem_ofList (by decide)) (h name rfl)
    have hexpected := newline_notMem_append (newline_notMem_append hname (b := ": expected ")
      (newline_notMem_ofList (by decide))) (newline_notMem_toString expected)
    exact newline_notMem_append (newline_notMem_append hexpected (b := ", found ")
      (newline_notMem_ofList (by decide)))
      (newline_notMem_toString found)
  | predefined name | redefined name | tokenPasting name | unterminated name =>
    exact newline_notMem_append (newline_notMem_ofList (by decide)) (h name rfl)

lemma plain_of_value (hb : 0 ≤ b.line) (name : String) (v : Token) (h : b.value? name = some v) :
    v.Plain := by
  refine ⟨oneLine_of_value name v h, fun _ => ?_⟩
  simp only [Builtins.value?] at h
  split at h
  · obtain rfl := Option.some.inj h
    exact LineNumber.ofText_toString_nonneg hb
  · obtain rfl := Option.some.inj h
    exact LineNumber.ofText_repr_nonneg b.file
  · obtain rfl := Option.some.inj h
    exact LineNumber.ofText_repr_nonneg b.version
  · cases h

namespace Table

lemma Bodies.imp {P Q : Token → Prop} (h : t.Bodies P) (hpq : ∀ x, P x → Q x) : t.Bodies Q :=
  fun name m hm x hx => hpq x (h name m hm x hx)

lemma exists_of_replaceArguments_error {d : List String} {args : List (List Token)} {e : Error}
    (h : t.replaceArguments b d args = .error e) :
    ∃ arg ∈ args, t.rescan b false (Pending.ofTokens arg) d = .error e := by
  induction args with
  | nil => cases h
  | cons arg args ih =>
    rw [replaceArguments, List.mapM_cons] at h
    cases hr : t.rescan b false (Pending.ofTokens arg) d with
    | error e' =>
      rw [hr] at h
      cases h
      exact ⟨arg, List.mem_cons_self, hr⟩
    | ok r =>
      rw [hr] at h
      cases ho : t.replaceArguments b d args with
      | error e' =>
        have hrest := ho
        rw [replaceArguments] at ho
        rw [ho] at h
        cases h
        obtain ⟨arg', harg', he⟩ := ih hrest
        exact ⟨arg', List.mem_cons_of_mem _ harg', he⟩
      | ok outs =>
        rw [replaceArguments] at ho
        rw [ho] at h
        cases h

lemma name_of_fail {o : Bool} {d : List String} {x : Token} {q : List Pending} {e : Error}
    (h : t.action b o d x q = .fail e) : e.name? = some x.text := by
  rw [action] at h
  split at h
  · cases h
  split at h
  · cases h
  split at h
  · cases h
  split at h
  · cases h
  split at h
  · cases h
  · split at h
    · cases h
    split at h
    · cases h
      rfl
    · cases h
  · split at h
    · cases h
    · cases h
      rfl

theorem oneLine_of_rescan_error {o : Bool} {q : List Pending} {d : List String} {e : Error}
    (ht : t.Bodies Token.OneLine) (hq : Tokens Token.OneLine q) (h : t.rescan b o q d = .error e) :
    '\n' ∉ e.message.toList := by
  induction o, q, d using rescan_induction t b with
  | nil o d =>
    rw [rescan_nil] at h
    cases h
  | enable o d name q ih => exact ih hq.tail (rescan_enable ▸ h)
  | write o d x q v ha ih =>
    rw [rescan_write ha] at h
    cases hs : t.rescan b o q d with
    | ok s =>
      rw [hs] at h
      cases h
    | error e' =>
      rw [hs] at h
      cases h
      exact ih hq.tail hs
  | replace o d x q m ha ih => exact ih (tokens_of_replace ht.carries hq ha) (rescan_replace ha ▸ h)
  | invoke o d x q m params a ha iha ih =>
    rw [rescan_invoke ha] at h
    cases hr : t.replaceArguments b d a.args with
    | ok args =>
      rw [hr] at h
      exact ih args hr (tokens_of_invoke oneLine_of_value ht.carries hq ha hr) h
    | error e' =>
      rw [hr] at h
      cases h
      obtain ⟨arg, harg, he⟩ := exists_of_replaceArguments_error hr
      have hargs := (mem_of_invocation (enabled_of_invoke ha).2).1 arg harg
      exact iha arg harg (tokens_ofTokens.mpr fun y hy => hq.tail y (hargs y hy)) he
  | wait o d x q ha =>
    rw [rescan_wait ha] at h
    cases h
  | fail o d x q e' ha =>
    rw [rescan_fail ha] at h
    cases h
    refine Error.oneLine_message fun name hn => ?_
    obtain rfl := Option.some.inj ((name_of_fail ha).symm.trans hn)
    exact hq x List.mem_cons_self

lemma oneLine_of_map_rescan_error {o : Bool} {α : Type} {f : Rescan → α} {e : Error}
    (ht : t.Bodies Token.OneLine) (hts : ∀ x ∈ ts, x.OneLine)
    (h : (t.rescan b o (Pending.ofTokens ts) []).map f = .error e) : '\n' ∉ e.message.toList := by
  cases hr : t.rescan b o (Pending.ofTokens ts) [] with
  | ok r =>
    rw [hr] at h
    cases h
  | error e' =>
    rw [hr] at h
    cases h
    exact oneLine_of_rescan_error ht (tokens_ofTokens.mpr hts) hr

lemma oneLine_of_expand_error {e : Error} (ht : t.Bodies Token.OneLine) (hts : ∀ x ∈ ts, x.OneLine)
    (h : t.expand b ts = .error e) : '\n' ∉ e.message.toList :=
  oneLine_of_map_rescan_error ht hts h

lemma oneLine_of_expandOpen_error {e : Error} (ht : t.Bodies Token.OneLine)
    (hts : ∀ x ∈ ts, x.OneLine) (h : t.expandOpen b ts = .error e) : '\n' ∉ e.message.toList :=
  oneLine_of_map_rescan_error ht hts h

lemma plain_of_expand (hb : 0 ≤ b.line) (ht : t.Bodies Token.Plain) (hts : ∀ x ∈ ts, x.Plain)
    (h : t.expand b ts = .ok out) : ∀ x ∈ out, x.Plain :=
  forall_of_expand (plain_of_value hb) ht hts h

lemma oneLine_of_define_error {name : String} {m : Macro} {e : Error} (hn : '\n' ∉ name.toList)
    (h : t.define name m = .error e) : '\n' ∉ e.message.toList := by
  have hname : e.name? = some name := by grind [Table.define, Error.name?]
  exact Error.oneLine_message fun n h => Option.some.inj (hname.symm.trans h) ▸ hn

lemma oneLine_of_undefine_error {name : String} {e : Error} (hn : '\n' ∉ name.toList)
    (h : t.undefine name = .error e) : '\n' ∉ e.message.toList := by
  have hname : e.name? = some name := by grind [Table.undefine, Error.name?]
  exact Error.oneLine_message fun n h => Option.some.inj (hname.symm.trans h) ▸ hn

lemma mem_of_testedName {ts rest : List Token} {name : String} {x : Token}
    (h : testedName? ts = some (name, rest)) (hx : x ∈ rest) : x ∈ ts := by
  have htrim {ys : List Token} {y : Token} {zs : List Token} (hys : Token.trimStart ys = y :: zs) :
      ∀ z ∈ zs, z ∈ ys :=
    fun z hz => (List.dropWhile_sublist _).subset (hys ▸ List.mem_cons_of_mem y hz)
  rw [testedName?] at h
  split at h
  · cases h
  rename_i t ts₁ h₁
  split at h
  · obtain ⟨-, rfl⟩ := Prod.mk.inj (Option.some.inj h)
    exact htrim h₁ x hx
  split at h
  · split at h
    · cases h
    rename_i n ts₂ h₂
    split at h
    · cases h
    rename_i close ts₃ h₃
    split at h
    · obtain ⟨-, rfl⟩ := Prod.mk.inj (Option.some.inj h)
      exact htrim h₁ x (htrim h₂ x (htrim h₃ x hx))
    · cases h
  · cases h

lemma plain_definedToken (t : Table) (name : String) : (t.definedToken name).Plain := by
  rw [definedToken]
  split
  · exact ⟨newline_notMem_ofList (by decide), fun _ => by decide⟩
  · exact ⟨newline_notMem_ofList (by decide), fun _ => by decide⟩

lemma resolveDefined_cases (hts : ∀ x ∈ ts, x.Plain) :
    t.resolveDefined ts = .error .badDefined ∨ ∃ out, t.resolveDefined ts = .ok out ∧
    ∀ x ∈ out, x.Plain := by
  have hcons {x : Token} {r : Except Error (List Token)} (hx : x.Plain)
      (h : r = .error .badDefined ∨ ∃ out, r = .ok out ∧ ∀ y ∈ out, y.Plain) :
      r.map (x :: ·) = .error .badDefined ∨ ∃ out, r.map (x :: ·) = .ok out ∧
      ∀ y ∈ out, y.Plain := by
    rcases h with rfl | ⟨out, rfl, hout⟩
    · exact .inl rfl
    · exact .inr ⟨x :: out, rfl, List.forall_mem_cons.mpr ⟨hx, hout⟩⟩
  fun_induction resolveDefined t ts with
  | case1 => exact .inr ⟨[], rfl, List.forall_mem_nil _⟩
  | case2 => exact .inl rfl
  | case3 tok rest _ name after htested ih =>
    have hafter := fun x hx => hts x (List.mem_cons_of_mem _ (mem_of_testedName htested hx))
    exact hcons (plain_definedToken t name) (ih hafter)
  | case4 tok rest _ ih =>
    rw [List.forall_mem_cons] at hts
    exact hcons hts.1 (ih hts.2)

end Table

end Macro

namespace Condition

def Error.quoted? : Error → Option String
  | .unexpected text | .badInteger text => some text
  | _ => none

lemma Error.oneLine_message {e : Error} (h : ∀ text, e.quoted? = some text → '\n' ∉ text.toList) :
    '\n' ∉ e.message.toList := by
  cases e with
  | unexpected text =>
    have hquoted :=
      newline_notMem_append (a := "unexpected '") (newline_notMem_ofList (by decide)) (h text rfl)
    exact newline_notMem_append hquoted (newline_notMem_ofList (by decide))
  | badInteger text =>
    have hquoted :=
      newline_notMem_append (a := "invalid integer constant '") (newline_notMem_ofList (by decide))
      (h text rfl)
    exact newline_notMem_append hquoted (newline_notMem_ofList (by decide))
  | expectedExpression | missingCloseParen | divisionByZero =>
    exact newline_notMem_ofList (by decide)

variable {P : Token → Prop}

def Keeps (P : Token → Prop) : Except Error (Int64 × List Token) → Prop
  | .ok (_, rest) => ∀ t ∈ rest, P t
  | .error e => ∀ text, e.quoted? = some text → ∃ t, P t ∧ t.text = text

lemma Keeps.map {r : Except Error (Int64 × List Token)} (h : Keeps P r) (f : Int64 → Int64) :
    Keeps P (r.map fun p => (f p.1, p.2)) := by
  cases r <;> exact h

lemma keeps_quoted {e : Error} {t : Token} (ht : P t) (he : e.quoted? = some t.text) :
    Keeps P (.error e) :=
  fun _ htext => ⟨t, ht, Option.some.inj (he.symm.trans htext)⟩

lemma keeps_unquoted {e : Error} (he : e.quoted? = none) : Keeps P (.error e) :=
  fun _ htext => nomatch he.symm.trans htext

lemma keeps_unary {t : Token} {rest : List Token} (s : Sign) (ht : t.isPunct s.text)
    (h : (∀ x ∈ rest, P x) → Keeps P (outcome (operand rest))) (hts : ∀ x ∈ t :: rest, P x) :
    Keeps P (outcome (operand (t :: rest))) := by
  rw [outcome_unary rest ht]
  exact (h (List.forall_mem_cons.mp hts).2).map _

lemma keeps_outcome (P : Token → Prop) :
    (∀ ts, (∀ t ∈ ts, P t) → Keeps P (outcome (operand ts))) ∧
    (∀ least ts, (∀ t ∈ ts, P t) → Keeps P (outcome (expression least ts))) ∧
    ∀ least left ts, (∀ t ∈ ts, P t) → Keeps P (outcome (climb least left ts)) := by
  refine operand.mutual_induct
    (fun ts => (∀ t ∈ ts, P t) → Keeps P (outcome (operand ts)))
    (fun least ts => (∀ t ∈ ts, P t) → Keeps P (outcome (expression least ts)))
    (fun least left ts => (∀ t ∈ ts, P t) → Keeps P (outcome (climb least left ts)))
    ?empty ?name ?literal ?not ?complement ?minus ?plus ?openError ?openEnd ?close ?openOther
      ?punct ?other
    ?noOperand ?operand ?climbEnd ?noOperator ?loose ?noRight ?noResult ?step
  case empty =>
    intro _
    rw [operand]
    exact keeps_unquoted rfl
  case name =>
    intro t rest hk hts
    rw [outcome_name rest hk]
    exact (List.forall_mem_cons.mp hts).2
  case literal =>
    intro t rest hk hts
    rw [List.forall_mem_cons] at hts
    rw [outcome_literal rest hk]
    obtain ⟨v, hl⟩ | he := Expr.literal_cases t.text
    · rw [hl]
      exact hts.2
    · rw [he]
      exact keeps_quoted hts.1 rfl
  case not => exact fun t rest hk ht ih hts => keeps_unary .not (isPunct_of_text hk ht) ih hts
  case complement =>
    exact fun t rest hk ht ih hts => keeps_unary .complement (isPunct_of_text hk ht) ih hts
  case minus => exact fun t rest hk ht ih hts => keeps_unary .minus (isPunct_of_text hk ht) ih hts
  case plus => exact fun t rest hk ht ih hts => keeps_unary .plus (isPunct_of_text hk ht) ih hts
  case openError =>
    intro t rest hk ht e he ih hts
    have hrest := ih (List.forall_mem_cons.mp hts).2
    rw [he] at hrest
    rw [outcome_open rest (isPunct_of_text hk ht), he]
    exact hrest
  case openEnd =>
    intro t rest hk ht a hlt he ih hts
    rw [outcome_open rest (isPunct_of_text hk ht), he]
    exact keeps_unquoted rfl
  case close =>
    intro t rest hk ht a close after hlt he hc ih hts
    have hrest := ih (List.forall_mem_cons.mp hts).2
    rw [he] at hrest
    rw [outcome_open rest (isPunct_of_text hk ht), he]
    dsimp only [outcome, Except.map, Except.bind]
    rw [if_pos hc]
    exact (List.forall_mem_cons.mp hrest).2
  case openOther =>
    intro t rest hk ht a close after hlt he hc ih hts
    have hrest := ih (List.forall_mem_cons.mp hts).2
    rw [he] at hrest
    rw [outcome_open rest (isPunct_of_text hk ht), he]
    dsimp only [outcome, Except.map, Except.bind]
    rw [if_neg hc]
    exact keeps_quoted (List.forall_mem_cons.mp hrest).1 rfl
  case punct =>
    intro t rest hk hn hc hm hp ho hts
    rw [operand, hk]
    dsimp only
    split
    · exact (hn ‹_›).elim
    · exact (hc ‹_›).elim
    · exact (hm ‹_›).elim
    · exact (hp ‹_›).elim
    · exact (ho ‹_›).elim
    · exact keeps_quoted (List.forall_mem_cons.mp hts).1 rfl
  case other =>
    intro t rest hi hn hp hts
    rw [operand]
    split
    · exact (hi ‹_›).elim
    · exact (hn ‹_›).elim
    · exact (hp ‹_›).elim
    · exact keeps_quoted (List.forall_mem_cons.mp hts).1 rfl
  case noOperand =>
    intro least ts e he ih hts
    have hoperand := ih hts
    rw [he] at hoperand
    rw [outcome_expression, he]
    exact hoperand
  case operand =>
    intro least ts a mid hlt he ih ihc hts
    have hoperand := ih hts
    rw [he] at hoperand
    rw [outcome_expression, he]
    exact ihc hoperand
  case climbEnd =>
    intro least left hts
    rw [outcome_climb_of_stops (stops_nil least)]
    exact hts
  case noOperator =>
    intro least left t ts ho hts
    rw [outcome_climb_of_stops (stops_cons_of_none ho)]
    exact hts
  case loose =>
    intro least left t ts op ho hlt hts
    have htext := Operator.ofToken_eq_some_iff.mp ho
    rw [outcome_climb_of_stops ((stops_cons_of_operator htext).mpr hlt)]
    exact hts
  case noRight =>
    intro least left t ts op ho hle e he ih hts
    have hright := ih (List.forall_mem_cons.mp hts).2
    rw [he] at hright
    rw [outcome_climb ts ho (Nat.not_lt.mp hle), he]
    exact hright
  case noResult =>
    intro least left t ts op ho hle b after hlt he e ha ih hts
    rw [outcome_climb ts ho (Nat.not_lt.mp hle), he]
    dsimp only [outcome, Except.map, Except.bind]
    rw [ha]
    have hzero : e = .divisionByZero := by
      cases op <;> grind [Operator.apply]
    rw [hzero]
    exact keeps_unquoted rfl
  case step =>
    intro least left t ts op ho hle b after hlt he c ha ihr ihc hts
    have hright := ihr (List.forall_mem_cons.mp hts).2
    rw [he] at hright
    rw [outcome_climb ts ho (Nat.not_lt.mp hle), he]
    dsimp only [outcome, Except.map, Except.bind]
    rw [ha]
    exact ihc hright

theorem oneLine_of_evaluate_error {ts : List Token} {e : Error} (hts : ∀ t ∈ ts, t.OneLine)
    (h : evaluate ts = .error e) : '\n' ∉ e.message.toList := by
  have hsolid : ∀ t ∈ Token.solid ts, t.OneLine := fun t ht => hts t (List.mem_filter.mp ht).1
  have hkeeps := (keeps_outcome Token.OneLine).2.1 0 _ hsolid
  have hquoted : Keeps Token.OneLine (.error e) := by
    rw [evaluate] at h
    rcases hx : expression 0 (Token.solid ts) with e' | ⟨a, _ | ⟨t, rest⟩, hlt⟩ <;>
      rw [hx] at h hkeeps
    · cases h
      exact hkeeps
    · cases h
    · cases h
      exact keeps_quoted (List.forall_mem_cons.mp hkeeps).1 rfl
  refine Error.oneLine_message fun text htext => ?_
  obtain ⟨t, ht, rfl⟩ := hquoted text htext
  exact ht

end Condition

namespace Preprocess

def Cause.quoted? : Cause → Option String
  | .replacement e => some e.message
  | .condition e => some e.message
  | .inclusion e => some e.message
  | .requested text | .badParameters text | .unsupportedBehavior text => some text
  | _ => none

def Cause.Fits (c : Cause) : Prop :=
  (∃ e, c = .inclusion e) ∨ '\n' ∉ c.message.toList

lemma Cause.fits_of_quoted {c : Cause} (h : ∀ text, c.quoted? = some text → '\n' ∉ text.toList) :
    c.Fits := by
  right
  cases c with
  | replacement e => exact h _ rfl
  | condition e => exact h _ rfl
  | inclusion e => exact h _ rfl
  | requested text => exact h _ rfl
  | badParameters name | unsupportedBehavior name =>
    exact newline_notMem_append (newline_notMem_ofList (by decide)) (h name rfl)
  | includesDisabled =>
    exact newline_notMem_append (a := "required extension not requested: ")
      (newline_notMem_ofList (by decide))
      (newline_notMem_ofList (by decide))
  | _ => exact newline_notMem_ofList (by decide)

lemma Cause.fits_of_unquoted {c : Cause} (h : c.quoted? = none) : c.Fits :=
  c.fits_of_quoted fun _ htext => nomatch h.symm.trans htext

lemma fits_of_extensionSetting {args : List Token} {c : Cause} (ha : ∀ t ∈ args, t.OneLine)
    (h : extensionSetting args = .error c) : c.Fits := by
  have hsolid : ∀ t ∈ Token.solid args, t.OneLine := fun t ht => ha t (List.mem_filter.mp ht).1
  rw [extensionSetting] at h
  split at h
  · cases h
    exact Cause.fits_of_unquoted rfl
  rename_i name rest hname
  rw [hname, List.forall_mem_cons] at hsolid
  split at h
  · cases h
    exact Cause.fits_of_unquoted rfl
  split at h
  · split at h
    · split at h
      · cases h
      · cases h
        refine Cause.fits_of_quoted fun text htext => ?_
        obtain rfl := Option.some.inj htext
        exact hsolid.2 _ (by simp)
    · cases h
      exact Cause.fits_of_unquoted rfl
  all_goals
    cases h
    exact Cause.fits_of_unquoted rfl

lemma fits_of_includeTarget {args : List Token} {c : Cause} (h : includeTarget args = .error c) :
    c.Fits := by
  unfold includeTarget at h
  split at h
  · cases h
    exact Cause.fits_of_unquoted rfl
  dsimp only at h
  split at h
  · cases h
    exact Cause.fits_of_unquoted rfl
  split at h
  · cases h
    exact Cause.fits_of_unquoted rfl
  · cases h

variable {σ : Type}

lemma Reading.fits_of_conditionValue {r : Reading σ} {args : List Token} {c : Cause}
    (hline : 0 ≤ r.place.line) (ht : r.run.table.Bodies Token.Plain) (ha : ∀ t ∈ args, t.Plain)
    (h : r.conditionValue args = .error c) : c.Fits := by
  have hb : r.run.table.Bodies Token.OneLine := ht.imp fun _ hx => hx.oneLine
  rw [conditionValue] at h
  rcases Macro.Table.resolveDefined_cases (t := r.run.table) ha with he | ⟨tested, htested, hplain⟩
  · rw [he] at h
    cases h
    exact .inr (newline_notMem_ofList (by decide))
  rw [htested] at h
  dsimp only at h
  cases hx : r.run.table.expand r.builtins tested with
  | error e =>
    rw [hx] at h
    cases h
    exact .inr (Macro.Table.oneLine_of_expand_error hb (fun x hx => (hplain x hx).oneLine) hx)
  | ok expanded =>
    have hexpanded := Macro.Table.plain_of_expand hline ht hplain hx
    rw [hx] at h
    dsimp only at h
    cases hv : Condition.evaluate expanded with
    | ok v =>
      rw [hv] at h
      cases h
    | error e =>
      rw [hv] at h
      cases h
      exact .inr (Condition.oneLine_of_evaluate_error (fun x hx => (hexpanded x hx).oneLine) hv)

end Preprocess

end ShaderPipeline
