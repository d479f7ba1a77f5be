import ShaderPipeline.Preprocess.Directive
import ShaderPipeline.Proofs.Macro.Calls
import ShaderPipeline.Proofs.Token.Spacing

/-! Which tokens are the parameter list of a macro, and how many passes it takes to tell. -/

namespace ShaderPipeline.Preprocess

open Token

namespace Parameters

variable {ts us rest : List Token} {t : Token} {names seen : List String}

def further (names : List String) : List Token :=
  names.flatMap fun n => [punct ",", ident n]

def listed : List String → List Token
  | [] => []
  | n :: names => ident n :: further names

/-- The tokens up to a closing parenthesis are `xs`, apart from spaces, and `rest` is what stands
behind it, without the spaces at its end. -/
def ClosedBy (xs ts rest : List Token) : Prop :=
  ∃ list after, ts = list ++ punct ")" :: after ∧ solid list = xs ∧ rest = trimEnd after

structure IsList (names : List String) (ts rest : List Token) : Prop where
  distinct : names.Nodup
  closed : ClosedBy (listed names) ts rest

lemma closedBy_space (ht : t.isSpace = true) (xs : List Token) :
    ClosedBy xs (t :: ts) rest ↔ ClosedBy xs ts rest := by
  constructor
  · rintro ⟨_ | ⟨x, list⟩, after, hts, hlist, hrest⟩
    · cases hts
      cases ht
    · obtain ⟨rfl, rfl⟩ := List.cons.inj hts
      exact ⟨list, after, rfl, by rwa [solid, List.filter_cons_of_neg
        (by simp [ht])] at hlist, hrest⟩
  · rintro ⟨list, after, rfl, hlist, hrest⟩
    exact ⟨t :: list, after, rfl, by rwa [solid, List.filter_cons_of_neg (by simp [ht])], hrest⟩

lemma closedBy_concat_space (ht : t.isSpace = true) (xs : List Token) :
    ClosedBy xs (ts ++ [t]) rest ↔ ClosedBy xs ts rest := by
  have hend : ∀ us, trimEnd (us ++ [t]) = trimEnd us :=
    fun us => List.rdropWhile_concat_pos isSpace us t ht
  constructor
  · rintro ⟨list, after, hts, hlist, rfl⟩
    rcases List.eq_nil_or_concat after with rfl | ⟨after, u, rfl⟩
    · obtain ⟨-, hlast⟩ := List.append_inj' hts rfl
      obtain rfl := List.singleton_inj.mp hlast
      cases ht
    · rw [List.concat_eq_append, ← List.cons_append, ← List.append_assoc] at hts
      obtain ⟨rfl, hlast⟩ := List.append_inj' hts rfl
      obtain rfl := List.singleton_inj.mp hlast
      exact ⟨list, after, rfl, hlist, by rw [List.concat_eq_append, hend]⟩
  · rintro ⟨list, after, rfl, hlist, rfl⟩
    exact ⟨list, after ++ [t], by rw [List.append_assoc, List.cons_append], hlist,
      (hend after).symm⟩

lemma closedBy_trimStart (xs ts : List Token) :
    ClosedBy xs (trimStart ts) rest ↔ ClosedBy xs ts rest := by
  induction ts with
  | nil => rfl
  | cons t ts ih =>
    cases ht : t.isSpace with
    | true => rw [trimStart, List.dropWhile_cons_of_pos ht, ← trimStart, ih, closedBy_space ht]
    | false => rw [trimStart, List.dropWhile_cons_of_neg (by simp [ht])]

lemma closedBy_trimEnd (xs ts : List Token) :
    ClosedBy xs (trimEnd ts) rest ↔ ClosedBy xs ts rest := by
  induction ts using List.reverseRecOn with
  | nil => rfl
  | append_singleton ts t ih =>
    cases ht : t.isSpace with
    | true =>
      have hend : trimEnd (ts ++ [t]) = trimEnd ts := List.rdropWhile_concat_pos isSpace ts t ht
      rw [hend, ih, closedBy_concat_space ht]
    | false =>
      have hend : trimEnd (ts ++ [t]) = ts ++ [t] :=
        List.rdropWhile_concat_neg isSpace ts t (by simp [ht])
      rw [hend]

lemma closedBy_trim (xs ts : List Token) : ClosedBy xs (trim ts) rest ↔ ClosedBy xs ts rest := by
  rw [trim, closedBy_trimEnd, closedBy_trimStart]

lemma not_closedBy_nil (xs : List Token) : ¬ ClosedBy xs [] rest := by
  rintro ⟨list, after, hts, -⟩
  exact List.append_ne_nil_of_right_ne_nil list (List.cons_ne_nil _ _) hts.symm

lemma nil_closedBy (ht : t.isSpace = false) :
    ClosedBy [] (t :: ts) rest ↔ t = punct ")" ∧ rest = trimEnd ts := by
  constructor
  · rintro ⟨_ | ⟨x, list⟩, after, hts, hlist, hrest⟩
    · obtain ⟨rfl, rfl⟩ := List.cons.inj hts
      exact ⟨rfl, hrest⟩
    · obtain ⟨rfl, rfl⟩ := List.cons.inj hts
      rw [solid_cons ht] at hlist
      cases hlist
  · rintro ⟨rfl, rfl⟩
    exact ⟨[], ts, rfl, rfl, rfl⟩

lemma cons_closedBy (ht : t.isSpace = false) (x : Token) (xs : List Token) :
    ClosedBy (x :: xs) (t :: ts) rest ↔ t = x ∧ ClosedBy xs ts rest := by
  constructor
  · rintro ⟨_ | ⟨y, list⟩, after, hts, hlist, hrest⟩
    · cases hlist
    · obtain ⟨rfl, rfl⟩ := List.cons.inj hts
      rw [solid_cons ht] at hlist
      obtain ⟨hx, hxs⟩ := List.cons.inj hlist
      exact ⟨hx, list, after, rfl, hxs, hrest⟩
  · rintro ⟨rfl, list, after, rfl, hlist, hrest⟩
    exact ⟨t :: list, after, rfl, by rw [solid_cons ht, hlist], hrest⟩

lemma nil_closedBy_iff : ClosedBy [] ts rest ↔ trim ts = punct ")" :: rest := by
  rw [← closedBy_trim]
  rcases h : trim ts with _ | ⟨t, us⟩
  · exact iff_of_false (not_closedBy_nil []) nofun
  · rw [nil_closedBy (isSpace_head_trim h), trimEnd_of_trim h, List.cons.injEq, eq_comm (a := rest)]

lemma cons_closedBy_iff (x : Token) (xs : List Token) :
    ClosedBy (x :: xs) ts rest ↔ ∃ us, trim ts = x :: us ∧ ClosedBy xs us rest := by
  rw [← closedBy_trim]
  rcases h : trim ts with _ | ⟨t, us⟩
  · refine iff_of_false (not_closedBy_nil _) ?_
    rintro ⟨_, ⟨⟩, -⟩
  · rw [cons_closedBy (isSpace_head_trim h)]
    constructor
    · rintro ⟨rfl, hus⟩
      exact ⟨us, rfl, hus⟩
    · rintro ⟨us', heq, hus⟩
      obtain ⟨rfl, rfl⟩ := List.cons.inj heq
      exact ⟨rfl, hus⟩

def Continues (seen names : List String) (ts rest : List Token) : Prop :=
  ∃ n new, names = seen ++ n :: new ∧ ClosedBy (ident n :: further new) ts rest

lemma not_continues_nil : ¬ Continues seen names [] rest := by
  rintro ⟨n, new, -, h⟩
  exact not_closedBy_nil _ h

lemma continues_trim : Continues seen names (trim ts) rest ↔ Continues seen names ts rest := by
  simp only [Continues, closedBy_trim]

lemma continues_ident (m : String) : Continues seen names (ident m :: ts) rest ↔
    names = seen ++ [m] ∧ trim ts = punct ")" :: rest ∨
      ∃ us, trim ts = punct "," :: us ∧ Continues (seen ++ [m]) names us rest := by
  have hident : ∀ n xs, ClosedBy (ident n :: xs) (ident m :: ts) rest ↔ ident m = ident n ∧
      ClosedBy xs ts rest :=
    fun n xs => cons_closedBy rfl _ xs
  have hcomma : ∀ k new, ClosedBy (further (k :: new)) ts rest ↔
      ∃ us, trim ts = punct "," :: us ∧ ClosedBy (ident k :: further new) us rest :=
    fun k new => cons_closedBy_iff _ _
  constructor
  · rintro ⟨n, _ | ⟨k, new⟩, rfl, h⟩
    · obtain ⟨⟨⟩, hend⟩ := (hident n _).mp h
      exact .inl ⟨rfl, nil_closedBy_iff.mp hend⟩
    · obtain ⟨⟨⟩, hnext⟩ := (hident n _).mp h
      obtain ⟨us, hus, hnames⟩ := (hcomma k new).mp hnext
      exact .inr ⟨us, hus, k, new, by rw [List.append_assoc, List.singleton_append], hnames⟩
  · rintro (⟨rfl, hend⟩ | ⟨us, hus, k, new, rfl, hnames⟩)
    · exact ⟨m, [], rfl, (hident m _).mpr ⟨rfl, nil_closedBy_iff.mpr hend⟩⟩
    · refine ⟨m, k :: new, by rw [List.append_assoc, List.singleton_append],
        (hident m _).mpr ⟨rfl, ?_⟩⟩
      exact (hcomma k new).mpr ⟨us, hus, hnames⟩

inductive Pass
  | refused
  | ended (names : List String) (rest : List Token)
  | next (seen : List String) (ts : List Token)

def pass (seen : List String) (ts : List Token) : Pass :=
  match ts with
  | [] => .refused
  | name :: rest =>
    if name.kind ≠ .ident ∨ name.text ∈ seen then .refused
    else match trim rest with
      | [] => .refused
      | sep :: after =>
        match sep.text with
        | ")" => .ended (seen ++ [name.text]) after
        | "," => .next (seen ++ [name.text]) (trim after)
        | _ => .refused

def passes : Nat → List String → List Token → Option (Option (List String × List Token))
  | 0, _, _ => none
  | n + 1, seen, ts =>
    match pass seen ts with
    | .refused => some none
    | .ended names rest => some (some (names, rest))
    | .next seen ts => passes n seen ts

lemma length_next {seen' : List String} (h : pass seen ts = .next seen' us) :
    us.length + 2 ≤ ts.length := by
  fun_cases pass seen ts with
  | case5 name rest hn sep after htrim hcomma =>
    have hus : trim after = us := by simp_all [pass]
    have hrest := length_trim_le rest
    have hafter := length_trim_le after
    rw [htrim, List.length_cons] at hrest
    rw [hus] at hafter
    rw [List.length_cons]
    omega
  | case1 | case2 | case3 | case4 | case6 => simp_all [pass]

lemma parameterNames_pass (seen : List String) (ts : List Token) : parameterNames? seen ts =
    match pass seen ts with
    | .refused => none
    | .ended names rest => some (names, rest)
    | .next seen ts => parameterNames? seen ts := by
  fun_cases parameterNames? seen ts <;> simp_all [pass]

theorem passes_eq {n : Nat} (h : ts.length < 2 * n) :
    passes n seen ts = some (parameterNames? seen ts) := by
  induction n generalizing seen ts with
  | zero => omega
  | succ n ih =>
    rw [passes, parameterNames_pass]
    cases hpass : pass seen ts with
    | refused => rfl
    | ended names rest => rfl
    | next seen' us =>
      have hlength := length_next hpass
      apply ih
      omega

lemma exists_ident (h : ¬ (t.kind ≠ .ident ∨ t.text ∈ seen)) (hseen : seen.Nodup) :
    ∃ m, t = ident m ∧ (seen ++ [m]).Nodup := by
  obtain ⟨hkind, hmem⟩ := not_or.mp h
  obtain ⟨kind, m⟩ := t
  obtain rfl : kind = .ident := not_not.mp hkind
  exact ⟨m, rfl, List.concat_eq_append ▸ hseen.concat hmem⟩

lemma eq_punct_of_trim (hts : ∀ t ∈ ts, t.IsLexeme) (h : trim ts = t :: us) {text : String}
    (hpunct : tokenize text = [punct text]) (ht : t.text = text) : t = punct text := by
  have hlexeme : t.IsLexeme := hts t (mem_of_mem_trim (h ▸ .head us))
  rw [IsLexeme, ht, hpunct] at hlexeme
  exact (List.singleton_inj.mp hlexeme).symm

theorem parameterNames_eq_some_iff (hts : ∀ t ∈ ts, t.IsLexeme)
    (hhead : ∀ t, ts.head? = some t → t.isSpace = false) (hseen : seen.Nodup) :
    parameterNames? seen ts = some (names, rest) ↔ names.Nodup ∧ Continues seen names ts rest := by
  have hother : punct "," ≠ punct ")" := by decide
  fun_induction parameterNames? seen ts with
  | case1 seen => exact iff_of_false nofun fun h => not_continues_nil h.2
  | case2 seen name ts hn =>
    refine iff_of_false nofun ?_
    rintro ⟨hnodup, n, new, rfl, h⟩
    obtain ⟨rfl, -⟩ := (cons_closedBy (hhead name rfl) (ident n) (further new)).mp h
    rcases hn with hkind | hmem
    · exact hkind rfl
    · exact (List.disjoint_of_nodup_append hnodup) hmem (.head _)
  | case3 seen name ts hn htrim =>
    obtain ⟨m, rfl, -⟩ := exists_ident hn hseen
    rw [continues_ident, htrim]
    refine iff_of_false nofun ?_
    rintro ⟨-, ⟨-, ⟨⟩⟩ | ⟨us, ⟨⟩, -⟩⟩
  | case4 seen name ts hn sep after htrim hclose =>
    obtain ⟨m, rfl, hnodup⟩ := exists_ident hn hseen
    obtain rfl := eq_punct_of_trim (List.forall_mem_cons.mp hts).2 htrim (by cbv) hclose
    rw [continues_ident, htrim]
    constructor
    · rintro ⟨⟩
      exact ⟨hnodup, .inl ⟨rfl, rfl⟩⟩
    · rintro ⟨-, ⟨rfl, hend⟩ | ⟨us, hnext, -⟩⟩
      · rw [(List.cons.inj hend).2]
        rfl
      · exact (hother (List.cons.inj hnext).1.symm).elim
  | case5 seen name ts hn sep after htrim hcomma ih =>
    obtain ⟨m, rfl, hnodup⟩ := exists_ident hn hseen
    have htail := (List.forall_mem_cons.mp hts).2
    obtain rfl := eq_punct_of_trim htail htrim (by cbv) hcomma
    have hafter : ∀ t ∈ trim after, t.IsLexeme := fun t ht =>
      htail t (mem_of_mem_trim (htrim ▸ .tail _ (mem_of_mem_trim ht)))
    have hstart : ∀ t, (trim after).head? = some t → t.isSpace = false := fun t ht => by
      obtain ⟨us, hus⟩ := List.head?_eq_some_iff.mp ht
      exact isSpace_head_trim hus
    refine (ih hafter hstart hnodup).trans ?_
    rw [continues_trim, continues_ident, htrim]
    refine and_congr_right fun _ => ⟨fun h => .inr ⟨after, rfl, h⟩, ?_⟩
    rintro (⟨-, hend⟩ | ⟨us, hnext, h⟩)
    · exact (hother (List.cons.inj hend).1).elim
    · rwa [← (List.cons.inj hnext).2] at h
  | case6 seen name ts hn sep after htrim hclose hcomma =>
    obtain ⟨m, rfl, -⟩ := exists_ident hn hseen
    refine iff_of_false nofun ?_
    rw [continues_ident, htrim]
    rintro ⟨-, ⟨-, ⟨⟩⟩ | ⟨us, ⟨⟩, -⟩⟩
    · exact hclose rfl
    · exact hcomma rfl

theorem parameters_eq_some_iff (hts : ∀ t ∈ ts, t.IsLexeme) :
    parameters? ts = some (names, rest) ↔ IsList names ts rest := by
  have hlist : IsList names ts rest ↔ names.Nodup ∧ ClosedBy (listed names) (trim ts) rest := by
    rw [closedBy_trim]
    exact ⟨fun h => ⟨h.distinct, h.closed⟩, fun h => ⟨h.1, h.2⟩⟩
  rw [hlist, parameters?.eq_def]
  rcases h : trim ts with _ | ⟨t, us⟩
  · exact iff_of_false nofun fun hclosed => not_closedBy_nil _ hclosed.2
  have ht := isSpace_head_trim h
  have hnil : ClosedBy (listed []) (t :: us) rest ↔ t = punct ")" ∧ rest = us := by
    rw [listed, nil_closedBy ht, trimEnd_of_trim h]
  dsimp only
  split
  · rename_i hclose
    obtain rfl := Macro.isPunct_iff.mp hclose
    cases names with
    | nil =>
      rw [hnil, and_iff_right List.nodup_nil, and_iff_right rfl, Option.some.injEq, Prod.mk.injEq,
        and_iff_right rfl]
      exact eq_comm
    | cons n new =>
      rw [listed, cons_closedBy ht]
      refine iff_of_false nofun ?_
      rintro ⟨-, ⟨⟩, -⟩
  · rename_i hclose
    have hstart : ∀ x, (t :: us).head? = some x → x.isSpace = false :=
      fun x hx => Option.some.inj hx ▸ ht
    rw [parameterNames_eq_some_iff (fun x hx => hts x (mem_of_mem_trim (h ▸ hx))) hstart
      List.nodup_nil]
    refine and_congr_right fun _ => ?_
    cases names with
    | nil =>
      refine iff_of_false ?_ fun hend => hclose (Macro.isPunct_iff.mpr (hnil.mp hend).1)
      rintro ⟨n, new, ⟨⟩, -⟩
    | cons n new =>
      constructor
      · rintro ⟨_, _, ⟨⟩, hnames⟩
        exact hnames
      · exact fun hnames => ⟨n, new, rfl, hnames⟩

end Parameters

open Parameters

theorem parameter_lists_read {line : String} {ts : List Token} (hts : ts <:+: tokenize line) :
    (∀ names rest, parameters? ts = some (names, rest) ↔ IsList names ts rest) ∧
      (parameters? ts = none ↔ ∀ names rest, ¬ IsList names ts rest) ∧
      ∀ seen us, passes (us.length / 2 + 1) seen us = some (parameterNames? seen us) := by
  have hlexeme : ∀ t ∈ ts, t.IsLexeme := fun t ht => isLexeme_of_scan t (hts.subset ht)
  have hread : ∀ names rest, parameters? ts = some (names, rest) ↔ IsList names ts rest :=
    fun _ _ => parameters_eq_some_iff hlexeme
  refine ⟨hread, ?_, fun seen us => ?_⟩
  · rw [Option.eq_none_iff_forall_ne_some, Prod.forall]
    exact forall₂_congr fun names rest => not_congr (hread names rest)
  · apply passes_eq
    omega

theorem parameter_lists_read_of_spaces :
    let ts :=
  [blank, ident "a", blank, punct ",", ident "b", blank, punct ")", blank, ident "x", blank]
    ts <:+: tokenize "F( a ,b ) x " ∧ parameters? ts = some (["a", "b"], [blank, ident "x"]) := by
  intro ts
  have hline : tokenize "F( a ,b ) x " = [ident "F", punct "("] ++ ts := by cbv
  have hpart : ts <:+: tokenize "F( a ,b ) x " := hline ▸ (List.suffix_append _ _).isInfix
  have hlist : IsList ["a", "b"] ts [blank, ident "x"] :=
    ⟨by decide, [blank, ident "a", blank, punct ",", ident "b", blank], [blank, ident "x",
      blank], rfl, rfl, rfl⟩
  exact ⟨hpart, ((parameter_lists_read hpart).1 _ _).mpr hlist⟩

end ShaderPipeline.Preprocess
