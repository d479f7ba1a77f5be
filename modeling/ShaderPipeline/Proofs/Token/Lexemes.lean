import Mathlib
import ShaderPipeline.Proofs.Text.Strip
import ShaderPipeline.Proofs.Token.OneLine

/-! When the text of a list of tokens is read as these tokens again. -/

namespace ShaderPipeline.Token

variable {c last : Char} {s cs ds : List Char} {k : Kind} {t : Token}

def StartsLike (ds cs : List Char) : Prop :=
  ∀ d, ds.head? = some d → cs.head? = some d

lemma startsLike_nil : StartsLike [] cs := by
  rintro d ⟨⟩

lemma StartsLike.append (h : StartsLike ds cs) (s : List Char) :
    StartsLike (s ++ ds) (s ++ cs) := by
  cases s with
  | nil => exact h
  | cons c s => exact fun d hd => hd

lemma takeWhile_exact_iff {p : Char → Bool} : (s ++ cs).takeWhile p = s ↔
    (∀ x ∈ s, p x = true) ∧ ∀ d, cs.head? = some d → p d = false := by
  constructor
  · intro h
    have hs : ∀ x ∈ s, p x = true := fun x hx => by
      rw [← h] at hx
      exact List.all_eq_true.mp List.all_takeWhile x hx
    refine ⟨hs, fun d hd => ?_⟩
    obtain ⟨cs, rfl⟩ := List.head?_eq_some_iff.mp hd
    rw [List.takeWhile_append_of_pos hs] at h
    cases hp : p d with
    | false => rfl
    | true => simp [hp] at h
  · rintro ⟨hs, hd⟩
    rw [List.takeWhile_append_of_pos hs]
    cases cs with
    | nil => simp
    | cons d cs => simp [hd d rfl]

lemma takeWhile_startsLike {p : Char → Bool} (h : (s ++ cs).takeWhile p = s)
    (hd : StartsLike ds cs) : (s ++ ds).takeWhile p = s ∧ (s ++ ds).dropWhile p = ds := by
  obtain ⟨hs, hc⟩ := takeWhile_exact_iff.mp h
  have htake := takeWhile_exact_iff.mpr ⟨hs, fun d hds => hc d (hd d hds)⟩
  have hall := List.takeWhile_append_dropWhile (p := p) (l := s ++ ds)
  rw [htake] at hall
  exact ⟨htake, List.append_cancel_left hall⟩

lemma spanNumber_startsLike (h : spanNumber last (s ++ cs) = (s, cs)) (hd : StartsLike ds cs) :
    spanNumber last (s ++ ds) = (s, ds) := by
  induction s generalizing last with
  | nil =>
    cases ds with
    | nil => rfl
    | cons d ds =>
      obtain ⟨cs, rfl⟩ := List.head?_eq_some_iff.mp (hd d rfl)
      by_cases hn : continuesNumber last d
      · simp [spanNumber, hn] at h
      · simp [spanNumber, hn]
  | cons c s ih =>
    by_cases hn : continuesNumber last c
    · simp only [List.cons_append, spanNumber, hn, if_true, Prod.mk.injEq, List.cons.injEq,
        true_and] at h ⊢
      have hs := ih (Prod.ext h.1 h.2)
      exact ⟨congrArg Prod.fst hs, congrArg Prod.snd hs⟩
    · simp [spanNumber, hn] at h

lemma bne_quote_of_notMem (h : '"' ∉ s) : ∀ x ∈ s, (x != '"') = true := by
  intro x hx
  simpa using ne_of_mem_of_not_mem hx h

lemma spanString_iff : spanString (s ++ cs) = (s, cs) ↔
    (∃ body, '"' ∉ body ∧ s = body ++ ['"']) ∨ '"' ∉ s ∧ cs = [] := by
  constructor
  · intro h
    rw [spanString] at h
    split at h
    · rename_i hnone
      obtain ⟨-, rfl⟩ : s ++ cs = s ∧ [] = cs := by simpa using h
      refine .inr ⟨fun hq => ?_, rfl⟩
      simpa using List.dropWhile_eq_nil_iff.mp hnone '"' (by simpa using hq)
    · rename_i quote rest hq
      obtain ⟨hs, rfl⟩ : (s ++ cs).takeWhile (· != '"') ++ [quote] = s ∧ rest = cs := by
        simpa using h
      have hquote : quote = '"' := by
        have hn := Text.eq_false_of_head_dropWhile (congrArg List.head? hq)
        simpa using hn
      have hbody : '"' ∉ (s ++ rest).takeWhile (· != '"') := fun hm => by
        simpa using List.all_eq_true.mp List.all_takeWhile '"' hm
      subst hquote
      exact .inl ⟨_, hbody, hs.symm⟩
  · rintro (⟨body, hb, rfl⟩ | ⟨hs, rfl⟩)
    · have hbody := bne_quote_of_notMem hb
      rw [spanString, List.append_assoc, List.dropWhile_append_of_pos hbody,
        List.takeWhile_append_of_pos hbody]
      simp
    · have hnone := List.dropWhile_eq_nil_iff.mpr (bne_quote_of_notMem hs)
      rw [List.append_nil, spanString, hnone]

lemma spanString_startsLike (h : spanString (s ++ cs) = (s, cs)) (hd : StartsLike ds cs) :
    spanString (s ++ ds) = (s, ds) := by
  rcases spanString_iff.mp h with hclosed | ⟨hs, rfl⟩
  · exact spanString_iff.mpr (.inl hclosed)
  · cases ds with
    | nil => exact h
    | cons d ds => cases hd d rfl

lemma spanPunct_startsLike (h : spanPunct c (s ++ cs) = (s, cs)) (hd : StartsLike ds cs) :
    spanPunct c (s ++ ds) = (s, ds) := by
  rcases s with _ | ⟨e, s⟩
  · cases ds with
    | nil => rfl
    | cons d ds =>
      obtain ⟨cs, rfl⟩ := List.head?_eq_some_iff.mp (hd d rfl)
      by_cases hm : (c, d) ∈ digraphs
      · simp [spanPunct, hm] at h
      · simp [spanPunct, hm]
  · by_cases hm : (c, e) ∈ digraphs
    · obtain ⟨rfl, -⟩ : [] = s ∧ s ++ cs = cs := by simpa [spanPunct, hm] using h
      simp [spanPunct, hm]
    · simp [spanPunct, hm] at h

lemma startsNumber_startsLike (h : startsNumber c (s ++ cs) = false) (hd : StartsLike ds cs) :
    startsNumber c (s ++ ds) = false := by
  rw [startsNumber] at h ⊢
  cases hs : (s ++ ds).head? with
  | none => simp_all
  | some d => rwa [hd.append s d hs] at h

lemma startsNumber_of_span (h : startsNumber c (s ++ cs) = true)
    (hspan : spanNumber c (s ++ cs) = (s, cs)) : startsNumber c (s ++ ds) = true := by
  rw [startsNumber] at h ⊢
  rcases s with _ | ⟨e, s⟩
  · -- a point that begins a number takes the digit behind it
    cases hc : c.isDigit with
    | true => rfl
    | false =>
      obtain ⟨d, cs', rfl⟩ : ∃ d cs', cs = d :: cs' := by
        cases cs with
        | nil => simp [hc] at h
        | cons d cs => exact ⟨d, cs, rfl⟩
      have hd : d.isDigit = true := by simp_all
      simp [spanNumber, continuesNumber, isIdentChar, Char.isAlphanum, hd] at hspan
  · exact h

theorem munch_startsLike (h : munch c (s ++ cs) = (k, s, cs)) (hd : StartsLike ds cs) :
    munch c (s ++ ds) = (k, s, ds) := by
  rw [munch] at h ⊢
  by_cases hb : Text.isBlank c
  · simp only [hb, if_true, Prod.mk.injEq] at h ⊢
    exact ⟨h.1, takeWhile_startsLike h.2.1 hd⟩
  by_cases hi : isIdentStart c
  · simp only [hb, hi, if_true, Prod.mk.injEq, Bool.false_eq_true, if_false] at h ⊢
    exact ⟨h.1, takeWhile_startsLike h.2.1 hd⟩
  simp only [hb, hi, Bool.false_eq_true, if_false] at h ⊢
  cases hn : startsNumber c (s ++ cs) with
  | true =>
    simp only [hn, if_true, Prod.mk.injEq] at h
    obtain ⟨rfl, hspan⟩ := h
    have hspan' := spanNumber_startsLike hspan hd
    rw [hspan', startsNumber_of_span hn hspan, if_pos rfl]
  | false =>
    simp only [hn, startsNumber_startsLike hn hd, Bool.false_eq_true, if_false] at h ⊢
    by_cases hq : c = '"'
    · simp only [hq, if_true, Prod.mk.injEq] at h ⊢
      exact ⟨h.1, spanString_startsLike h.2 hd⟩
    · simp only [hq, if_false, Prod.mk.injEq] at h ⊢
      exact ⟨h.1, spanPunct_startsLike h.2 hd⟩

def IsLexeme (t : Token) : Prop :=
  tokenize t.text = [t]

lemma head_scan_iff : (scan (t.text.toList ++ cs)).head? = some t ↔
    ∃ c s, t.text.toList = c :: s ∧ munch c (s ++ cs) = (t.kind, s, cs) := by
  constructor
  · intro h
    rcases ht : t.text.toList with _ | ⟨c, s⟩
    · rw [ht, List.nil_append] at h
      cases cs with
      | nil => simp [scan_nil] at h
      | cons c cs =>
        rw [scan_cons, List.head?_cons, Option.some.injEq] at h
        simp [← h] at ht
    · rw [ht, List.cons_append, scan_cons, List.head?_cons, Option.some.injEq] at h
      have hkind : (munch c (s ++ cs)).1 = t.kind := congrArg Token.kind h
      have hs : (munch c (s ++ cs)).2.1 = s := by
        have htext := congrArg (·.text.toList) h
        simpa [ht] using htext
      have hrest := munch_append c (s ++ cs)
      rw [hs] at hrest
      exact ⟨c, s, rfl, Prod.ext hkind (Prod.ext hs (List.append_cancel_left hrest))⟩
  · rintro ⟨c, s, ht, hm⟩
    have htext : t.text = .ofList (c :: s) := by rw [← ht, String.ofList_toList]
    rw [ht, List.cons_append, scan_cons, hm, ← htext]
    rfl

lemma scan_of_head (h : (scan (t.text.toList ++ cs)).head? = some t) :
    scan (t.text.toList ++ cs) = t :: scan cs := by
  obtain ⟨c, s, ht, hm⟩ := head_scan_iff.mp h
  rw [ht, List.cons_append, scan_cons, List.head?_cons, Option.some.injEq] at h
  rw [ht, List.cons_append, scan_cons, h, hm]

lemma head_scan_startsLike (h : (scan (t.text.toList ++ cs)).head? = some t)
    (hd : StartsLike ds cs) : (scan (t.text.toList ++ ds)).head? = some t := by
  obtain ⟨c, s, ht, hm⟩ := head_scan_iff.mp h
  exact head_scan_iff.mpr ⟨c, s, ht, munch_startsLike hm hd⟩

lemma isLexeme_iff : t.IsLexeme ↔ (scan (t.text.toList ++ [])).head? = some t := by
  constructor
  · intro h
    rw [IsLexeme, tokenize] at h
    rw [List.append_nil, h, List.head?_cons]
  · intro h
    have hscan := scan_of_head h
    rwa [List.append_nil, scan_nil] at hscan

theorem isLexeme_of_scan {cs : List Char} : ∀ t ∈ scan cs, t.IsLexeme := by
  induction cs using scan.induct with
  | case1 =>
    rw [scan_nil]
    exact List.forall_mem_nil _
  | case2 c cs ih =>
    let t : Token := ⟨(munch c cs).1, .ofList (c :: (munch c cs).2.1)⟩
    have hhead : (scan (t.text.toList ++ (munch c cs).2.2)).head? = some t := by
      rw [String.toList_ofList, List.cons_append, munch_append, scan_cons, List.head?_cons]
    rw [scan_cons, List.forall_mem_cons]
    exact ⟨isLexeme_iff.mpr (head_scan_startsLike hhead startsLike_nil), ih⟩

lemma kind_munch_iff : (munch c cs).1 = .space ↔ Text.isBlank c = true := by
  rw [munch]
  split
  · simp_all
  repeat' split
  all_goals simp_all

lemma trimStart_scan (cs : List Char) : trimStart (scan cs) = scan (cs.dropWhile Text.isBlank) := by
  have hsolid : ∀ ds : List Char, (∀ d, ds.head? = some d → Text.isBlank d = false) →
      trimStart (scan ds) = scan ds := by
    intro ds hd
    cases ds with
    | nil => rw [scan_nil]; rfl
    | cons d ds =>
      have hk : (munch d ds).1 ≠ .space := by simp [kind_munch_iff, hd d rfl]
      rw [scan_cons, trimStart, List.dropWhile_cons_of_neg (by simpa [isSpace] using hk)]
  cases cs with
  | nil => rw [List.dropWhile_nil, scan_nil]; rfl
  | cons c cs =>
    cases hb : Text.isBlank c with
    | false =>
      rw [List.dropWhile_cons_of_neg (by simp [hb])]
      exact hsolid (c :: cs) (by simpa using hb)
    | true =>
      have hm : munch c cs = (.space, cs.takeWhile Text.isBlank, cs.dropWhile Text.isBlank) := by
        rw [munch, if_pos hb]
      rw [List.dropWhile_cons_of_pos hb, scan_cons, hm, trimStart, List.dropWhile_cons_of_pos rfl]
      exact hsolid _ fun d hd => Text.eq_false_of_head_dropWhile hd

lemma solid_trimStart (ts : List Token) : solid (trimStart ts) = solid ts := by
  induction ts with
  | nil => rfl
  | cons t ts ih =>
    cases ht : t.isSpace with
    | true =>
      rw [trimStart, List.dropWhile_cons_of_pos ht]
      simpa [solid, trimStart, ht] using ih
    | false => rw [trimStart, List.dropWhile_cons_of_neg (by simp [ht])]

lemma solid_scan_blank_append {bs : List Char} (h : ∀ b ∈ bs, Text.isBlank b = true)
    (cs : List Char) : solid (scan (bs ++ cs)) = solid (scan cs) := by
  rw [← solid_trimStart, trimStart_scan, List.dropWhile_append_of_pos h, ← trimStart_scan,
    solid_trimStart]

namespace IsLexeme

lemma exists_munch (h : t.IsLexeme) :
    ∃ c s, t.text.toList = c :: s ∧ munch c s = (t.kind, s, []) := by
  simpa using head_scan_iff.mp (isLexeme_iff.mp h)

lemma isBlank_iff (h : t.IsLexeme) {c : Char} {s : List Char} (ht : t.text.toList = c :: s) :
    t.isSpace = true ↔ Text.isBlank c = true := by
  obtain ⟨c', s', ht', hm⟩ := h.exists_munch
  obtain ⟨rfl, rfl⟩ := List.cons.inj (ht.symm.trans ht')
  rw [← @kind_munch_iff c s, hm, isSpace, decide_eq_true_eq]

lemma blank_of_isSpace (h : t.IsLexeme) (hs : t.isSpace = true) :
    ∀ c ∈ t.text.toList, Text.isBlank c = true := by
  obtain ⟨c, s, ht, hm⟩ := h.exists_munch
  have hc := (h.isBlank_iff ht).mp hs
  rw [munch, if_pos hc, Prod.mk.injEq, Prod.mk.injEq] at hm
  rw [ht, List.forall_mem_cons]
  refine ⟨hc, fun x hx => ?_⟩
  rw [← hm.2.1] at hx
  exact List.all_eq_true.mp List.all_takeWhile x hx

lemma head_text_append (h : t.IsLexeme) (cs : List Char) :
    (t.text.toList ++ cs).head? = t.text.toList.head? := by
  obtain ⟨c, s, ht, -⟩ := h.exists_munch
  rw [ht]
  rfl

end IsLexeme

lemma solid_scan_text_append (h : t.IsLexeme) (ht : t.isSpace = false) {ts : List Token} :
    solid (scan (t.text.toList ++ cs)) = t :: ts ↔
      (scan (t.text.toList ++ cs)).head? = some t ∧ solid (scan cs) = ts := by
  constructor
  · intro hs
    obtain ⟨c, s, htext, hm⟩ := h.exists_munch
    have hc : (munch c (s ++ cs)).1 ≠ .space := fun hk => by
      rw [(h.isBlank_iff htext).mpr (kind_munch_iff.mp hk)] at ht
      cases ht
    have hhead : (scan (t.text.toList ++ cs)).head? = some t := by
      rw [htext, List.cons_append, scan_cons, solid,
        List.filter_cons_of_pos (by simpa [isSpace] using hc)] at hs
      rw [htext, List.cons_append, scan_cons, List.head?_cons, (List.cons.inj hs).1]
    rw [scan_of_head hhead, solid, List.filter_cons_of_pos (by simpa using ht)] at hs
    exact ⟨hhead, (List.cons.inj hs).2⟩
  · rintro ⟨hhead, rfl⟩
    rw [scan_of_head hhead, solid, List.filter_cons_of_pos (by simpa using ht), solid]

def absorbs (t : Token) (d : Char) : Bool :=
  match t.kind with
  | .space => false
  | .ident => isIdentChar d
  | .number => t.text.toList.getLast?.any (continuesNumber · d)
  | .str => !t.text.toList.tail.contains '"'
  | .punct =>
    match t.text.toList with
    | [c] => digraphs.contains (c, d) || (c == '.' && d.isDigit)
    | _ => false

def Apart (t u : Token) : Prop :=
  ∀ d, u.text.toList.head? = some d → t.absorbs d = false

instance : DecidableRel Apart := fun t u =>
  decidable_of_iff ((u.text.toList.head?.all fun d => !t.absorbs d) = true) <| by
    cases h : u.text.toList.head? <;> simp [Apart, h]

lemma spanNumber_append_iff (h : spanNumber last s = (s, [])) (d : Char) (ds : List Char) :
    spanNumber last (s ++ d :: ds) = (s, d :: ds) ↔
      continuesNumber (s.getLastD last) d = false := by
  induction s generalizing last with
  | nil => cases hn : continuesNumber last d <;> simp [spanNumber, hn]
  | cons c s ih =>
    cases hn : continuesNumber last c with
    | false => simp [spanNumber, hn] at h
    | true =>
      have hs : spanNumber c s = (s, []) := by
        simp only [spanNumber, hn, if_true, Prod.mk.injEq, List.cons.injEq, true_and] at h
        exact Prod.ext h.1 h.2
      rw [List.getLastD_cons, ← ih hs]
      simp [spanNumber, hn, Prod.ext_iff]

lemma spanString_append_iff (h : spanString s = (s, [])) (d : Char) (ds : List Char) :
    spanString (s ++ d :: ds) = (s, d :: ds) ↔ '"' ∈ s := by
  rw [spanString_iff]
  constructor
  · rintro (⟨body, -, rfl⟩ | ⟨-, hn⟩)
    · simp
    · cases hn
  · intro hq
    rcases spanString_iff.mp (by rwa [List.append_nil]) with hclosed | ⟨hn, -⟩
    · exact .inl hclosed
    · exact (hn hq).elim

lemma spanPunct_append_iff (h : spanPunct c s = (s, [])) (d : Char) (ds : List Char) :
    spanPunct c (s ++ d :: ds) = (s, d :: ds) ↔ s = [] → (c, d) ∉ digraphs := by
  rcases s with _ | ⟨e, s⟩
  · by_cases hm : (c, d) ∈ digraphs <;> simp [spanPunct, hm]
  · by_cases hm : (c, e) ∈ digraphs
    · obtain rfl : s = [] := by simpa [spanPunct, hm, eq_comm] using h
      simp [spanPunct, hm]
    · simp [spanPunct, hm] at h

lemma munch_append_iff (h : munch c s = (k, s, [])) (hb : Text.isBlank c = false) (d : Char)
    (ds : List Char) :
    munch c (s ++ d :: ds) = (k, s, d :: ds) ↔ absorbs ⟨k, .ofList (c :: s)⟩ d = false := by
  rw [munch] at h ⊢
  simp only [hb, Bool.false_eq_true, if_false] at h ⊢
  by_cases hi : isIdentStart c
  · simp only [hi, if_true, Prod.mk.injEq] at h ⊢
    obtain ⟨rfl, hs, -⟩ := h
    have hself : (s ++ []).takeWhile isIdentChar = s := by rwa [List.append_nil]
    have hall := (takeWhile_exact_iff.mp hself).1
    constructor
    · rintro ⟨-, htake, -⟩
      exact (takeWhile_exact_iff.mp htake).2 d rfl
    · intro hd
      have hstop : ∀ e, (d :: ds).head? = some e → isIdentChar e = false := by
        rintro _ ⟨⟩
        exact hd
      exact ⟨rfl, takeWhile_startsLike (takeWhile_exact_iff.mpr ⟨hall, hstop⟩) fun _ h => h⟩
  simp only [hi, Bool.false_eq_true, if_false] at h ⊢
  cases hn : startsNumber c s with
  | true =>
    simp only [hn, if_true, Prod.mk.injEq] at h
    obtain ⟨rfl, hspan⟩ := h
    have hself : spanNumber c (s ++ []) = (s, []) := by rwa [List.append_nil]
    have hstart : startsNumber c (s ++ d :: ds) = true :=
      startsNumber_of_span (by rwa [List.append_nil]) hself
    simp only [hstart, if_true, Prod.mk.injEq, true_and]
    rw [spanNumber_append_iff hspan]
    simp [absorbs, List.getLast?_cons]
  | false =>
    simp only [hn, Bool.false_eq_true, if_false] at h
    by_cases hq : c = '"'
    · subst hq
      simp only [if_true, Prod.mk.injEq] at h
      obtain ⟨rfl, hspan⟩ := h
      have hstart : startsNumber '"' (s ++ d :: ds) = false := rfl
      simp only [hstart, if_true, Bool.false_eq_true, if_false, Prod.mk.injEq, true_and]
      rw [spanString_append_iff hspan]
      simp [absorbs]
    · simp only [hq, if_false, Prod.mk.injEq] at h
      obtain ⟨rfl, hspan⟩ := h
      simp only [hq, if_false]
      have hdigit : c.isDigit = false := (Bool.or_eq_false_iff.mp hn).1
      rcases s with _ | ⟨e, s⟩
      · cases hp : (c == '.' && d.isDigit) with
        | true => simp [startsNumber, absorbs, hdigit, hp]
        | false =>
          have hs := spanPunct_append_iff hspan d ds
          simp only [List.nil_append, forall_const] at hs
          simp [startsNumber, absorbs, hdigit, hp, hs]
      · have hs := spanPunct_append_iff hspan d ds
        have hstart : startsNumber c (e :: s ++ d :: ds) = false := hn
        simp only [hstart, Bool.false_eq_true, if_false, Prod.mk.injEq, true_and]
        rw [hs]
        simp [absorbs]

lemma head_scan_append_iff (h : t.IsLexeme) (ht : t.isSpace = false) (cs : List Char) :
    (scan (t.text.toList ++ cs)).head? = some t ↔ ∀ d, cs.head? = some d → t.absorbs d = false := by
  cases cs with
  | nil => simpa using isLexeme_iff.mp h
  | cons d ds =>
    obtain ⟨c, s, htext, hm⟩ := h.exists_munch
    have hb : Text.isBlank c = false := Bool.eq_false_iff.mpr fun hc => by
      rw [(h.isBlank_iff htext).mpr hc] at ht
      cases ht
    have hself : (⟨t.kind, .ofList (c :: s)⟩ : Token) = t := by rw [← htext, String.ofList_toList]
    have habsorbs := munch_append_iff hm hb d ds
    rw [hself] at habsorbs
    have hd : (∀ e, (d :: ds).head? = some e → t.absorbs e = false) ↔ t.absorbs d = false := by simp
    rw [hd, ← habsorbs, head_scan_iff]
    constructor
    · rintro ⟨c', s', htext', hm'⟩
      obtain ⟨rfl, rfl⟩ := List.cons.inj (htext.symm.trans htext')
      exact hm'
    · exact fun hm' => ⟨c, s, htext, hm'⟩

variable {ts : List Token}

lemma toList_join (ts : List Token) : (join ts).toList = ts.flatMap (·.text.toList) := by
  rw [join, String.toList_join, List.flatMap_map]

lemma join_tokenize (s : String) : join (tokenize s) = s := by
  rw [← String.toList_inj, toList_join, tokenize, flatMap_scan]

lemma solid_join_iff (h : ∀ t ∈ ts, t.IsLexeme) :
    solid (tokenize (join ts)) = solid ts ↔ ts.IsChain Apart := by
  rw [tokenize, toList_join]
  induction ts with
  | nil => simp [scan_nil]
  | cons t ts ih =>
    obtain ⟨ht, hts⟩ := List.forall_mem_cons.mp h
    rw [List.flatMap_cons, List.isChain_cons, ← ih hts]
    cases hs : t.isSpace with
    | true =>
      have hapart : ∀ u, Apart t u := fun u d _ => by
        rw [absorbs, of_decide_eq_true hs]
      rw [solid_scan_blank_append (ht.blank_of_isSpace hs)]
      simp [hapart, solid, hs]
    | false =>
      have hsolid : solid (t :: ts) = t :: solid ts := List.filter_cons_of_pos (by simp [hs])
      rw [hsolid, solid_scan_text_append ht hs, head_scan_append_iff ht hs]
      apply and_congr_left'
      cases ts with
      | nil => simp
      | cons u ts => simp [Apart, (hts u (.head _)).head_text_append]

theorem solid_tokenize_join_iff (h : ∀ t ∈ ts, t.isSpace = true → t.IsLexeme) :
    solid (tokenize (join ts)) = solid ts ↔ (∀ t ∈ ts, t.IsLexeme) ∧ ts.IsChain Apart := by
  constructor
  · intro hs
    have hlex : ∀ t ∈ ts, t.IsLexeme := by
      intro t ht
      cases hspace : t.isSpace with
      | true => exact h t ht hspace
      | false =>
        have hsolid : t ∈ solid (tokenize (join ts)) :=
          hs ▸ List.mem_filter.mpr ⟨ht, by simp [hspace]⟩
        exact isLexeme_of_scan t (List.filter_sublist.subset hsolid)
    exact ⟨hlex, (solid_join_iff hlex).mp hs⟩
  · rintro ⟨hlex, hchain⟩
    exact (solid_join_iff hlex).mpr hchain

end ShaderPipeline.Token
