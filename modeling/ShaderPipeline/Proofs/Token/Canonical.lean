import ShaderPipeline.Proofs.Text.Strip
import ShaderPipeline.Proofs.Token.Lexemes

/-! The tokens of a line are read again from every text that divides them as the line does.
Canonical text is one. -/

namespace ShaderPipeline.Token

variable {t u : Token} {ts : List Token} {cs : List Char}

structure Divided (t u : Token) : Prop where
  apart : Apart t u
  solid : t.isSpace = true → u.isSpace = false

lemma absorbs_of_isSpace (h : t.isSpace = true) (d : Char) : t.absorbs d = false := by
  rw [absorbs, of_decide_eq_true h]

lemma head_scan_of_divided (ht : t.IsLexeme)
    (habsorbs : ∀ d, cs.head? = some d → t.absorbs d = false)
    (hspace : t.isSpace = true → ∀ d, cs.head? = some d → Text.isBlank d = false) :
    (scan (t.text.toList ++ cs)).head? = some t := by
  cases hs : t.isSpace with
  | false => exact (head_scan_append_iff ht hs cs).mpr habsorbs
  | true =>
    obtain ⟨c, s, htext, hm⟩ := ht.exists_munch
    have hblank := ht.blank_of_isSpace hs
    rw [htext, List.forall_mem_cons] at hblank
    have hkind : t.kind = .space := of_decide_eq_true hs
    have htake := takeWhile_exact_iff.mpr ⟨hblank.2, hspace hs⟩
    obtain ⟨-, hdrop⟩ := takeWhile_startsLike htake fun _ h => h
    refine head_scan_iff.mpr ⟨c, s, htext, ?_⟩
    rw [munch, if_pos hblank.1, htake, hdrop, hkind]

lemma scan_of_divided (h : ∀ t ∈ ts, t.IsLexeme) (hd : ts.IsChain Divided) :
    scan (ts.flatMap (·.text.toList)) = ts := by
  induction ts with
  | nil => rw [List.flatMap_nil, scan_nil]
  | cons t ts ih =>
    obtain ⟨ht, hts⟩ := List.forall_mem_cons.mp h
    obtain ⟨hhead, hd⟩ := List.isChain_cons.mp hd
    have hscan : (scan (t.text.toList ++ ts.flatMap (·.text.toList))).head? = some t := by
      rcases ts with _ | ⟨u, ts⟩
      · exact isLexeme_iff.mp ht
      have hu : u.IsLexeme := hts u (.head _)
      have hdivided := hhead u rfl
      rw [List.flatMap_cons]
      apply head_scan_of_divided ht
      · rw [hu.head_text_append]
        exact hdivided.apart
      · intro hs d hd
        rw [hu.head_text_append] at hd
        obtain ⟨s, htext⟩ := List.head?_eq_some_iff.mp hd
        rw [← Bool.not_eq_true, ← hu.isBlank_iff htext, hdivided.solid hs]
        exact Bool.false_ne_true
    rw [List.flatMap_cons, scan_of_head hscan, ih hts hd]

lemma head_text_of_head_scan (h : (scan cs).head? = some u) : u.text.toList.head? = cs.head? := by
  rcases cs with _ | ⟨c, cs⟩
  · rw [scan_nil] at h
    cases h
  · rw [scan_cons, List.head?_cons, Option.some.injEq] at h
    rw [← h, String.toList_ofList]
    rfl

lemma isChain_scan (cs : List Char) : (scan cs).IsChain Divided := by
  induction cs using scan.induct with
  | case1 =>
    rw [scan_nil]
    exact .nil
  | case2 c cs ih =>
    have hhead :
        (scan (c :: cs)).head? = some ⟨(munch c cs).1, .ofList (c :: (munch c cs).2.1)⟩ := by
      rw [scan_cons, List.head?_cons]
    have hlex := isLexeme_of_scan _ (List.mem_of_head? hhead)
    rw [scan_cons, List.isChain_cons]
    refine ⟨fun u hu => ?_, ih⟩
    generalize ht : (⟨(munch c cs).1, .ofList (c :: (munch c cs).2.1)⟩ : Token) = t at hhead hlex
    have hcs : t.text.toList ++ (munch c cs).2.2 = c :: cs := by
      rw [← ht, String.toList_ofList, List.cons_append, munch_append]
    have hkind : t.isSpace = true ↔ Text.isBlank c = true := by
      rw [← @kind_munch_iff c cs, ← ht, isSpace, decide_eq_true_eq]
    have hfirst := head_text_of_head_scan hu
    constructor
    · intro d hd
      cases hs : t.isSpace with
      | true => exact absorbs_of_isSpace hs d
      | false =>
        rw [← hcs] at hhead
        exact (head_scan_append_iff hlex hs _).mp hhead d (hfirst ▸ hd)
    · intro hs
      have hm : munch c cs = (.space, cs.takeWhile Text.isBlank, cs.dropWhile Text.isBlank) := by
        rw [munch, if_pos (hkind.mp hs)]
      obtain ⟨d, s, htext, -⟩ := (isLexeme_of_scan u (List.mem_of_head? hu)).exists_munch
      have hd : (cs.dropWhile Text.isBlank).head? = some d := by
        rw [hm, htext] at hfirst
        exact hfirst.symm
      rw [← Bool.not_eq_true, (isLexeme_of_scan u (List.mem_of_head? hu)).isBlank_iff htext,
        Text.eq_false_of_head_dropWhile hd]
      exact Bool.false_ne_true

def oneBlank (t : Token) : Token :=
  if t.isSpace then blank else t

lemma isSpace_oneBlank (t : Token) : t.oneBlank.isSpace = t.isSpace := by
  cases h : t.isSpace with
  | true => rw [oneBlank, if_pos h]; rfl
  | false => rw [oneBlank, h, if_neg Bool.false_ne_true, h]

lemma oneBlank_oneBlank (t : Token) : t.oneBlank.oneBlank = t.oneBlank := by
  cases h : t.isSpace with
  | true => rw [oneBlank, isSpace_oneBlank, h, if_pos rfl, oneBlank, if_pos h]
  | false => rw [oneBlank, isSpace_oneBlank, h, if_neg Bool.false_ne_true]

lemma isLexeme_blank : blank.IsLexeme := by
  rw [IsLexeme]
  cbv

lemma IsLexeme.oneBlank (h : t.IsLexeme) : t.oneBlank.IsLexeme := by
  rw [Token.oneBlank]
  split
  · exact isLexeme_blank
  · exact h

lemma absorbs_of_isBlank {c d : Char} (hc : Text.isBlank c = true) (hd : Text.isBlank d = true)
    (t : Token) : t.absorbs c = t.absorbs d := by
  have hident : ∀ e, Text.isBlank e = true → isIdentChar e = false :=
    fun _ => Text.eq_false_of_isBlank (by decide)
  have hdigit : ∀ e, Text.isBlank e = true → e.isDigit = false :=
    fun _ => Text.eq_false_of_isBlank (by decide)
  have hnumber : ∀ last e, Text.isBlank e = true → continuesNumber last e = false := fun last _ =>
    Text.eq_false_of_isBlank rfl
  have hpunct : ∀ p e, Text.isBlank e = true → digraphs.contains (p, e) = false := fun p _ =>
    Text.eq_false_of_isBlank (p := fun e => digraphs.contains (p, e)) (by simp [digraphs])
  unfold absorbs
  split
  · rfl
  · rw [hident c hc, hident d hd]
  · simp only [hnumber _ c hc, hnumber _ d hd]
  · rfl
  · split
    · rw [hpunct _ c hc, hpunct _ d hd, hdigit c hc, hdigit d hd]
    · rfl

lemma Divided.oneBlank (h : Divided t u) (hu : u.IsLexeme) : Divided t.oneBlank u.oneBlank := by
  constructor
  · intro d hd
    cases ht : t.isSpace with
    | true => exact absorbs_of_isSpace (by rw [isSpace_oneBlank, ht]) d
    | false =>
      rw [Token.oneBlank, ht, if_neg Bool.false_ne_true]
      cases hs : u.isSpace with
      | false =>
        rw [Token.oneBlank, hs, if_neg Bool.false_ne_true] at hd
        exact h.apart d hd
      | true =>
        obtain ⟨c, s, htext, -⟩ := hu.exists_munch
        obtain rfl : ' ' = d := by
          rw [Token.oneBlank, hs, if_pos rfl] at hd
          exact Option.some.inj hd
        have hc := (hu.isBlank_iff htext).mp hs
        rw [absorbs_of_isBlank (show Text.isBlank ' ' = true from rfl) hc]
        exact h.apart c (by rw [htext]; rfl)
  · rw [isSpace_oneBlank, isSpace_oneBlank]
    exact h.solid

lemma isChain_run {line : String} (h : ts <:+: tokenize line) : ts.IsChain Divided := by
  obtain ⟨before, after, hrun⟩ := h
  have hchain : (before ++ ts ++ after).IsChain Divided := hrun ▸ isChain_scan line.toList
  exact hchain.left_of_append.right_of_append

theorem tokenize_join_oneBlank {line : String} (h : ts <:+: tokenize line) :
    tokenize (join (ts.map oneBlank)) = ts.map oneBlank := by
  have hlex : ∀ t ∈ ts, t.IsLexeme := fun t ht => isLexeme_of_scan t (h.subset ht)
  rw [tokenize, toList_join]
  apply scan_of_divided
  · intro u hu
    obtain ⟨t, ht, rfl⟩ := List.mem_map.mp hu
    exact (hlex t ht).oneBlank
  · rw [List.isChain_map]
    exact (isChain_run h).imp_of_mem_imp fun t u _ hu hdivided => hdivided.oneBlank (hlex u hu)

lemma trim_scan_blank (cs : List Char) : trim (scan (' ' :: cs)) = trim (scan cs) := by
  rw [trim, trim, trimStart_scan, trimStart_scan]
  rfl

lemma trim_eq (ts : List Token) : trim ts = (ts.dropWhile isSpace).rdropWhile isSpace :=
  rfl

lemma trim_rdropWhile (ts : List Token) : trim (ts.rdropWhile isSpace) = trim ts := by
  conv_rhs => rw [← List.rdropWhile_append_rtakeWhile (p := isSpace) (l := ts), trim_eq]
  rw [trim_eq, Text.stripped_append]
  exact fun t ht => List.mem_rtakeWhile_imp ht

lemma trim_solid_append (ht : t.isSpace = false)
    (hts : ∀ u, (t :: ts).getLast? = some u → u.isSpace = false) (us : List Token) :
    trim (t :: ts ++ us) = t :: ts ++ us.rdropWhile isSpace := by
  rw [trim_eq, List.cons_append, List.dropWhile_cons_of_neg (by simp [ht]), ← List.cons_append,
    Text.rdropWhile_append _ hts]

lemma infix_of_trim (ts : List Token) : trim ts <:+: ts :=
  (List.rdropWhile_prefix isSpace _).isInfix.trans (List.dropWhile_suffix isSpace).isInfix

lemma isSpace_head_trim {us : List Token} (h : trim ts = t :: us) : t.isSpace = false := by
  obtain ⟨vs, hvs⟩ := List.rdropWhile_prefix isSpace (ts.dropWhile isSpace)
  change trim ts ++ vs = ts.dropWhile isSpace at hvs
  have hhead : (ts.dropWhile isSpace).head? = some t := by
    rw [← hvs, h]
    rfl
  exact Text.eq_false_of_head_dropWhile hhead

lemma trim_trim (ts : List Token) : trim (trim ts) = trim ts := by
  have hstart : (trim ts).dropWhile isSpace = trim ts := by
    rcases h : trim ts with _ | ⟨t, us⟩
    · rfl
    · exact List.dropWhile_cons_of_neg (by simp [isSpace_head_trim h])
  change ((trim ts).dropWhile isSpace).rdropWhile isSpace = trim ts
  rw [hstart]
  exact List.rdropWhile_idempotent _ _

lemma trim_map_oneBlank (ts : List Token) : trim (ts.map oneBlank) = (trim ts).map oneBlank := by
  have hspace : isSpace ∘ oneBlank = isSpace := funext isSpace_oneBlank
  simp only [trim, trimStart, trimEnd, List.dropWhile_map, ← List.map_reverse, hspace]

lemma canonical_eq_join (ts : List Token) : canonical ts = join ((trim ts).map oneBlank) := by
  have htext : ∀ t, canonicalText t = (oneBlank t).text := by
    intro t
    rw [canonicalText, oneBlank]
    split <;> rfl
  rw [canonical, join, List.map_map]
  exact congrArg String.join (List.map_congr_left fun t _ => htext t)

theorem tokenize_canonical {line : String} (h : ts <:+: tokenize line) :
    tokenize (canonical ts) = (trim ts).map oneBlank := by
  rw [canonical_eq_join, tokenize_join_oneBlank ((infix_of_trim ts).trans h)]

/-- The tokens of a line make it up, none of them is empty and no two spaces are neighbours. The
canonical text of any run of them is read as the run without the spaces at its ends, with one blank
for every other space. -/
theorem canonical_reread (line : String) :
    join (tokenize line) = line ∧ (∀ t ∈ tokenize line, t.text ≠ "") ∧
      (tokenize line).IsChain (fun t u => ¬ (t.isSpace = true ∧ u.isSpace = true)) ∧
      ∀ ts, ts <:+: tokenize line →
        tokenize (canonical ts) = ((ts.dropWhile isSpace).rdropWhile isSpace).map oneBlank ∧
          canonical (tokenize (canonical ts)) = canonical ts := by
  refine ⟨join_tokenize line, fun t ht hempty => ?_, ?_, fun ts hts => ?_⟩
  · obtain ⟨c, s, htext, -⟩ := (isLexeme_of_scan t ht).exists_munch
    rw [hempty] at htext
    cases htext
  · refine (isChain_scan line.toList).imp fun t u hdivided hspace => ?_
    rw [hdivided.solid hspace.1] at hspace
    exact Bool.false_ne_true hspace.2
  · have hread := tokenize_canonical hts
    refine ⟨hread, ?_⟩
    rw [hread, canonical_eq_join, trim_map_oneBlank, trim_trim, List.map_map, canonical_eq_join ts]
    exact congrArg join (List.map_congr_left fun t _ => oneBlank_oneBlank t)

theorem canonical_reread_of_run :
    let line := "# pragma  STDGL(1.e-2,\t\"a  b\" ) <<= x "
    let run :=
      [.ident "pragma", ⟨.space, "  "⟩, .ident "STDGL", .punct "(", .number "1.e-2", .punct ",",
      ⟨.space, "\t"⟩, ⟨.str, "\"a  b\""⟩, ⟨.space, " "⟩]
    run <:+: tokenize line ∧ canonical run = "pragma STDGL(1.e-2, \"a  b\"" ∧
      tokenize "pragma STDGL(1.e-2, \"a  b\"" =
        [.ident "pragma", blank, .ident "STDGL", .punct "(", .number "1.e-2", .punct ",", blank,
          ⟨.str, "\"a  b\""⟩] := by
  intro line run
  have hline : tokenize line = [.punct "#", ⟨.space, " "⟩] ++ run ++
      [.punct ")", ⟨.space, " "⟩, .punct "<<", .punct "=", ⟨.space, " "⟩, .ident "x",
        ⟨.space, " "⟩] := by cbv
  have hrun : run <:+: tokenize line := ⟨_, _, hline.symm⟩
  have hcanonical : canonical run = "pragma STDGL(1.e-2, \"a  b\"" := by decide
  obtain ⟨-, -, -, hread⟩ := canonical_reread line
  refine ⟨hrun, hcanonical, ?_⟩
  rw [← hcanonical, (hread run hrun).1]
  rfl

end ShaderPipeline.Token
