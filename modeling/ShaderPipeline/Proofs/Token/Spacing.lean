import ShaderPipeline.Proofs.Token.Canonical

namespace ShaderPipeline

namespace Token

variable {t u : Token} {ts us : List Token} {cs w : List Char} {x : Token × List Char}
  {xs : List (Token × List Char)}

def gap (w : List Char) : List Token :=
  if w = [] then [] else [⟨.space, .ofList w⟩]

def laid (xs : List (Token × List Char)) : List Char :=
  xs.flatMap fun x => x.1.text.toList ++ x.2

def gapped (xs : List (Token × List Char)) : List Token :=
  xs.flatMap fun x => x.1 :: gap x.2

structure IsPlaced (x : Token × List Char) : Prop where
  lexeme : x.1.IsLexeme
  solid : x.1.isSpace = false
  ends : x.1.absorbs ' ' = false
  blank : ∀ c ∈ x.2, Text.isBlank c = true

def Clear (x y : Token × List Char) : Prop :=
  x.2 = [] → Apart x.1 y.1

lemma scan_gap_append (hw : ∀ c ∈ w, Text.isBlank c = true)
    (hcs : ∀ d, cs.head? = some d → Text.isBlank d = false) :
    scan (w ++ cs) = gap w ++ scan cs := by
  rcases w with _ | ⟨c, w⟩
  · rfl
  · obtain ⟨hc, hw⟩ := List.forall_mem_cons.mp hw
    have htake := takeWhile_exact_iff.mpr ⟨hw, hcs⟩
    obtain ⟨-, hdrop⟩ := takeWhile_startsLike htake fun _ h => h
    have hm : munch c (w ++ cs) = (.space, w, cs) := by rw [munch, if_pos hc, htake, hdrop]
    rw [List.cons_append, scan_cons, hm]
    rfl

lemma head_laid (h : ∀ x ∈ xs, IsPlaced x) :
    (laid xs).head? = xs.head?.bind fun x => x.1.text.toList.head? := by
  cases xs with
  | nil => rfl
  | cons x xs =>
    obtain ⟨hx, -⟩ := List.forall_mem_cons.mp h
    rw [laid, List.flatMap_cons, List.append_assoc, hx.lexeme.head_text_append]
    rfl

lemma notBlank_head_laid (h : ∀ x ∈ xs, IsPlaced x) :
    ∀ d, (laid xs).head? = some d → Text.isBlank d = false := by
  rw [head_laid h]
  cases xs with
  | nil => nofun
  | cons x xs =>
    obtain ⟨hx, -⟩ := List.forall_mem_cons.mp h
    intro d hd
    obtain ⟨s, htext⟩ := List.head?_eq_some_iff.mp hd
    rw [← Bool.not_eq_true, ← hx.lexeme.isBlank_iff htext, hx.solid]
    exact Bool.false_ne_true

theorem scan_laid (h : ∀ x ∈ xs, IsPlaced x) (hclear : xs.IsChain Clear) :
    scan (laid xs) = gapped xs := by
  induction xs with
  | nil => exact scan_nil
  | cons x xs ih =>
    obtain ⟨hx, hxs⟩ := List.forall_mem_cons.mp h
    obtain ⟨hhead, hclear⟩ := List.isChain_cons.mp hclear
    have hends : ∀ d, (x.2 ++ laid xs).head? = some d → x.1.absorbs d = false := by
      intro d hd
      cases hw : x.2 with
      | nil =>
        rw [hw, List.nil_append, head_laid hxs] at hd
        obtain ⟨y, hy, hd⟩ := Option.bind_eq_some_iff.mp hd
        exact hhead y hy hw d hd
      | cons c w =>
        rw [hw] at hd
        obtain rfl := Option.some.inj hd
        rw [absorbs_of_isBlank (hx.blank c (by rw [hw]; exact .head _))
          (show Text.isBlank ' ' = true from rfl)]
        exact hx.ends
    have hscan := scan_of_head ((head_scan_append_iff hx.lexeme hx.solid _).mpr hends)
    rw [laid, List.flatMap_cons, ← laid, List.append_assoc, hscan,
      scan_gap_append hx.blank (notBlank_head_laid hxs), ih hxs hclear]
    rfl

lemma isSpace_of_mem_gap (h : t ∈ gap w) : t.isSpace = true := by
  rw [gap] at h
  split at h
  · cases h
  · rw [List.mem_singleton.mp h]
    rfl

lemma rdropWhile_append_gap (us : List Token) (w : List Char) :
    (us ++ gap w).rdropWhile isSpace = us.rdropWhile isSpace := by
  rw [gap]
  split
  · rw [List.append_nil]
  · exact List.rdropWhile_concat_pos _ _ _ rfl

lemma trim_gap_append (w : List Char) (us : List Token) : trim (gap w ++ us) = trim us := by
  rw [trim_eq, List.dropWhile_append_of_pos fun t ht => isSpace_of_mem_gap ht, trim_eq]

lemma dropWhile_gapped (h : ∀ x ∈ xs, x.1.isSpace = false) :
    (gapped xs).dropWhile isSpace = gapped xs := by
  cases xs with
  | nil => rfl
  | cons x xs => exact List.dropWhile_cons_of_neg (by simp [h x (.head _)])

lemma trim_gapped (h : ∀ x ∈ xs, x.1.isSpace = false) (ht : t.isSpace = false) (w : List Char) :
    trim (gapped (xs ++ [(t, w)])) = gapped (xs ++ [(t, [])]) := by
  have hall : ∀ v, ∀ x ∈ xs ++ [(t, v)], x.1.isSpace = false := by
    intro v
    simpa [or_imp, forall_and, ht] using fun a b => h (a, b)
  have hgapped : ∀ v, gapped (xs ++ [(t, v)]) = gapped xs ++ [t] ++ gap v := by
    intro v
    simp [gapped]
  rw [trim_eq, dropWhile_gapped (hall w), hgapped, rdropWhile_append_gap, hgapped,
    List.rdropWhile_concat_neg _ _ _ (by simp [ht]), show gap [] = [] from rfl, List.append_nil]

def oneGap (x : Token × List Char) : Token × List Char :=
  (x.1, if x.2 = [] then [] else [' '])

lemma canonical_gapped (h : ∀ x ∈ xs, x.1.isSpace = false) (ht : t.isSpace = false)
    (w : List Char) :
    (canonical (gapped (xs ++ [(t, w)]))).toList = laid (xs.map oneGap ++ [(t, [])]) := by
  have htext : ∀ x : Token × List Char, x.1.isSpace = false →
      ((x.1 :: gap x.2).map oneBlank).flatMap (·.text.toList) =
        (oneGap x).1.text.toList ++ (oneGap x).2 := by
    intro x hx
    rw [List.map_cons, List.flatMap_cons, oneBlank, hx, if_neg Bool.false_ne_true, gap, oneGap]
    split
    · rfl
    · have hspace : oneBlank ⟨.space, .ofList x.2⟩ = blank := if_pos rfl
      rw [List.map_singleton, hspace]
      rfl
  have hlaid : ∀ ys : List (Token × List Char), (∀ y ∈ ys, y.1.isSpace = false) →
      ((gapped ys).map oneBlank).flatMap (·.text.toList) = laid (ys.map oneGap) := by
    intro ys hys
    rw [gapped, List.map_flatMap, List.flatMap_assoc, laid, List.flatMap_map]
    exact List.flatMap_congr fun y hy => htext y (hys y hy)
  have hall : ∀ x ∈ xs ++ [(t, [])], x.1.isSpace = false := by
    simpa [or_imp, forall_and, ht] using fun a b => h (a, b)
  rw [canonical_eq_join, trim_gapped h ht, toList_join, hlaid _ hall, List.map_append]
  rfl

lemma trim_scan_append (hw : ∀ c ∈ w, Text.isBlank c = true) (cs : List Char) :
    trim (scan (w ++ cs)) = trim (scan cs) := by
  rw [trim, trim, trimStart_scan, trimStart_scan, List.dropWhile_append_of_pos hw]

/-- A line of some tokens, with white space anywhere around them and wherever two of them would run
together. -/
inductive Spells (ts : List Token) : String → Prop
  | intro {indent : List Char} {xs : List (Token × List Char)} :
    (∀ c ∈ indent, Text.isBlank c = true) →
      xs.map (·.1) = ts → (∀ x ∈ xs, ∀ c ∈ x.2, Text.isBlank c = true) → xs.IsChain Clear →
      Spells ts (.ofList (indent ++ laid xs))

instance : DecidableRel Clear := fun x y => inferInstanceAs (Decidable (x.2 = [] → Apart x.1 y.1))

lemma Spells.of_all {indent : List Char} (hindent : indent.all Text.isBlank = true)
    (hgaps : (xs.all fun x => x.2.all Text.isBlank) = true) (hclear : xs.IsChain Clear) :
    Spells (xs.map (·.1)) (.ofList (indent ++ laid xs)) :=
  .intro (List.all_eq_true.mp hindent) rfl
    (fun x hx => List.all_eq_true.mp (List.all_eq_true.mp hgaps x hx)) hclear

lemma solid_gap (w : List Char) : solid (gap w) = [] :=
  List.filter_eq_nil_iff.mpr fun t ht => by simp [isSpace_of_mem_gap ht]

lemma solid_append (ts us : List Token) : solid (ts ++ us) = solid ts ++ solid us :=
  List.filter_append ts us

lemma solid_cons (ht : t.isSpace = false) (ts : List Token) : solid (t :: ts) = t :: solid ts :=
  List.filter_cons_of_pos (by simp [ht])

lemma solid_gapped {xs : List (Token × List Char)} (h : ∀ x ∈ xs, x.1.isSpace = false) :
    solid (gapped xs) = xs.map (·.1) := by
  induction xs with
  | nil => rfl
  | cons x xs ih =>
    obtain ⟨hx, hxs⟩ := List.forall_mem_cons.mp h
    rw [gapped, List.flatMap_cons, ← gapped, List.cons_append, solid_cons hx, solid_append,
      solid_gap, List.nil_append, ih hxs, List.map_cons]

lemma Spells.solid_tokenize {line : String} (h : Spells ts line)
    (hts : ∀ t ∈ ts, IsPlaced (t, [])) : solid (tokenize line) = ts := by
  obtain @⟨indent, xs, hindent, rfl, hgaps, hclear⟩ := h
  have hplaced : ∀ x ∈ xs, IsPlaced x := by
    intro x hx
    obtain ⟨hlexeme, hsolid, hends, -⟩ := hts x.1 (List.mem_map_of_mem hx)
    exact ⟨hlexeme, hsolid, hends, hgaps x hx⟩
  rw [tokenize, String.toList_ofList, solid_scan_blank_append hindent, scan_laid hplaced hclear,
    solid_gapped fun x hx => (hplaced x hx).solid]

lemma trimStart_of_solid (h : solid ts = t :: us) :
    ∃ vs, trimStart ts = t :: vs ∧ solid vs = us := by
  obtain ⟨ss, vs, rfl, hss, ht, hvs⟩ := List.filter_eq_cons_iff.mp h
  refine ⟨vs, ?_, hvs⟩
  rw [trimStart, List.dropWhile_append_of_pos (by simpa using hss),
    List.dropWhile_cons_of_neg (by simpa using ht)]

lemma trimEnd_cons (ht : t.isSpace = false) (ts : List Token) :
    trimEnd (t :: ts) = t :: trimEnd ts :=
  Text.rdropWhile_append [t] (by simpa using ht) ts

lemma trim_cons (ht : t.isSpace = false) (ts : List Token) : trim (t :: ts) = t :: trimEnd ts := by
  rw [trim, trimStart, List.dropWhile_cons_of_neg (by simp [ht]), trimEnd_cons ht]

lemma trimEnd_of_trim (h : trim ts = t :: us) : trimEnd us = us := by
  have htrim := trim_trim ts
  rw [h, trim_cons (isSpace_head_trim h)] at htrim
  exact (List.cons.inj htrim).2

lemma solid_trimEnd (ts : List Token) : solid (trimEnd ts) = solid ts := by
  have h := congrArg List.reverse (solid_trimStart ts.reverse)
  simpa [solid, trimStart, trimEnd, List.filter_reverse] using h

lemma solid_trim (ts : List Token) : solid (trim ts) = solid ts := by
  rw [trim, solid_trimEnd, solid_trimStart]

lemma trim_of_solid (h : solid ts = t :: us) : ∃ vs, trim ts = t :: vs ∧ solid vs = us := by
  obtain ⟨vs, hstart, hvs⟩ := trimStart_of_solid h
  have ht : t.isSpace = false := by
    have hmem : t ∈ solid ts := by rw [h]; exact .head _
    simpa using List.of_mem_filter hmem
  exact ⟨trimEnd vs, by rw [trim, hstart, trimEnd_cons ht], by rw [solid_trimEnd, hvs]⟩

end Token

end ShaderPipeline
