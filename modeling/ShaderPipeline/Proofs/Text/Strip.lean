import Mathlib.Data.List.DropRight
import Mathlib.Tactic.Lemma
import ShaderPipeline.Text

namespace ShaderPipeline.Text

lemma notBlank_of {p : Char → Bool} (hp : [' ', '\t', '\n', '\r', '\x0b', '\x0c'].any p = false)
    {c : Char} (hc : p c = true) : isBlank c = false := by
  rw [Bool.eq_false_iff]
  intro hb
  have hm : c ∈ [' ', '\t', '\n', '\r', '\x0b', '\x0c'] := by
    simpa [isBlank, or_assoc] using hb
  exact List.any_eq_false.mp hp c hm hc

lemma eq_false_of_isBlank {p : Char → Bool}
    (hp : [' ', '\t', '\n', '\r', '\x0b', '\x0c'].any p = false) {c : Char}
    (hc : isBlank c = true) : p c = false := by
  rw [Bool.eq_false_iff]
  intro h
  rw [notBlank_of hp h] at hc
  exact Bool.false_ne_true hc

lemma eq_false_of_head_dropWhile {α : Type} {p : α → Bool} {xs : List α} {x : α}
    (h : (xs.dropWhile p).head? = some x) : p x = false := by
  have hstop := List.head?_dropWhile_not p xs
  simpa [h] using hstop

lemma rdropWhile_append {α : Type} {p : α → Bool} (xs : List α)
    (h : ∀ x, xs.getLast? = some x → p x = false) (ys : List α) :
    (xs ++ ys).rdropWhile p = xs ++ ys.rdropWhile p := by
  have hx : xs.reverse.dropWhile p = xs.reverse := by
    cases hr : xs.reverse with
    | nil => rfl
    | cons x rs =>
      have hp := h x (by rw [← List.head?_reverse, hr]; rfl)
      rw [List.dropWhile_cons_of_neg (by simp [hp])]
  simp only [List.rdropWhile, List.reverse_append, List.dropWhile_append]
  split
  · rename_i he
    rw [hx, List.isEmpty_iff.mp he]
    simp
  · simp

lemma stripChars_eq (cs : List Char) : stripChars cs = (cs.dropWhile isBlank).rdropWhile isBlank :=
  rfl

lemma stripChars_of_notBlank {c : Char} (h : isBlank c = false) (cs : List Char) :
    stripChars (c :: cs) = (c :: cs).rdropWhile isBlank := by
  rw [stripChars_eq, List.dropWhile_cons_of_neg (by simp [h])]

lemma stripped_append {α : Type} {p : α → Bool} (xs : List α) {bs : List α}
    (h : ∀ b ∈ bs, p b = true) :
    ((xs ++ bs).dropWhile p).rdropWhile p = (xs.dropWhile p).rdropWhile p := by
  have hb : ∀ ys : List α, (ys ++ bs).rdropWhile p = ys.rdropWhile p := by
    intro ys
    simp only [List.rdropWhile, List.reverse_append]
    rw [List.dropWhile_append_of_pos]
    simpa using h
  rw [List.dropWhile_append]
  split
  · rename_i he
    rw [List.isEmpty_iff.mp he, List.dropWhile_eq_nil_iff.mpr h]
  · exact hb _

lemma stripped_eq {α : Type} {p : α → Bool} {xs inner ys : List α} (hxs : ∀ x ∈ xs, p x = true)
    (hys : ∀ y ∈ ys, p y = true) (hhead : ∀ x, inner.head? = some x → p x = false)
    (hlast : ∀ x, inner.getLast? = some x → p x = false) :
    ((xs ++ (inner ++ ys)).dropWhile p).rdropWhile p = inner := by
  have hfront : inner.dropWhile p = inner := by
    cases inner with
    | nil => rfl
    | cons x inner => rw [List.dropWhile_cons_of_neg (by simp [hhead x rfl])]
  have hback := rdropWhile_append inner hlast []
  rw [List.append_nil, List.rdropWhile_nil, List.append_nil] at hback
  rw [List.dropWhile_append_of_pos hxs, stripped_append inner hys, hfront, hback]

lemma exists_stripped {α : Type} (p : α → Bool) (ts : List α) :
    ∃ xs inner ys, ts = xs ++ (inner ++ ys) ∧ (∀ x ∈ xs ++ ys, p x = true) ∧
      (∀ x, inner.head? = some x → p x = false) ∧ ∀ x, inner.getLast? = some x → p x = false := by
  let rest := ts.dropWhile p
  have hrest : rest.rdropWhile p ++ rest.rtakeWhile p = rest := List.rdropWhile_append_rtakeWhile
  refine ⟨ts.takeWhile p, rest.rdropWhile p, rest.rtakeWhile p, ?_, ?_, fun x hx => ?_,
    fun x hx => ?_⟩
  · rw [hrest, List.takeWhile_append_dropWhile]
  · exact List.forall_mem_append.mpr
      ⟨List.all_eq_true.mp List.all_takeWhile, fun _ => List.mem_rtakeWhile_imp⟩
  · have hhead : (ts.dropWhile p).head? = some x := by
      change rest.head? = some x
      rw [← hrest, List.head?_append, hx, Option.some_or]
    exact eq_false_of_head_dropWhile hhead
  · rw [List.rdropWhile, List.getLast?_reverse] at hx
    exact eq_false_of_head_dropWhile hx

lemma stripChars_append_blank (cs : List Char) {bs : List Char} (h : ∀ b ∈ bs, isBlank b = true) :
    stripChars (cs ++ bs) = stripChars cs :=
  stripped_append cs h

lemma stripChars_blank_append {bs : List Char} (h : ∀ b ∈ bs, isBlank b = true) (cs : List Char) :
    stripChars (bs ++ cs) = stripChars cs := by
  rw [stripChars, List.dropWhile_append_of_pos h, stripChars]

lemma stripChars_cons_blank {c : Char} (h : isBlank c = true) (cs : List Char) :
    stripChars (c :: cs) = stripChars cs :=
  stripChars_blank_append (List.forall_mem_singleton.mpr h) cs

lemma stripChars_of_blank {bs : List Char} (h : ∀ b ∈ bs, isBlank b = true) : stripChars bs = [] :=
  stripChars_append_blank [] h

@[simp] lemma afterPrefix_append (p rest : List Char) : afterPrefix? p (p ++ rest) = some rest := by
  simp [afterPrefix?]

lemma afterPrefix_append_append (p q cs : List Char) :
    afterPrefix? (p ++ q) (p ++ cs) = afterPrefix? q cs := by
  by_cases h : q <+: cs
  · obtain ⟨rest, rfl⟩ := h
    rw [← List.append_assoc, afterPrefix_append, afterPrefix_append]
  · simp [afterPrefix?, h]

lemma afterPrefix_eq_none {p cs : List Char} (h : ¬ p <+: cs) : afterPrefix? p cs = none := by
  simp [afterPrefix?, h]

lemma afterPrefix_eq_some_iff {p cs rest : List Char} :
    afterPrefix? p cs = some rest ↔ cs = p ++ rest := by
  constructor
  · intro h
    by_cases hp : p <+: cs
    · obtain ⟨more, rfl⟩ := hp
      rw [afterPrefix_append] at h
      rw [Option.some.inj h]
    · cases (afterPrefix_eq_none hp).symm.trans h
  · rintro rfl
    exact afterPrefix_append p rest

lemma afterPrefix_rdropWhile {p : List Char} (hp : ∀ c, p.getLast? = some c → isBlank c = false)
    (cs : List Char) :
    afterPrefix? p (cs.rdropWhile isBlank) = (afterPrefix? p cs).map (·.rdropWhile isBlank) := by
  by_cases h : p <+: cs
  · obtain ⟨rest, rfl⟩ := h
    rw [rdropWhile_append p hp, afterPrefix_append, afterPrefix_append]
    rfl
  · have hn : ¬ p <+: cs.rdropWhile isBlank := fun hr => h (hr.trans (List.rdropWhile_prefix _ _))
    rw [afterPrefix_eq_none h, afterPrefix_eq_none hn]
    rfl

lemma prefix_append_cons_iff {p : List Char} {c : Char} (hp : c ∉ p) (cs rest : List Char) :
    p <+: cs ++ c :: rest ↔ p <+: cs := by
  constructor
  · intro h
    by_cases hlength : p.length ≤ cs.length
    · exact List.prefix_of_prefix_length_le h (List.prefix_append _ _) hlength
    · have hc : cs ++ [c] <+: cs ++ c :: rest := ⟨rest, by simp⟩
      have hcp : cs ++ [c] <+: p := List.prefix_of_prefix_length_le hc h (by simp; omega)
      exact (hp (hcp.subset (List.mem_append_right _ List.mem_cons_self))).elim
  · exact fun h => h.trans (List.prefix_append _ _)

lemma splitAt_cons {c d : Char} (h : d ≠ c) (cs : List Char) :
    splitAt? c (d :: cs) = (splitAt? c cs).map fun s => (d :: s.1, s.2) := by
  have hd : (d != c) = true := by simpa using h
  simp only [splitAt?, List.dropWhile_cons_of_pos (p := (· != c)) hd,
    List.takeWhile_cons_of_pos (p := (· != c)) hd]
  cases cs.dropWhile (· != c) <;> rfl

lemma splitAt_append {c : Char} {cs : List Char} (h : c ∉ cs) (rest : List Char) :
    splitAt? c (cs ++ c :: rest) = some (cs, rest) := by
  induction cs with
  | nil => simp [splitAt?]
  | cons d cs ih =>
    obtain ⟨hd, hcs⟩ : c ≠ d ∧ c ∉ cs := by simpa using h
    rw [List.cons_append, splitAt_cons hd.symm, ih hcs]
    rfl

lemma splitAt_eq_some_iff {c : Char} {cs before after : List Char} :
    splitAt? c cs = some (before, after) ↔ c ∉ before ∧ cs = before ++ c :: after := by
  constructor
  · intro h
    by_cases hc : c ∈ cs
    · obtain ⟨xs, ys, rfl, hxs⟩ := List.eq_append_cons_of_mem hc
      rw [splitAt_append hxs] at h
      obtain ⟨rfl, rfl⟩ := Prod.mk.inj (Option.some.inj h)
      exact ⟨hxs, rfl⟩
    · have hall : cs.dropWhile (· != c) = [] :=
        List.dropWhile_eq_nil_iff.mpr fun d hd => bne_iff_ne.mpr fun hdc => hc (hdc ▸ hd)
      rw [splitAt?, hall] at h
      cases h
  · rintro ⟨h, rfl⟩
    exact splitAt_append h after

lemma splitAt_append_blank {c : Char} (hc : isBlank c = false) (cs : List Char) {bs : List Char}
    (h : ∀ b ∈ bs, isBlank b = true) :
    splitAt? c (cs ++ bs) = (splitAt? c cs).map fun s => (s.1, s.2 ++ bs) := by
  have hb : ∀ b ∈ bs, (b != c) = true := by
    intro b hb
    simp only [bne_iff_ne, ne_eq]
    rintro rfl
    rw [h b hb] at hc
    cases hc
  induction cs with
  | nil =>
    have hnil : bs.dropWhile (· != c) = [] := List.dropWhile_eq_nil_iff.mpr hb
    simp [splitAt?, hnil]
  | cons d cs ih =>
    by_cases hd : d = c
    · simp [splitAt?, hd]
    · rw [List.cons_append, splitAt_cons hd, splitAt_cons hd, ih, Option.map_map, Option.map_map]
      rfl

lemma exists_blank (cs : List Char) :
    ∃ bs, (∀ b ∈ bs, isBlank b = true) ∧ cs = cs.rdropWhile isBlank ++ bs :=
  ⟨cs.rtakeWhile isBlank, fun _ => List.mem_rtakeWhile_imp, List.rdropWhile_append_rtakeWhile.symm⟩

end ShaderPipeline.Text
