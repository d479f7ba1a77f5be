import Mathlib.Tactic.Lemma
import ShaderPipeline.Text

namespace ShaderPipeline.Text

def unlines (ls : List (List Char)) : List Char :=
  ls.flatMap (· ++ ['\n'])

@[simp] lemma unlines_nil : unlines [] = [] :=
  rfl

@[simp] lemma unlines_cons (l : List Char) (ls : List (List Char)) :
    unlines (l :: ls) = l ++ '\n' :: unlines ls := by
  simp [unlines]

@[simp] lemma unlines_append (ls ms : List (List Char)) :
    unlines (ls ++ ms) = unlines ls ++ unlines ms :=
  List.flatMap_append

@[simp] lemma unlines_replicate_nil (n : Nat) :
    unlines (List.replicate n []) = List.replicate n '\n' := by
  induction n with
  | zero => rfl
  | succ n ih => simp [List.replicate_succ, ih]

lemma bareLines_line {l : List Char} (h : '\n' ∉ l) (cs : List Char) :
    bareLines (l ++ '\n' :: cs) = l :: bareLines cs := by
  induction l with
  | nil => simp [bareLines]
  | cons c l ih =>
    obtain ⟨hc, hl⟩ : '\n' ≠ c ∧ '\n' ∉ l := by simpa using h
    simp [bareLines, hc.symm, ih hl]

lemma closedLines_line {l : List Char} (h : '\n' ∉ l) (cs : List Char) :
    closedLines (l ++ '\n' :: cs) = (l ++ ['\n']) :: closedLines cs := by
  induction l with
  | nil => simp [closedLines]
  | cons c l ih =>
    obtain ⟨hc, hl⟩ : '\n' ≠ c ∧ '\n' ∉ l := by simpa using h
    simp [closedLines, hc.symm, ih hl]

theorem bareLines_unlines_append {ls : List (List Char)} (h : ∀ l ∈ ls, '\n' ∉ l) (cs : List Char) :
    bareLines (unlines ls ++ cs) = ls ++ bareLines cs := by
  induction ls with
  | nil => rfl
  | cons l ls ih =>
    obtain ⟨hl, hls⟩ := List.forall_mem_cons.mp h
    rw [unlines_cons, List.append_assoc, List.cons_append, bareLines_line hl, ih hls,
      List.cons_append]

theorem bareLines_unlines {ls : List (List Char)} (h : ∀ l ∈ ls, '\n' ∉ l) :
    bareLines (unlines ls) = ls := by
  simpa [bareLines] using bareLines_unlines_append h []

lemma count_unlines {ls : List (List Char)} (h : ∀ l ∈ ls, '\n' ∉ l) :
    (unlines ls).count '\n' = ls.length := by
  induction ls with
  | nil => rfl
  | cons l ls ih =>
    obtain ⟨hl, hls⟩ := List.forall_mem_cons.mp h
    simp only [unlines_cons, List.count_append, List.count_cons_self,
      List.count_eq_zero.mpr hl, ih hls, List.length_cons]
    omega

def IsClosed (cs : List Char) : Prop :=
  ∀ c, cs.getLast? = some c → c = '\n'

lemma isClosed_append_singleton {cs : List Char} : IsClosed (cs ++ ['\n']) := by
  intro c hc
  simpa using hc.symm

lemma isClosed_replicate (n : Nat) : IsClosed (List.replicate n '\n') := by
  intro c h
  exact List.eq_of_mem_replicate (List.mem_of_getLast? h)

def bare (l : List Char) : List Char :=
  l.takeWhile (· != '\n')

inductive Lined : List (List Char) → Prop
  | nil : Lined []
  | last {l : List Char} (h : '\n' ∉ l) (hl : l ≠ []) : Lined [l]
  | cons {l : List Char} {ls : List (List Char)} (h : '\n' ∉ l) (hls : Lined ls) :
      Lined ((l ++ ['\n']) :: ls)

lemma bare_append {l : List Char} (h : '\n' ∉ l) (cs : List Char) : bare (l ++ cs) = l ++ bare cs :=
  List.takeWhile_append_of_pos fun c hc => by simpa using fun he : c = '\n' => h (he ▸ hc)

lemma bare_of_notMem {l : List Char} (h : '\n' ∉ l) : bare l = l := by
  simpa [bare] using bare_append h []

lemma bare_closed {l : List Char} (h : '\n' ∉ l) : bare (l ++ ['\n']) = l := by
  simpa [bare] using bare_append h ['\n']

lemma bareLines_of_notMem {l : List Char} (h : '\n' ∉ l) (hl : l ≠ []) : bareLines l = [l] := by
  induction l with
  | nil => exact (hl rfl).elim
  | cons c l ih =>
    obtain ⟨hc, hn⟩ : '\n' ≠ c ∧ '\n' ∉ l := by simpa using h
    rcases l with _ | ⟨d, l⟩
    · simp [bareLines, hc.symm]
    · rw [bareLines, if_neg hc.symm, ih hn (List.cons_ne_nil _ _)]

lemma lined_closedLines (cs : List Char) : Lined (closedLines cs) := by
  induction cs with
  | nil => exact .nil
  | cons c cs ih =>
    rw [closedLines]
    split
    · exact .cons (l := []) List.not_mem_nil ih
    rename_i hc
    split
    · exact .last (by simpa using Ne.symm hc) (List.cons_ne_nil _ _)
    rename_i l ls hl
    rw [hl] at ih
    cases ih with
    | last h _ => exact .last (by simp [Ne.symm hc, h]) (List.cons_ne_nil _ _)
    | cons h hls => exact .cons (l := c :: _) (by simp [Ne.symm hc, h]) hls

lemma flatten_closedLines (cs : List Char) : (closedLines cs).flatten = cs := by
  induction cs with
  | nil => rfl
  | cons c cs ih =>
    rw [closedLines]
    split
    · rename_i hc
      rw [List.flatten_cons, ih, hc, List.singleton_append]
    split
    · rename_i hnil
      rw [hnil] at ih
      rw [← ih]
      rfl
    · rename_i l ls hl
      rw [hl] at ih
      rw [← ih]
      rfl

theorem bareLines_flatten {ls : List (List Char)} (h : Lined ls) :
    bareLines ls.flatten = ls.map bare := by
  induction h with
  | nil => rfl
  | last h hl =>
    rw [List.flatten_singleton, bareLines_of_notMem h hl, List.map_singleton, bare_of_notMem h]
  | cons h _ ih =>
    rw [List.flatten_cons, List.append_assoc, List.singleton_append, bareLines_line h, ih,
      List.map_cons, bare_closed h]

lemma bareLines_eq_map (cs : List Char) : bareLines cs = (closedLines cs).map bare := by
  rw [← bareLines_flatten (lined_closedLines cs), flatten_closedLines]

lemma newline_notMem_bare (l : List Char) : '\n' ∉ bare l := fun h => by
  simpa using List.all_eq_true.mp List.all_takeWhile _ h

lemma newline_notMem_bareLines {cs l : List Char} (h : l ∈ bareLines cs) : '\n' ∉ l := by
  rw [bareLines_eq_map] at h
  obtain ⟨line, -, rfl⟩ := List.mem_map.mp h
  exact newline_notMem_bare line

lemma Lined.length_eq {ls : List (List Char)} (h : Lined ls) :
    ls.length = ls.flatten.count '\n' + if ls.flatten.getLast?.any (· != '\n') then 1 else 0 := by
  induction h with
  | nil => rfl
  | @last l h hl =>
    have hend : l.getLast?.any (· != '\n') = true := by
      rw [List.getLast?_eq_some_getLast hl, Option.any_some, bne_iff_ne]
      exact fun he => h (he ▸ List.getLast_mem hl)
    rw [List.flatten_singleton, List.count_eq_zero.mpr h, if_pos hend]
    rfl
  | @cons l ls h _ ih =>
    have hcount : ((l ++ ['\n']) :: ls).flatten.count '\n' = ls.flatten.count '\n' + 1 := by
      simp [List.count_eq_zero.mpr h]
    have hend : ((l ++ ['\n']) :: ls).flatten.getLast?.any (· != '\n') =
        ls.flatten.getLast?.any (· != '\n') := by
      rw [List.flatten_cons, List.getLast?_append, List.getLast?_concat]
      cases ls.flatten.getLast? <;> rfl
    rw [List.length_cons, hcount, hend, ih]
    omega

lemma length_bareLines {cs : List Char} (h : IsClosed cs) :
    (bareLines cs).length = cs.count '\n' := by
  have hend : cs.getLast?.any (· != '\n') = false := by
    cases hlast : cs.getLast? with
    | none => rfl
    | some c => simpa using h c hlast
  rw [bareLines_eq_map, List.length_map, (lined_closedLines cs).length_eq,
    flatten_closedLines, hend]
  rfl

def Closed (l : List Char) : Prop :=
  ∃ row, '\n' ∉ row ∧ l = row ++ ['\n']

theorem closedLines_flatten {ls : List (List Char)} (h : ∀ l ∈ ls, Closed l) (cs : List Char) :
    closedLines (ls.flatten ++ cs) = ls ++ closedLines cs := by
  induction ls with
  | nil => rfl
  | cons l ls ih =>
    obtain ⟨⟨row, hrow, rfl⟩, hls⟩ := List.forall_mem_cons.mp h
    rw [List.flatten_cons, List.append_assoc, List.append_assoc, List.singleton_append,
      closedLines_line hrow, ih hls, List.cons_append]

lemma unlines_map_bare {ls : List (List Char)} (h : ∀ l ∈ ls, Closed l) :
    unlines (ls.map bare) = ls.flatten := by
  induction ls with
  | nil => rfl
  | cons l ls ih =>
    obtain ⟨⟨row, hrow, rfl⟩, hls⟩ := List.forall_mem_cons.mp h
    rw [List.map_cons, unlines_cons, bare_closed hrow, ih hls, List.flatten_cons, List.append_assoc,
      List.singleton_append]

lemma Lined.closed {ls : List (List Char)} (h : Lined ls) (hclosed : IsClosed ls.flatten) :
    ∀ l ∈ ls, Closed l := by
  induction h with
  | nil => exact List.forall_mem_nil _
  | @last l hn hl =>
    rw [List.flatten_singleton] at hclosed
    have hlast := hclosed _ (List.getLast?_eq_some_getLast hl)
    exact (hn (hlast ▸ List.getLast_mem hl)).elim
  | @cons l ls hn _ ih =>
    refine List.forall_mem_cons.mpr ⟨⟨l, hn, rfl⟩, ih fun c hc => hclosed c ?_⟩
    rw [List.flatten_cons, List.getLast?_append, hc, Option.some_or]

lemma closed_of_mem_closedLines {cs l : List Char} (h : IsClosed cs) (hl : l ∈ closedLines cs) :
    Closed l := by
  have hflatten := flatten_closedLines cs
  exact (lined_closedLines cs).closed (by rwa [hflatten]) l hl

lemma closedLines_append {cs : List Char} (h : IsClosed cs) (ds : List Char) :
    closedLines (cs ++ ds) = closedLines cs ++ closedLines ds := by
  have happend := closedLines_flatten (fun l hl => closed_of_mem_closedLines h hl) ds
  rwa [flatten_closedLines] at happend

lemma unlines_bareLines {cs : List Char} (h : IsClosed cs) : unlines (bareLines cs) = cs := by
  rw [bareLines_eq_map, unlines_map_bare fun l hl => closed_of_mem_closedLines h hl,
    flatten_closedLines]

lemma subset_of_mem_bareLines {cs row : List Char} (h : row ∈ bareLines cs) : row ⊆ cs := by
  rw [bareLines_eq_map] at h
  obtain ⟨l, hl, rfl⟩ := List.mem_map.mp h
  intro c hc
  rw [← flatten_closedLines cs]
  exact List.mem_flatten.mpr ⟨l, hl, (List.takeWhile_prefix _).subset hc⟩

lemma prefix_bare_iff {p : List Char} (hp : '\n' ∉ p) (l : List Char) : p <+: bare l ↔ p <+: l := by
  constructor
  · exact fun h => h.trans (List.takeWhile_prefix _)
  · rintro ⟨rest, rfl⟩
    rw [bare_append hp]
    exact List.prefix_append p _

lemma Lined.of_cons {l : List Char} {ls : List (List Char)} (h : Lined (l :: ls)) (hls : ls ≠ []) :
    Closed l ∧ Lined ls := by
  cases h with
  | last => exact (hls rfl).elim
  | cons hl hls => exact ⟨⟨_, hl, rfl⟩, hls⟩

lemma Lined.of_append {ls ms : List (List Char)} (h : Lined (ls ++ ms)) (hms : ms ≠ []) :
    (∀ l ∈ ls, Closed l) ∧ Lined ms := by
  induction ls with
  | nil => exact ⟨List.forall_mem_nil _, h⟩
  | cons l ls ih =>
    obtain ⟨hl, h⟩ := h.of_cons (List.append_ne_nil_of_right_ne_nil ls hms)
    exact ⟨List.forall_mem_cons.mpr ⟨hl, (ih h).1⟩, (ih h).2⟩

lemma Lined.closed_of_mem_dropLast {ls : List (List Char)} (h : Lined ls) :
    ∀ l ∈ ls.dropLast, Closed l := by
  rcases List.eq_nil_or_concat ls with rfl | ⟨ls, l, rfl⟩
  · exact List.forall_mem_nil _
  · rw [List.concat_eq_append] at h ⊢
    rw [List.dropLast_concat]
    exact (h.of_append (List.cons_ne_nil _ _)).1

lemma Lined.eq_of_mem {ls : List (List Char)} (h : Lined ls) {l : List Char} (hl : l ∈ ls) :
    l = bare l ++ ['\n'] ∨ l = bare l ∧ l ≠ [] := by
  induction h with
  | nil => cases hl
  | last hn hne =>
    obtain rfl := List.mem_singleton.mp hl
    exact .inr ⟨(bare_of_notMem hn).symm, hne⟩
  | cons hn _ ih =>
    rcases List.mem_cons.mp hl with rfl | hl
    · exact .inl (by rw [bare_closed hn])
    · exact ih hl

lemma Lined.newline_notMem_dropLast {ls : List (List Char)} (h : Lined ls) {l : List Char}
    (hl : l ∈ ls) : l ≠ [] ∧ '\n' ∉ l.dropLast := by
  rcases h.eq_of_mem hl with hclosed | ⟨hlast, hne⟩
  · rw [hclosed, List.dropLast_concat]
    exact ⟨List.append_ne_nil_of_right_ne_nil _ (List.cons_ne_nil _ _), newline_notMem_bare l⟩
  · exact ⟨hne, fun hm => newline_notMem_bare l (hlast ▸ List.dropLast_subset l hm)⟩

end ShaderPipeline.Text
