import Mathlib
import ShaderPipeline.Proofs.Text.Lines
import ShaderPipeline.Text.Clean

/-! Cleaning a text keeps its newlines, although splices and comments may move them. -/

namespace ShaderPipeline.Text

def Piece.height : Piece → Nat
  | .splice => 1
  | .char c => if c = '\n' then 1 else 0

lemma sum_height_pieces (cs : List Char) : ((pieces cs).map Piece.height).sum = cs.count '\n' := by
  fun_induction pieces cs with
  | case1 cs ih =>
    simp [Piece.height, ih]
    omega
  | case2 cs ih =>
    simp [Piece.height, ih]
    omega
  | case3 c cs h₁ h₂ ih =>
    by_cases hc : c = '\n'
    · simp [Piece.height, hc, ih]
      omega
    · simp [Piece.height, hc, ih]
  | case4 => rfl

lemma pieces_cons_of_isClosed (cs : List Char) {ds : List Char} {p : Piece}
    (h : IsClosed (cs ++ ds)) (hp : ds = [] → p.height = 1)
    (ih : IsClosed ds → ds ≠ [] → ∃ ps q, pieces ds = ps ++ [q] ∧ q.height = 1) :
    ∃ ps q, p :: pieces ds = ps ++ [q] ∧ q.height = 1 := by
  by_cases hds : ds = []
  · subst hds
    exact ⟨[], p, rfl, hp rfl⟩
  · have hclosed : IsClosed ds := fun c hc => h c (by simp [List.getLast?_append, hc])
    obtain ⟨ps, q, hps, hq⟩ := ih hclosed hds
    exact ⟨p :: ps, q, by simp [hps], hq⟩

lemma pieces_of_isClosed {cs : List Char} (h : IsClosed cs) (hn : cs ≠ []) :
    ∃ ps p, pieces cs = ps ++ [p] ∧ p.height = 1 := by
  fun_induction pieces cs with
  | case1 cs ih => exact pieces_cons_of_isClosed ['\\', '\n'] h (fun _ => rfl) ih
  | case2 cs ih => exact pieces_cons_of_isClosed ['\\', '\r', '\n'] h (fun _ => rfl) ih
  | case3 c cs h₁ h₂ ih =>
    refine pieces_cons_of_isClosed [c] h (fun hcs => ?_) ih
    subst hcs
    obtain rfl := h c rfl
    rfl
  | case4 => exact (hn rfl).elim

namespace Clean

lemma count_newlines (n : Nat) : (newlines n).count '\n' = n := by
  simp [newlines]

lemma count_writeCode (n : Nat) (p : Piece) :
    (writeCode n p).count '\n' + (State.nextCode n p).owed = n + p.height := by
  rcases p with c | _
  · by_cases hs : c = '/'
    · subst hs
      simp [writeCode, State.nextCode, Piece.height]
    by_cases hn : c = '\n'
    · subst hn
      simp [writeCode, State.nextCode, Piece.height, count_newlines]
    · simp [writeCode, State.nextCode, Piece.height, hn]
  · simp [writeCode, State.nextCode, Piece.height]

lemma count_write (s : State) (p : Piece) :
    (s.write p).count '\n' + (s.next p).owed = s.owed + p.height := by
  obtain ⟨mode, owed⟩ := s
  have hcode := count_writeCode owed p
  simp only [State.write.eq_def, State.next.eq_def]
  cases mode with
  | code => exact hcode
  | slash =>
    rcases p with c | _
    · by_cases hs : c = '/'
      · subst hs
        simp [Piece.height]
      by_cases hb : c = '*'
      · subst hb
        simp [Piece.height]
      · simpa [hs, hb] using hcode
    · simpa using hcode
  | lineComment =>
    rcases p with c | _
    · by_cases hn : c = '\n'
      · subst hn
        simp [count_newlines, Piece.height]
      · simp [hn, Piece.height]
    · simp [Piece.height]
  | blockComment last =>
    rcases p with c | _
    · by_cases hn : c = '\n'
      · subst hn
        simp [Piece.height]
        omega
      · by_cases he : last = '*' ∧ c = '/' <;> simp [hn, he, Piece.height]
    · simp [Piece.height]
      omega

lemma count_finish (s : State) : s.finish.count '\n' = s.owed := by
  obtain ⟨mode, owed⟩ := s
  cases mode <;> simp [State.finish, count_newlines]

def State.written (s : State) : List Piece → List Char
  | [] => []
  | p :: ps => s.write p ++ (s.next p).written ps

lemma run_append (s : State) (ps qs : List Piece) :
    run s (ps ++ qs) = s.written ps ++ run (ps.foldl State.next s) qs := by
  induction ps generalizing s with
  | nil => rfl
  | cons p ps ih => simp [run, State.written, ih]

lemma run_eq (s : State) (ps : List Piece) :
    run s ps = s.written ps ++ (ps.foldl State.next s).finish := by
  simpa [run] using run_append s ps []

lemma written_append (s : State) (ps qs : List Piece) :
    s.written (ps ++ qs) = s.written ps ++ (ps.foldl State.next s).written qs := by
  induction ps generalizing s with
  | nil => rfl
  | cons p ps ih => simp [State.written, ih]

lemma count_written (s : State) (ps : List Piece) :
    (s.written ps).count '\n' + (ps.foldl State.next s).owed =
      s.owed + (ps.map Piece.height).sum := by
  induction ps generalizing s with
  | nil => simp [State.written]
  | cons p ps ih =>
    have hp := count_write s p
    have hps := ih (s.next p)
    simp only [State.written, List.count_append, List.foldl_cons, List.map_cons, List.sum_cons]
    omega

lemma count_run (s : State) (ps : List Piece) :
    (run s ps).count '\n' = s.owed + (ps.map Piece.height).sum := by
  rw [run_eq, List.count_append, count_finish, count_written]

lemma run_newline (s : State) {p : Piece} (h : p.height = 1) :
    ∃ cs n, run s [p] = cs ++ newlines (n + 1) := by
  obtain ⟨mode, owed⟩ := s
  have hp : p = .splice ∨ p = .char '\n' := by
    rcases p with c | _
    · by_cases hc : c = '\n'
      · exact .inr (congrArg _ hc)
      · simp [Piece.height, hc] at h
    · exact .inl rfl
  cases mode with
  | code =>
    rcases hp with rfl | rfl
    · exact ⟨[], owed, rfl⟩
    · exact ⟨[], owed, List.append_nil _⟩
  | slash =>
    rcases hp with rfl | rfl
    · exact ⟨['/'], owed, rfl⟩
    · exact ⟨['/'], owed, List.append_nil _⟩
  | lineComment =>
    rcases hp with rfl | rfl
    · exact ⟨[], owed, rfl⟩
    · exact ⟨[], owed, List.append_nil _⟩
  | blockComment last =>
    rcases hp with rfl | rfl
    · exact ⟨[], owed, rfl⟩
    · have hl :
          State.next ⟨.blockComment last, owed⟩ (.char '\n') = ⟨.blockComment '\n', owed⟩ := by
        simp [State.next.eq_def]
      exact ⟨[], owed, by simp only [run, hl]; rfl⟩

end Clean

theorem count_clean (s : String) : (clean s).toList.count '\n' = s.toList.count '\n' := by
  simp [clean, Clean.count_run, sum_height_pieces, Clean.State.start]

theorem isClosed_clean {s : String} (h : IsClosed s.toList) : IsClosed (clean s).toList := by
  rw [clean, String.toList_ofList]
  by_cases hs : s.toList = []
  · rw [hs]
    exact isClosed_replicate 0
  · obtain ⟨ps, p, hp, hh⟩ := pieces_of_isClosed h hs
    have hcs := Clean.run_append .start ps [p]
    obtain ⟨ds, n, hds⟩ := Clean.run_newline (ps.foldl Clean.State.next .start) hh
    rw [hp, hcs, hds, Clean.newlines, List.replicate_succ', ← List.append_assoc,
      ← List.append_assoc]
    exact isClosed_append_singleton

def IsPlain (c : Char) : Prop :=
  c ≠ '\\' ∧ c ≠ '/'

lemma pieces_plain_append {cs : List Char} (h : ∀ c ∈ cs, IsPlain c) (ds : List Char) :
    pieces (cs ++ ds) = cs.map .char ++ pieces ds := by
  induction cs with
  | nil => rfl
  | cons c cs ih =>
    obtain ⟨⟨hb, -⟩, hcs⟩ := List.forall_mem_cons.mp h
    rw [List.cons_append, pieces, ih hcs]
    · rfl
    · exact fun _ hc => (hb hc).elim
    · exact fun _ hc => (hb hc).elim

lemma code_of_ne_slash {c : Char} (h : c ≠ '/') :
    Clean.writeCode 0 (.char c) = [c] ∧ Clean.State.nextCode 0 (.char c) = .start := by
  by_cases hn : c = '\n'
  · subst hn
    exact ⟨rfl, rfl⟩
  · constructor
    · simp [Clean.writeCode]
    · simp [Clean.State.nextCode, Clean.State.start]

lemma written_plain {cs : List Char} (h : ∀ c ∈ cs, IsPlain c) :
    Clean.State.written .start (cs.map .char) = cs ∧
    (cs.map Piece.char).foldl Clean.State.next .start = .start := by
  induction cs with
  | nil => exact ⟨rfl, rfl⟩
  | cons c cs ih =>
    obtain ⟨⟨-, hs⟩, hcs⟩ := List.forall_mem_cons.mp h
    obtain ⟨hwritten, hfold⟩ := ih hcs
    have hw : Clean.State.write .start (.char c) = [c] := (code_of_ne_slash hs).1
    have hx : Clean.State.next .start (.char c) = .start := (code_of_ne_slash hs).2
    constructor
    · rw [List.map_cons, Clean.State.written, hw, hx, hwritten, List.singleton_append]
    · rw [List.map_cons, List.foldl_cons, hx, hfold]

lemma pieces_append {cs ds : List Char}
    (h : ∀ as bs, as <:+ cs → bs <+: ds → as ≠ [] → bs ≠ [] →
      as ++ bs ≠ ['\\', '\n'] ∧ as ++ bs ≠ ['\\', '\r', '\n']) :
    pieces (cs ++ ds) = pieces cs ++ pieces ds := by
  have htail :
      ∀ {cs cs' : List Char}, cs <:+ cs' → (∀ as bs, as <:+ cs' → bs <+: ds → as ≠ [] → bs ≠ [] →
      as ++ bs ≠ ['\\', '\n'] ∧ as ++ bs ≠ ['\\', '\r', '\n']) → ∀ as bs, as <:+ cs → bs <+: ds →
        as ≠ [] → bs ≠ [] →
        as ++ bs ≠ ['\\', '\n'] ∧ as ++ bs ≠ ['\\', '\r', '\n'] :=
    fun hs h as bs has => h as bs (has.trans hs)
  fun_induction pieces cs with
  | case1 cs ih =>
    rw [List.cons_append, List.cons_append, pieces,
      ih (htail (List.suffix_append ['\\', '\n'] cs) h), List.cons_append]
  | case2 cs ih =>
    rw [List.cons_append, List.cons_append, List.cons_append, pieces,
      ih (htail (List.suffix_append ['\\', '\r', '\n'] cs) h), List.cons_append]
  | case3 c cs h₁ h₂ ih =>
    rw [List.cons_append, pieces, ih (htail (List.suffix_cons c cs) h), List.cons_append]
    · rintro es rfl hd
      rcases cs with _ | ⟨d, cs⟩
      · exact (h ['\\'] ['\n'] List.suffix_rfl ⟨es, hd.symm⟩ nofun nofun).1 rfl
      · exact h₁ cs rfl (by simpa using (List.cons.inj hd).1)
    · rintro es rfl hd
      rcases cs with _ | ⟨d, _ | ⟨e, cs⟩⟩
      · exact (h ['\\'] ['\r', '\n'] List.suffix_rfl ⟨es, hd.symm⟩ nofun nofun).2 rfl
      · obtain ⟨rfl, hds⟩ := List.cons.inj hd
        exact (h ['\\', '\r'] ['\n'] List.suffix_rfl ⟨es, hds.symm⟩ nofun nofun).2 rfl
      · simp only [List.cons_append, List.cons.injEq] at hd
        exact h₂ cs rfl (by rw [hd.1, hd.2.1])
  | case4 => rfl

lemma pieces_append_of_isClosed {cs : List Char} (h : IsClosed cs) (ds : List Char) :
    pieces (cs ++ ds) = pieces cs ++ pieces ds := by
  refine pieces_append fun as bs has _ hne hne' => ?_
  have hlast : as.getLast hne = '\n' := by
    obtain ⟨front, rfl⟩ := has
    exact h _ (by rw [List.getLast?_append_of_ne_nil _ hne, List.getLast?_eq_some_getLast hne])
  rcases as with _ | ⟨a, _ | ⟨b, as⟩⟩
  · exact (hne rfl).elim
  · obtain rfl : a = '\n' := hlast
    simp
  · rcases as with _ | ⟨c, as⟩
    · obtain rfl : b = '\n' := hlast
      simp [hne']
    · simp [hne']

structure Contained (row : List Char) : Prop where
  oneLine : '\n' ∉ row
  ends : (pieces (row ++ ['\n'])).foldl Clean.State.next .start = .start

def cleanRow (row : List Char) : List Char :=
  bare (Clean.State.written .start (pieces (row ++ ['\n'])))

namespace Contained

variable {row : List Char}

lemma exists_body (h : Contained row) :
    ∃ body, Clean.State.written .start (pieces (row ++ ['\n'])) = body ++ ['\n'] := by
  obtain ⟨ps, p, hp, hh⟩ := pieces_of_isClosed isClosed_append_singleton
    (List.append_ne_nil_of_right_ne_nil row (List.cons_ne_nil '\n' []))
  have hends := h.ends
  rw [hp, List.foldl_append, List.foldl_cons, List.foldl_nil] at hends
  obtain ⟨cs, n, hrun⟩ := Clean.run_newline (ps.foldl Clean.State.next .start) hh
  rw [Clean.run_eq, List.foldl_cons, List.foldl_nil, hends] at hrun
  have hwritten := Clean.written_append .start ps [p]
  rw [show Clean.State.finish .start = [] from rfl, List.append_nil] at hrun
  refine ⟨Clean.State.written .start ps ++ cs ++ Clean.newlines n, ?_⟩
  rw [hp, hwritten, hrun, Clean.newlines, List.replicate_succ', ← List.append_assoc,
    ← List.append_assoc]
  rfl

lemma written (h : Contained row) :
    Clean.State.written .start (pieces (row ++ ['\n'])) = cleanRow row ++ ['\n'] := by
  obtain ⟨body, hbody⟩ := h.exists_body
  have hcount := Clean.count_written .start (pieces (row ++ ['\n']))
  rw [h.ends, sum_height_pieces, List.count_append, List.count_eq_zero.mpr h.oneLine, hbody,
    List.count_append] at hcount
  have hn : '\n' ∉ body := List.count_eq_zero.mp (by simpa [Clean.State.start] using hcount)
  rw [cleanRow, hbody, bare_closed hn]

end Contained

lemma run_unlines {rows : List (List Char)} (h : ∀ row ∈ rows, Contained row) :
    Clean.run .start (pieces (unlines rows)) = unlines (rows.map cleanRow) := by
  induction rows with
  | nil => rfl
  | cons row rows ih =>
    obtain ⟨hrow, hrows⟩ := List.forall_mem_cons.mp h
    have hpieces := pieces_append_of_isClosed (@isClosed_append_singleton row) (unlines rows)
    rw [List.append_assoc, List.singleton_append] at hpieces
    rw [unlines_cons, hpieces, Clean.run_append, hrow.written, hrow.ends, ih hrows, List.map_cons,
      unlines_cons, List.append_assoc, List.singleton_append]

theorem lines_clean_of_contained {s : String} {rows : List (List Char)}
    (hs : s.toList = unlines rows) (h : ∀ row ∈ rows, Contained row) :
    lines (clean s) = (rows.map cleanRow).map .ofList := by
  have hn : ∀ row ∈ rows.map cleanRow, '\n' ∉ row := by
    intro row hrow
    obtain ⟨row, -, rfl⟩ := List.mem_map.mp hrow
    exact newline_notMem_bare _
  rw [lines, clean, String.toList_ofList, hs, run_unlines h, bareLines_unlines hn]

lemma cleanRow_plain_append {cs : List Char} (h : ∀ c ∈ cs, IsPlain c) (hn : '\n' ∉ cs)
    (ds : List Char) : cleanRow (cs ++ ds) = cs ++ cleanRow ds := by
  obtain ⟨hwritten, hfold⟩ := written_plain h
  rw [cleanRow, List.append_assoc, pieces_plain_append h, Clean.written_append, hwritten, hfold,
    bare_append hn, cleanRow]

lemma contained_of_plain {row : List Char} (h : ∀ c ∈ row, IsPlain c) (hn : '\n' ∉ row) :
    Contained row ∧ cleanRow row = row := by
  have hnil : cleanRow [] = [] := rfl
  have hclean := cleanRow_plain_append h hn []
  rw [List.append_nil, hnil, List.append_nil] at hclean
  refine ⟨⟨hn, ?_⟩, hclean⟩
  rw [pieces_plain_append h, List.foldl_append, (written_plain h).2]
  rfl

structure Uncommented (cs : List Char) : Prop where
  line : ¬ "//".toList <:+: cs
  block : ¬ "/*".toList <:+: cs
  splice : ¬ "\\\n".toList <:+: cs
  returnSplice : ¬ "\\\r\n".toList <:+: cs

namespace Uncommented

variable {cs : List Char}

lemma suffix {ds : List Char} (h : Uncommented cs) (hd : ds <:+ cs) : Uncommented ds :=
  ⟨fun hi => h.line (hi.trans hd.isInfix), fun hi => h.block (hi.trans hd.isInfix),
    fun hi => h.splice (hi.trans hd.isInfix), fun hi => h.returnSplice (hi.trans hd.isInfix)⟩

lemma pieces_eq (h : Uncommented cs) : pieces cs = cs.map .char := by
  fun_induction pieces cs with
  | case1 cs ih => exact (h.splice ⟨[], cs, rfl⟩).elim
  | case2 cs ih => exact (h.returnSplice ⟨[], cs, rfl⟩).elim
  | case3 c cs h₁ h₂ ih => rw [ih (h.suffix (List.suffix_cons c cs)), List.map_cons]
  | case4 => rfl

lemma run_eq (h : Uncommented cs) : Clean.run .start (cs.map .char) = cs ∧
    (Uncommented ('/' :: cs) → Clean.run ⟨.slash, 0⟩ (cs.map .char) = '/' :: cs) := by
  induction cs with
  | nil => exact ⟨rfl, fun _ => rfl⟩
  | cons c cs ih =>
    obtain ⟨hcode, hslash⟩ := ih (h.suffix (List.suffix_cons c cs))
    by_cases hs : c = '/'
    · subst hs
      exact ⟨hslash h, fun h => (h.line ⟨[], cs, rfl⟩).elim⟩
    obtain ⟨hw, hx⟩ := code_of_ne_slash hs
    constructor
    · have hx' : Clean.State.next .start (.char c) = .start := hx
      have hw' : Clean.State.write .start (.char c) = [c] := hw
      rw [List.map_cons, Clean.run, hw', hx', hcode, List.singleton_append]
    · intro h
      have hb : c ≠ '*' := by
        rintro rfl
        exact h.block ⟨[], cs, rfl⟩
      have hx' : Clean.State.next ⟨.slash, 0⟩ (.char c) = .start := by
        simpa [Clean.State.next, hs, hb] using hx
      have hw' : Clean.State.write ⟨.slash, 0⟩ (.char c) = ['/', c] := by
        simpa [Clean.State.write, hs, hb] using hw
      rw [List.map_cons, Clean.run, hw', hx', hcode]
      rfl

lemma clean_eq {s : String} (h : Uncommented s.toList) : clean s = s := by
  rw [clean, h.pieces_eq, h.run_eq.1, String.ofList_toList]

end Uncommented

def lineCount (s : String) : Nat :=
  (lines (clean s)).length

theorem lineCount_of_isClosed {s : String} (h : IsClosed s.toList) :
    lineCount s = s.toList.count '\n' := by
  rw [lineCount, lines, List.length_map, length_bareLines (isClosed_clean h), count_clean]

end ShaderPipeline.Text
