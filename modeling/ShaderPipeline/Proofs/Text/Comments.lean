import ShaderPipeline.Proofs.Text.Clean

/-! A row in which a comment could begin comes out shorter than it stands there, any other as it
is. -/

namespace ShaderPipeline.Text

namespace Clean

def State.held (s : State) : List Char :=
  match s.mode with
  | .slash => ['/']
  | _ => []

lemma length_writeCode_le (n : Nat) {c : Char} (hc : c ≠ '\n') :
    (writeCode n (.char c)).length + (State.nextCode n (.char c)).held.length ≤ 1 := by
  by_cases hs : c = '/'
  · subst hs
    simp [writeCode, State.nextCode, State.held]
  · simp [writeCode, State.nextCode, State.held]

lemma length_write_le (s : State) {c : Char} (hc : c ≠ '\n') :
    (s.write (.char c)).length + (s.next (.char c)).held.length ≤ s.held.length + 1 := by
  obtain ⟨mode, owed⟩ := s
  have hcode := length_writeCode_le owed hc
  cases mode with
  | code => simpa [State.write, State.next, State.held] using hcode
  | slash =>
    by_cases hs : c = '/'
    · subst hs
      simp [State.write, State.next, State.held]
    by_cases hb : c = '*'
    · subst hb
      simp [State.write, State.next, State.held]
    · have hw : State.write ⟨.slash, owed⟩ (.char c) = '/' :: writeCode owed (.char c) := by
        simp [State.write, hs, hb]
      have hx : State.next ⟨.slash, owed⟩ (.char c) = State.nextCode owed (.char c) := by
        simp [State.next, hs, hb]
      have hheld : (State.held ⟨.slash, owed⟩).length = 1 := rfl
      rw [hw, hx, hheld, List.length_cons]
      omega
  | lineComment => simp [State.write, State.next, State.held]
  | blockComment last =>
    by_cases he : last = '*' ∧ c = '/' <;> simp [State.write, State.next, State.held, he]

variable {cs : List Char}

lemma length_written_le (s : State) (hn : '\n' ∉ cs) :
    (s.written (cs.map .char)).length + ((cs.map .char).foldl State.next s).held.length ≤
      s.held.length + cs.length := by
  induction cs generalizing s with
  | nil => simp [State.written]
  | cons c cs ih =>
    obtain ⟨hc, hcs⟩ : '\n' ≠ c ∧ '\n' ∉ cs := by simpa using hn
    have hhead := length_write_le s hc.symm
    have htail := ih (s.next (.char c)) hcs
    simp only [List.map_cons, State.written, List.foldl_cons, List.length_append, List.length_cons]
    omega

lemma length_written_opener_lt (s : State) {c : Char} (hc : c = '/' ∨ c = '*') :
    (s.written [.char '/', .char c]).length + (([.char '/', .char c] : List Piece).foldl State.next
      s).held.length <
      s.held.length + 2 := by
  obtain ⟨mode, owed⟩ := s
  rcases hc with rfl | rfl <;> cases mode with
  | blockComment last =>
    by_cases he : last = '*' <;>
      simp [State.written, State.write, State.next, writeCode, State.nextCode, State.held, he]
  | _ => simp [State.written, State.write, State.next, writeCode, State.nextCode, State.held]

end Clean

def OpensComment (cs : List Char) : Prop :=
  "//".toList <:+: cs ∨ "/*".toList <:+: cs

def EndsOpener (cs : List Char) : Prop :=
  cs.head? = some '/' ∨ cs.head? = some '*'

variable {cs : List Char}

lemma opensComment_cons (c : Char) :
    OpensComment (c :: cs) ↔ c = '/' ∧ EndsOpener cs ∨ OpensComment cs := by
  have hpair : ∀ d, ['/', d] <+: c :: cs ↔ c = '/' ∧ cs.head? = some d := by
    intro d
    cases cs <;> simp [eq_comm]
  have hline : "//".toList = ['/', '/'] := by decide
  have hblock : "/*".toList = ['/', '*'] := by decide
  rw [OpensComment, OpensComment, hline, hblock, List.infix_cons_iff, List.infix_cons_iff, hpair,
    hpair, EndsOpener]
  tauto

lemma opensComment_append (ds : List Char) : OpensComment (cs ++ ds) ↔
    OpensComment cs ∨ (cs.getLast? = some '/' ∧ EndsOpener ds) ∨ OpensComment ds := by
  have hnil : ¬ OpensComment [] := by simp [OpensComment]
  induction cs with
  | nil => simp [hnil]
  | cons c cs ih =>
    cases cs with
    | nil => simp [opensComment_cons, hnil, EndsOpener]
    | cons d cs =>
      have hends : EndsOpener (d :: cs ++ ds) ↔ EndsOpener (d :: cs) := Iff.rfl
      rw [List.cons_append, opensComment_cons, opensComment_cons c, hends, List.getLast?_cons_cons]
      tauto

lemma not_opensComment_of_notMem (h : '/' ∉ cs) : ¬ OpensComment cs := by
  rintro (hi | hi)
  · exact h (hi.mem (by decide))
  · exact h (hi.mem (by decide))

lemma OpensComment.exists_append (h : OpensComment cs) :
    ∃ as c bs, (c = '/' ∨ c = '*') ∧ cs = as ++ (['/', c] ++ bs) := by
  rcases h with ⟨as, bs, rfl⟩ | ⟨as, bs, rfl⟩
  · exact ⟨as, '/', bs, .inl rfl, List.append_assoc _ _ _⟩
  · exact ⟨as, '*', bs, .inr rfl, List.append_assoc _ _ _⟩

lemma length_written_lt (hn : '\n' ∉ cs) (h : OpensComment cs) :
    (Clean.State.written .start (cs.map .char)).length < cs.length := by
  obtain ⟨as, c, bs, hc, rfl⟩ := h.exists_append
  obtain ⟨has, -, hbs⟩ : '\n' ∉ as ∧ '\n' ∉ ['/', c] ∧ '\n' ∉ bs := by
    simpa only [List.mem_append, not_or] using hn
  -- what is lost at the opener is made up for neither before it nor behind it
  have hfront := Clean.length_written_le .start has
  have hopener :=
    Clean.length_written_opener_lt ((as.map Piece.char).foldl Clean.State.next .start) hc
  have hback := Clean.length_written_le
    ((['/', c].map Piece.char).foldl Clean.State.next ((as.map Piece.char).foldl Clean.State.next
      .start)) hbs
  have hstart : Clean.State.held .start = [] := rfl
  simp only [List.map_append, Clean.written_append, List.length_append, List.length_cons,
    List.length_nil, hstart, List.map_cons, List.map_nil] at hfront hopener hback ⊢
  omega

lemma uncommented_of_notMem (hn : '\n' ∉ cs) (h : ¬ OpensComment cs) : Uncommented cs := by
  obtain ⟨hline, hblock⟩ := not_or.mp h
  exact ⟨hline, hblock, fun hi => hn (hi.mem (by decide)), fun hi => hn (hi.mem (by decide))⟩

def cleanQuoted (cs : List Char) : List Char :=
  Clean.State.written .start ((cs ++ ['"']).map .char)

lemma pieces_quoted (hn : '\n' ∉ cs) (ds : List Char) :
    pieces (cs ++ '"' :: ds) = (cs ++ ['"']).map .char ++ pieces ds := by
  induction cs with
  | nil => rfl
  | cons c cs ih =>
    obtain ⟨-, hcs⟩ : '\n' ≠ c ∧ '\n' ∉ cs := by simpa using hn
    rw [List.cons_append, pieces, ih hcs]
    · rfl
    · rintro es - he
      rcases cs with _ | ⟨d, cs⟩
      · cases he
      · exact hcs (by simp [(List.cons.inj he).1])
    · rintro es - he
      rcases cs with _ | ⟨d, _ | ⟨e, cs⟩⟩
      · cases he
      · cases (List.cons.inj (List.cons.inj he).2).1
      · exact hcs (by simp [(List.cons.inj (List.cons.inj he).2).1])

lemma held_next_quote (s : Clean.State) : (s.next (.char '"')).held = [] := by
  obtain ⟨mode, owed⟩ := s
  cases mode with
  | blockComment last => simp [Clean.State.next, Clean.State.held]
  | _ => rfl

lemma held_quoted (cs : List Char) :
    (((cs ++ ['"']).map Piece.char).foldl Clean.State.next .start).held = [] := by
  rw [List.map_append, List.foldl_append]
  exact held_next_quote _

lemma owed_of_notMem (hn : '\n' ∉ cs) :
    '\n' ∉ Clean.State.written .start (cs.map .char) ∧
    ((cs.map Piece.char).foldl Clean.State.next .start).owed = 0 := by
  have hcount := Clean.count_written .start (cs.map .char)
  have hheight : ((cs.map Piece.char).map Piece.height).sum = 0 := by
    apply List.sum_eq_zero
    simp only [List.map_map, List.mem_map, forall_exists_index, and_imp]
    rintro x c hc rfl
    exact if_neg (ne_of_mem_of_not_mem hc hn)
  have hstart : Clean.State.owed .start = 0 := rfl
  rw [hheight, hstart] at hcount
  exact ⟨List.count_eq_zero.mp (by omega), by omega⟩

lemma notMem_quoted (hn : '\n' ∉ cs) : '\n' ∉ cs ++ ['"'] := by
  simpa using hn

lemma finish_of_held {s : Clean.State} (hheld : s.held = []) (howed : s.owed = 0) :
    s.finish = [] := by
  obtain ⟨mode, owed⟩ := s
  obtain rfl : owed = 0 := howed
  cases mode with
  | slash => cases hheld
  | _ => rfl

lemma opensComment_quoted : OpensComment (cs ++ ['"']) ↔ OpensComment cs := by
  have hquote : ¬ OpensComment ['"'] := not_opensComment_of_notMem (by decide)
  rw [opensComment_append]
  simp [EndsOpener, hquote]

theorem cleanQuoted_of_not_opensComment (hn : '\n' ∉ cs) (h : ¬ OpensComment cs) :
    cleanQuoted cs = cs ++ ['"'] := by
  have hplain := uncommented_of_notMem (notMem_quoted hn) (mt opensComment_quoted.mp h)
  have hrun := hplain.run_eq.1
  rwa [Clean.run_eq, finish_of_held (held_quoted cs) (owed_of_notMem (notMem_quoted hn)).2,
    List.append_nil] at hrun

theorem length_cleanQuoted_lt (hn : '\n' ∉ cs) (h : OpensComment cs) :
    (cleanQuoted cs).length < cs.length + 1 := by
  have hlt := length_written_lt (notMem_quoted hn) (opensComment_quoted.mpr h)
  rwa [List.length_append] at hlt

/-- A new line begins behind the text: its last one does not go on, and no comment is open. -/
structure AtLineStart (cs : List Char) : Prop where
  closed : IsClosed cs
  ends : (pieces cs).foldl Clean.State.next .start = .start

lemma Contained.atLineStart {row : List Char} (h : Contained row) : AtLineStart (row ++ ['\n']) :=
  ⟨isClosed_append_singleton, h.ends⟩

lemma AtLineStart.run_append (h : AtLineStart cs) (ds : List Char) :
    Clean.run .start (pieces (cs ++ ds)) =
      Clean.run .start (pieces cs) ++ Clean.run .start (pieces ds) := by
  have hfinish : Clean.State.finish .start = [] := rfl
  rw [pieces_append_of_isClosed h.closed, Clean.run_append, Clean.run_eq .start (pieces cs),
    h.ends, hfinish, List.append_nil]

def IsBehindLine (cs : List Char) : Prop :=
  ∀ c, cs.head? = some c → c = '\n'

lemma isBehindLine_run {s : Clean.State} (hheld : s.held = []) (howed : s.owed = 0)
    (h : IsBehindLine cs) : IsBehindLine (Clean.run s (pieces cs)) := by
  cases cs with
  | nil =>
    have hfinish : Clean.run s (pieces []) = [] := finish_of_held hheld howed
    rw [hfinish]
    nofun
  | cons c cs =>
    obtain rfl := h c rfl
    have hrun : Clean.run s (pieces ('\n' :: cs)) =
        s.write (.char '\n') ++ Clean.run (s.next (.char '\n')) (pieces cs) := rfl
    have hwrite : ∃ ds, s.write (.char '\n') = '\n' :: ds := by
      obtain ⟨mode, owed⟩ := s
      cases mode with
      | slash => cases hheld
      | _ => exact ⟨_, rfl⟩
    obtain ⟨ds, hds⟩ := hwrite
    rw [hrun, hds]
    rintro c ⟨⟩
    rfl

lemma bareLines_row {row : List Char} (hn : '\n' ∉ row) (hne : row ≠ []) (h : IsBehindLine cs) :
    ∃ rows, bareLines (row ++ cs) = row :: rows := by
  cases cs with
  | nil => exact ⟨[], by rw [List.append_nil, bareLines_of_notMem hn hne]⟩
  | cons c cs =>
    obtain rfl := h c rfl
    exact ⟨bareLines cs, bareLines_line hn cs⟩

lemma exists_lines_clean {before after : String} {row out : List Char} {s : Clean.State}
    (hbefore : AtLineStart before.toList) (hafter : IsBehindLine after.toList)
    (hrow : Clean.run .start (pieces (row ++ after.toList)) =
      out ++ Clean.run s (pieces after.toList))
    (hheld : s.held = []) (howed : s.owed = 0) (hn : '\n' ∉ out) (hne : out ≠ []) :
    ∃ ss, lines (clean (before ++ .ofList row ++ after)) =
      lines (clean before) ++ .ofList out :: ss := by
  obtain ⟨rows, hrows⟩ := bareLines_row hn hne (isBehindLine_run hheld howed hafter)
  have hclosed : IsClosed (Clean.run .start (pieces before.toList)) := by
    simpa [clean] using isClosed_clean hbefore.closed
  have hsource :
      (before ++ .ofList row ++ after).toList = before.toList ++ (row ++ after.toList) := by
    simp
  refine ⟨rows.map .ofList, ?_⟩
  rw [lines, lines, clean, clean, String.toList_ofList, String.toList_ofList, hsource,
    hbefore.run_append, hrow, ← unlines_bareLines hclosed, bareLines_unlines_append fun l =>
      newline_notMem_bareLines, hrows,
    bareLines_unlines fun l => newline_notMem_bareLines, List.map_append, List.map_cons]

theorem lines_clean_quoted {before after : String} {front path : List Char}
    (hbefore : AtLineStart before.toList) (hplain : ∀ c ∈ front, IsPlain c) (hfront : '\n' ∉ front)
    (hne : front ≠ []) (hpath : '\n' ∉ path) (hafter : IsBehindLine after.toList) :
    ∃ ss, lines (clean (before ++ .ofList (front ++ (path ++ ['"'])) ++ after)) =
      lines (clean before) ++ .ofList (front ++ cleanQuoted path) :: ss := by
  obtain ⟨hwritten, hfold⟩ := written_plain hplain
  obtain ⟨hn, howed⟩ : '\n' ∉ cleanQuoted path ∧ _ := owed_of_notMem (notMem_quoted hpath)
  have hrow : Clean.run .start (pieces (front ++ (path ++ ['"']) ++ after.toList)) =
      front ++ cleanQuoted path ++
      Clean.run (((path ++ ['"']).map Piece.char).foldl Clean.State.next .start)
        (pieces after.toList) := by
    rw [List.append_assoc, List.append_assoc, List.singleton_append, pieces_plain_append hplain,
      pieces_quoted hpath, Clean.run_append, hwritten, hfold, Clean.run_append, List.append_assoc,
      cleanQuoted]
  have hnone : '\n' ∉ front ++ cleanQuoted path := by
    simpa [hfront] using hn
  exact exists_lines_clean hbefore hafter hrow (held_quoted path) howed hnone
    (List.append_ne_nil_of_left_ne_nil hne _)

lemma lines_clean_plain {before after : String} {row : List Char}
    (hbefore : AtLineStart before.toList) (hplain : ∀ c ∈ row, IsPlain c) (hn : '\n' ∉ row)
    (hne : row ≠ []) (hafter : IsBehindLine after.toList) :
    ∃ ss, lines (clean (before ++ .ofList row ++ after)) =
      lines (clean before) ++ .ofList row :: ss := by
  obtain ⟨hwritten, hfold⟩ := written_plain hplain
  have hrow : Clean.run .start (pieces (row ++ after.toList)) =
      row ++ Clean.run .start (pieces after.toList) := by
    rw [pieces_plain_append hplain, Clean.run_append, hwritten, hfold]
  exact exists_lines_clean hbefore hafter hrow rfl rfl hn hne

lemma isPlain_of_isBlank {c : Char} (h : isBlank c = true) : IsPlain c := by
  constructor
  · rintro rfl
    cases h
  · rintro rfl
    cases h

lemma atLineStart_of_plain {s : String} (hplain : ∀ c ∈ s.toList, IsPlain c)
    (hclosed : IsClosed s.toList) : AtLineStart s.toList ∧ clean s = s := by
  obtain ⟨hwritten, hfold⟩ := written_plain hplain
  have hpieces : pieces s.toList = s.toList.map .char := by
    simpa [pieces] using pieces_plain_append hplain []
  refine ⟨⟨hclosed, by rw [hpieces, hfold]⟩, ?_⟩
  rw [clean, hpieces, Clean.run_eq, hwritten, hfold, show Clean.State.finish .start = [] from rfl,
    List.append_nil, String.ofList_toList]

end ShaderPipeline.Text
