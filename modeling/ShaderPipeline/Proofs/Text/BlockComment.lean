import ShaderPipeline.Proofs.Text.Clean

/-! What stands behind a block comment stays on its line, unless a splice comes before it in the
same logical line. -/

namespace ShaderPipeline.Text

namespace Clean

namespace State

def behind (cs : List Char) : State :=
  (pieces cs).foldl next .start

def inBlock (s : State) : Bool :=
  match s.mode with
  | .blockComment _ => true
  | _ => false

variable {s : State}

lemma owed_next_splice (h : s.inBlock = false) : (s.next .splice).owed = s.owed + 1 := by
  obtain ⟨mode, owed⟩ := s
  cases mode with
  | blockComment last => cases h
  | _ => rfl

lemma next_newline (h : s.inBlock = false) : s.next (.char '\n') = .start := by
  obtain ⟨mode, owed⟩ := s
  cases mode with
  | blockComment last => cases h
  | _ => rfl

lemma owed_next_inBlock (h : s.inBlock = true) (p : Piece) : (s.next p).owed = s.owed := by
  obtain ⟨mode, owed⟩ := s
  cases mode with
  | blockComment last =>
    rcases p with c | _
    · by_cases he : last = '*' ∧ c = '/' <;> simp [next, he]
    · rfl
  | _ => cases h

lemma owed_nextCode_char (owed : Nat) {c : Char} (hc : c ≠ '\n') :
    (nextCode owed (.char c)).owed = owed := by
  by_cases hs : c = '/'
  · subst hs
    rfl
  · simp [nextCode]

lemma owed_next_char (s : State) {c : Char} (hc : c ≠ '\n') : (s.next (.char c)).owed = s.owed := by
  obtain ⟨mode, owed⟩ := s
  have hcode := owed_nextCode_char owed hc
  cases mode with
  | code => exact hcode
  | slash =>
    by_cases hs : c = '/'
    · subst hs
      rfl
    by_cases hb : c = '*'
    · subst hb
      rfl
    · simpa [next, hs, hb] using hcode
  | lineComment => simp [next]
  | blockComment last => exact owed_next_inBlock rfl _

end State

end Clean

open Clean (State)

def Unended (ps : List Piece) : Prop :=
  ∃ as bs, ps = as ++ .splice :: bs ∧ (as.foldl State.next .start).inBlock = false ∧
    ∀ front rest, bs = front ++ .char '\n' :: rest →
      ((as ++ .splice :: front).foldl State.next .start).inBlock = true

variable {ps : List Piece} {p : Piece}

lemma unended_concat :
    Unended (ps ++ [p]) ↔ p = .splice ∧ (ps.foldl State.next .start).inBlock = false ∨
    Unended ps ∧ (p = .char '\n' → (ps.foldl State.next .start).inBlock = true) := by
  constructor
  · rintro ⟨as, bs, h, has, hbs⟩
    rcases List.eq_nil_or_concat' bs with rfl | ⟨bs, b, rfl⟩
    · obtain ⟨rfl, hp⟩ := List.append_inj' h rfl
      exact .inl ⟨List.singleton_inj.mp hp, has⟩
    · rw [← List.cons_append, ← List.append_assoc] at h
      obtain ⟨rfl, hp⟩ := List.append_inj' h rfl
      obtain rfl : p = b := List.singleton_inj.mp hp
      refine .inr ⟨⟨as, bs, rfl, has, fun front rest hfront => ?_⟩, fun hp =>
        hbs bs [] (by rw [hp])⟩
      exact hbs front (rest ++ [p]) (by rw [hfront, List.append_assoc, List.cons_append])
  · rintro (⟨rfl, hps⟩ | ⟨⟨as, bs, rfl, has, hbs⟩, hp⟩)
    · exact ⟨ps, [], rfl, hps, fun front rest h => by simp at h⟩
    · refine ⟨as, bs ++ [p], by rw [List.append_assoc, List.cons_append], has,
        fun front rest h => ?_⟩
      rcases List.eq_nil_or_concat' rest with rfl | ⟨rest, b, rfl⟩
      · obtain ⟨rfl, hlast⟩ := List.append_inj' h rfl
        exact hp (List.singleton_inj.mp hlast)
      · rw [← List.cons_append, ← List.append_assoc] at h
        exact hbs front rest (List.append_inj' h rfl).1

lemma owed_concat : 0 < ((ps ++ [p]).foldl State.next .start).owed ↔
    p = .splice ∧ (ps.foldl State.next .start).inBlock = false ∨
      0 < (ps.foldl State.next .start).owed ∧
      (p = .char '\n' → (ps.foldl State.next .start).inBlock = true) := by
  rw [List.foldl_append, List.foldl_cons, List.foldl_nil]
  generalize ps.foldl State.next .start = s
  cases hs : s.inBlock with
  | true => simp [State.owed_next_inBlock hs]
  | false =>
    rcases p with c | _
    · by_cases hc : c = '\n'
      · subst hc
        simp [State.next_newline hs, State.start]
      · simp [State.owed_next_char s hc, hc]
    · simp [State.owed_next_splice hs]

lemma unended_iff (ps : List Piece) : Unended ps ↔ 0 < (ps.foldl State.next .start).owed := by
  induction ps using List.reverseRecOn with
  | nil =>
    constructor
    · rintro ⟨as, bs, h, -⟩
      simp at h
    · exact fun h => (Nat.lt_irrefl 0 h).elim
  | append_singleton ps p ih => rw [unended_concat, owed_concat, ih]

lemma pieces_append_cons {d : Char} (hn : d ≠ '\n') (hr : d ≠ '\r') (cs ds : List Char) :
    pieces (cs ++ d :: ds) = pieces cs ++ pieces (d :: ds) := by
  refine pieces_append fun as bs _ hbs hne hne' => ?_
  obtain ⟨es, rfl⟩ : ∃ es, bs = d :: es := by
    rcases bs with _ | ⟨b, bs⟩
    · exact (hne' rfl).elim
    · exact ⟨bs, by rw [(List.cons_prefix_cons.mp hbs).1]⟩
  rcases as with _ | ⟨a, _ | ⟨b, as⟩⟩
  · exact (hne rfl).elim
  · simp [hn, hr]
  · rcases as with _ | ⟨c, as⟩ <;> simp [hn]

variable {cs : List Char} {last : Char} {owed : Nat}

lemma exists_foldl_block (owed : Nat) (h : ¬ "*/".toList <:+: last :: cs) :
    ∃ last', (pieces cs).foldl State.next ⟨.blockComment last, owed⟩ =
      ⟨.blockComment last', owed⟩ := by
  fun_induction pieces cs generalizing last with
  | case1 cs ih =>
    exact ih fun hi => h (hi.trans (List.suffix_append [last, '\\'] _).isInfix)
  | case2 cs ih =>
    exact ih fun hi => h (hi.trans (List.suffix_append [last, '\\', '\r'] _).isInfix)
  | case3 c cs h₁ h₂ ih =>
    have hnext : State.next ⟨.blockComment last, owed⟩ (.char c) = ⟨.blockComment c, owed⟩ := by
      refine if_neg ?_
      rintro ⟨rfl, rfl⟩
      exact h (List.prefix_append _ cs).isInfix
    rw [List.foldl_cons, hnext]
    exact ih fun hi => h (hi.trans (List.suffix_cons last _).isInfix)
  | case4 => exact ⟨last, rfl⟩

lemma pieces_cons {c : Char} (h : c ≠ '\\') (cs : List Char) :
    pieces (c :: cs) = .char c :: pieces cs :=
  pieces.eq_3 c cs (fun _ hc => (h hc).elim) fun _ hc => (h hc).elim

def comment (body : String) : String := "/*" ++ body ++ "*/"

lemma pieces_append_comment (cs : List Char) (body : String) (ds : List Char) :
    pieces (cs ++ (comment body).toList ++ ds) =
      pieces cs ++ (.char '/' :: .char '*' :: (pieces body.toList ++ [.char '*', .char '/'])) ++
        pieces ds := by
  have hcomment : (comment body).toList = '/' :: '*' :: (body.toList ++ ['*', '/']) := by
    simp [comment]
  rw [hcomment, List.append_assoc, List.cons_append, pieces_append_cons (by decide) (by decide),
    List.cons_append, pieces_cons (by decide), pieces_cons (by decide), List.append_assoc,
    List.cons_append, List.cons_append,
    pieces_append_cons (by decide) (by decide), List.nil_append, pieces_cons (by decide),
    pieces_cons (by decide)]
  simp

lemma pieces_comment (cs : List Char) (body : String) : pieces (cs ++ (comment body).toList) =
    pieces cs ++ (.char '/' :: .char '*' :: (pieces body.toList ++ [.char '*', .char '/'])) := by
  simpa [pieces] using pieces_append_comment cs body []

lemma behind_comment {cs : List Char} (hcode : (State.behind cs).mode = .code) {body : String}
    (hend : ¬ "*/".toList <:+: body.toList) :
    State.behind (cs ++ (comment body).toList) = State.behind cs := by
  rw [State.behind, pieces_comment, List.foldl_append, List.foldl_cons, List.foldl_cons,
    List.foldl_append, ← State.behind]
  generalize State.behind cs = s at hcode
  obtain ⟨mode, owed⟩ := s
  obtain rfl : mode = .code := hcode
  have hopen : ¬ "*/".toList <:+: '\x00' :: body.toList := by
    rw [List.infix_cons_iff, not_or]
    exact ⟨fun hp => absurd (List.cons_prefix_cons.mp hp).1 (by decide), hend⟩
  obtain ⟨last, hlast⟩ := exists_foldl_block owed hopen
  have hentered : State.next (State.next ⟨.code, owed⟩ (.char '/')) (.char '*') =
      ⟨.blockComment '\x00', owed⟩ := rfl
  rw [hentered, hlast, List.foldl_cons, List.foldl_cons, List.foldl_nil]
  simp [State.next]

lemma write_char_of_code {s : State} (hs : s.mode = .code) {x : Char} (hn : x ≠ '\n')
    (hx : x ≠ '/') : s.write (.char x) = [x] := by
  obtain ⟨mode, owed⟩ := s
  obtain rfl : mode = .code := hs
  simp [State.write, Clean.writeCode]

/-- Behind a comment the output is as many lines short as splices are not made up for. It is on its
line if and only if the logical line in which the comment begins has none. -/
theorem line_behind_comment {before body : String}
    (hcode : (State.behind before.toList).mode = .code) (hend : ¬ "*/".toList <:+: body.toList)
    {x : Char} (hx : x ≠ '\n' ∧ x ≠ '\\' ∧ x ≠ '/') (after : String) :
    let front := before ++ comment body
    let written := State.written .start (pieces front.toList)
    (∃ rest, (clean (front ++ .singleton x ++ after)).toList = written ++ x :: rest) ∧
      written.count '\n' + (State.behind before.toList).owed = front.toList.count '\n' ∧
      (written.count '\n' = front.toList.count '\n' ↔ ¬ Unended (pieces before.toList)) := by
  intro front written
  obtain ⟨hn, hb, hs⟩ := hx
  have hfront : front.toList = before.toList ++ (comment body).toList := String.toList_append ..
  have hbehind : State.behind front.toList = State.behind before.toList := by
    rw [hfront, behind_comment hcode hend]
  have hcount :
      written.count '\n' + (State.behind before.toList).owed = front.toList.count '\n' := by
    rw [← hbehind, State.behind, Clean.count_written, sum_height_pieces]
    exact Nat.zero_add _
  refine ⟨⟨Clean.run ((State.behind front.toList).next (.char x)) (pieces after.toList), ?_⟩,
    hcount, ?_⟩
  · have hpieces : pieces (front ++ .singleton x ++ after).toList =
        pieces front.toList ++ .char x :: pieces after.toList := by
      rw [String.toList_append, String.toList_append, String.toList_singleton, List.append_assoc,
        List.singleton_append, hfront, pieces_append_comment, pieces_comment, pieces_cons hb]
    rw [clean, String.toList_ofList, hpieces, Clean.run_append, ← State.behind, Clean.run,
      write_char_of_code (hbehind ▸ hcode) hn hs, List.singleton_append]
  · rw [unended_iff, ← State.behind]
    omega

theorem line_behind_comment_of_splices :
    let before := "a \\\nb // c \\\r\n d\ne "
    let body := "* f\n/ \\\n*"
    (State.behind before.toList).mode = .code ∧ ¬ "*/".toList <:+: body.toList ∧
      ¬ Unended (pieces before.toList) ∧
      (State.written .start (pieces (before ++ comment body).toList)).count '\n' = 5 := by
  intro before body
  have hcode : (State.behind before.toList).mode = .code := by decide
  have hend : ¬ "*/".toList <:+: body.toList := by decide
  obtain ⟨-, -, hline⟩ := line_behind_comment hcode hend (x := 'g') (by decide) ";\n"
  have hended : ¬ Unended (pieces before.toList) := by
    rw [unended_iff]
    decide
  have hnewlines : (before ++ comment body).toList.count '\n' = 5 := by decide
  exact ⟨hcode, hend, hended, (hline.mpr hended).trans hnewlines⟩

theorem line_lost_behind_comment :
    let before := "a\\\n"
    let body := "\n"
    (State.behind before.toList).mode = .code ∧ ¬ "*/".toList <:+: body.toList ∧
      '\n' ∈ body.toList ∧
      clean (before ++ comment body ++ .singleton 'x' ++ "\n") = "a \nx\n\n" ∧
      (State.written .start (pieces (before ++ comment body).toList)).count '\n' ≠
        (before ++ comment body).toList.count '\n' := by
  decide

end ShaderPipeline.Text
