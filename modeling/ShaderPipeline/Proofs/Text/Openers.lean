import ShaderPipeline.Proofs.Text.Comments

/-! A comment is looked for before the lines are joined, so that one whose first two characters
stand on both sides of a splice is left. -/

namespace ShaderPipeline.Text

namespace Clean

inductive FinishesOpener : List Piece → Prop
  | splice {ps : List Piece} : FinishesOpener ps → FinishesOpener (.splice :: ps)
  | star {ps : List Piece} : FinishesOpener (.char '*' :: ps)
  | slash {ps : List Piece} :
      (∀ c, ps.head? = some (.char c) → c ≠ '/' ∧ c ≠ '*') → FinishesOpener (.char '/' :: ps)

/-- A slash that may open a comment is followed by a splice, and what follows would end the
opener. -/
def SplitOpener (s : State) (ps : List Piece) : Prop :=
  ∃ front rest, ps = front ++ .splice :: rest ∧ (front.foldl State.next s).mode = .slash ∧
    FinishesOpener rest

variable {s : State} {p : Piece} {ps : List Piece}

lemma splitOpener_cons : SplitOpener s (p :: ps) ↔
    (s.mode = .slash ∧ p = .splice) ∧ FinishesOpener ps ∨ SplitOpener (s.next p) ps := by
  constructor
  · rintro ⟨front, rest, h, hslash, hrest⟩
    cases front with
    | nil =>
      obtain ⟨rfl, rfl⟩ := List.cons.inj h
      exact .inl ⟨⟨hslash, rfl⟩, hrest⟩
    | cons q front =>
      obtain ⟨rfl, rfl⟩ := List.cons.inj h
      exact .inr ⟨front, rest, rfl, hslash, hrest⟩
  · rintro (⟨⟨hslash, rfl⟩, hps⟩ | ⟨front, rest, rfl, hslash, hrest⟩)
    · exact ⟨[], ps, rfl, hslash, hps⟩
    · exact ⟨p :: front, rest, rfl, hslash, hrest⟩

lemma not_endsOpener_newlines (n : Nat) : ¬ EndsOpener (newlines n) := by
  cases n <;> simp [EndsOpener, newlines, List.replicate_succ]

lemma slash_notMem_newlines (n : Nat) : '/' ∉ newlines n := by
  simp [newlines]

lemma writeCode_cases (owed : Nat) (p : Piece) :
    (p = .splice ∨ p = .char '/') ∧ writeCode owed p = [] ∨
      (∃ c ds, c ≠ '/' ∧ '/' ∉ ds ∧ p = .char c ∧ writeCode owed p = c :: ds) := by
  rcases p with c | _
  · by_cases hs : c = '/'
    · subst hs
      exact .inl ⟨.inr rfl, rfl⟩
    by_cases hn : c = '\n'
    · subst hn
      exact .inr ⟨'\n', newlines owed, by decide, slash_notMem_newlines owed, rfl, rfl⟩
    · exact .inr ⟨c, [], hs, List.not_mem_nil, rfl, by simp [writeCode]⟩
  · exact .inl ⟨.inl rfl, rfl⟩

lemma slash_notMem_writeCode (owed : Nat) (p : Piece) : '/' ∉ writeCode owed p := by
  rcases writeCode_cases owed p with ⟨-, h⟩ | ⟨c, ds, hc, hds, -, h⟩
  · rw [h]
    exact List.not_mem_nil
  · rw [h, List.mem_cons, not_or]
    exact ⟨hc.symm, hds⟩

lemma writeCode_ne_nil (owed : Nat) {c : Char} (hs : c ≠ '/') : writeCode owed (.char c) ≠ [] := by
  rcases writeCode_cases owed (.char c) with ⟨hp, -⟩ | ⟨d, ds, -, -, -, h⟩
  · simp [hs] at hp
  · rw [h]
    exact List.cons_ne_nil d ds

lemma endsOpener_writeCode (owed : Nat) : EndsOpener (writeCode owed p) ↔ p = .char '*' := by
  rcases writeCode_cases owed p with ⟨rfl | rfl, h⟩ | ⟨c, ds, hc, -, rfl, h⟩
  · simp [h, EndsOpener]
  · simp [h, EndsOpener]
  · simp [h, EndsOpener, hc]

lemma write_of_slash (owed : Nat) (hs : p ≠ .char '/') (hb : p ≠ .char '*') :
    State.write ⟨.slash, owed⟩ p = '/' :: writeCode owed p := by
  rcases p with c | _
  · simp_all [State.write]
  · rfl

lemma write_cases (s : State) (p : Piece) :
    '/' ∉ s.write p ∨ s.mode = .slash ∧ p ≠ .char '/' ∧ p ≠ .char '*' := by
  obtain ⟨mode, owed⟩ := s
  cases mode with
  | code => exact .inl (slash_notMem_writeCode owed p)
  | slash =>
    by_cases hs : p = .char '/'
    · subst hs
      exact .inl (by simp [State.write])
    by_cases hb : p = .char '*'
    · subst hb
      exact .inl (by simp [State.write])
    · exact .inr ⟨rfl, hs, hb⟩
  | lineComment =>
    left
    simp only [State.write]
    split <;> simp [slash_notMem_newlines]
  | blockComment last =>
    left
    simp only [State.write]
    split <;> simp

lemma opensComment_write_append (s : State) (p : Piece) (cs : List Char) :
    OpensComment (s.write p ++ cs) ↔
    (s.mode = .slash ∧ p = .splice) ∧ EndsOpener cs ∨ OpensComment cs := by
  rw [opensComment_append]
  rcases write_cases s p with hnone | ⟨hslash, hs, hb⟩
  · have hlast : (s.write p).getLast? ≠ some '/' := fun h => hnone (List.mem_of_getLast? h)
    have hnot : ¬ (s.mode = .slash ∧ p = .splice) := by
      rintro ⟨hslash, rfl⟩
      obtain ⟨mode, owed⟩ := s
      obtain rfl : mode = .slash := hslash
      exact hnone (.head _)
    simp [not_opensComment_of_notMem hnone, hlast, hnot]
  · obtain ⟨mode, owed⟩ := s
    obtain rfl : mode = .slash := hslash
    have hcode := slash_notMem_writeCode owed p
    have hopens : ¬ OpensComment ('/' :: writeCode owed p) := by
      rw [opensComment_cons, endsOpener_writeCode]
      simp [hb, not_opensComment_of_notMem hcode]
    have hlast : ('/' :: writeCode owed p).getLast? = some '/' ↔ p = .splice := by
      rcases p with c | _
      · refine iff_of_false (fun h => hcode ?_) nofun
        have hne : writeCode owed (.char c) ≠ [] := writeCode_ne_nil owed (by simpa using hs)
        rw [List.getLast?_cons_of_ne_nil hne] at h
        exact List.mem_of_getLast? h
      · exact iff_of_true rfl rfl
    rw [write_of_slash owed hs hb, hlast]
    simp [hopens]

lemma endsOpener_run_slash (owed : Nat) : EndsOpener (run ⟨.slash, owed⟩ ps) ↔
    ∀ c, ps.head? = some (.char c) → c ≠ '/' ∧ c ≠ '*' := by
  rcases ps with _ | ⟨p, ps⟩
  · simp [run, State.finish, EndsOpener]
  · by_cases hs : p = .char '/'
    · subst hs
      simp [run, State.write, EndsOpener]
    by_cases hb : p = .char '*'
    · subst hb
      simp [run, State.write, EndsOpener]
    · rw [run, write_of_slash owed hs hb]
      refine iff_of_true (.inl rfl) fun c hc => ?_
      obtain rfl := Option.some.inj hc
      simpa using And.intro hs hb

lemma endsOpener_run_code (owed : Nat) : EndsOpener (run ⟨.code, owed⟩ ps) ↔ FinishesOpener ps := by
  induction ps generalizing owed with
  | nil => exact iff_of_false (not_endsOpener_newlines owed) nofun
  | cons p ps ih =>
    rcases p with c | _
    · by_cases hs : c = '/'
      · subst hs
        have hrun : run ⟨.code, owed⟩ (.char '/' :: ps) = run ⟨.slash, owed⟩ ps := rfl
        rw [hrun, endsOpener_run_slash]
        constructor
        · exact .slash
        · intro h
          cases h with
          | slash h => exact h
      · have hhead : EndsOpener (run ⟨.code, owed⟩ (.char c :: ps)) ↔
            EndsOpener (writeCode owed (.char c)) := by
          have hwrite : State.write ⟨.code, owed⟩ (.char c) = writeCode owed (.char c) := rfl
          rw [EndsOpener, run, hwrite, List.head?_append_of_ne_nil _ (writeCode_ne_nil owed hs),
            EndsOpener]
        rw [hhead, endsOpener_writeCode]
        constructor
        · rintro ⟨⟩
          exact .star
        · intro h
          cases h with
          | star => rfl
          | slash => exact (hs rfl).elim
    · have hrun : run ⟨.code, owed⟩ (.splice :: ps) = run ⟨.code, owed + 1⟩ ps := rfl
      rw [hrun, ih]
      constructor
      · exact .splice
      · intro h
        cases h with
        | splice h => exact h

theorem opensComment_run (s : State) (ps : List Piece) :
    OpensComment (run s ps) ↔ SplitOpener s ps := by
  induction ps generalizing s with
  | nil =>
    have hnil : ¬ OpensComment (newlines s.owed) :=
      not_opensComment_of_notMem (slash_notMem_newlines _)
    have hfinish : ¬ OpensComment s.finish := by
      obtain ⟨mode, owed⟩ := s
      cases mode with
      | slash =>
        simp [State.finish, opensComment_cons, not_endsOpener_newlines, hnil]
      | _ => exact hnil
    refine iff_of_false hfinish ?_
    rintro ⟨front, rest, h, -⟩
    simp at h
  | cons p ps ih =>
    have hends :
        s.mode = .slash ∧ p = .splice → (EndsOpener (run (s.next p) ps) ↔ FinishesOpener ps) := by
      rintro ⟨hslash, rfl⟩
      obtain ⟨mode, owed⟩ := s
      obtain rfl : mode = .slash := hslash
      exact endsOpener_run_code (owed + 1)
    rw [run, opensComment_write_append, splitOpener_cons, ih, and_congr_right hends]

end Clean

theorem opensComment_clean_iff (s : String) :
    OpensComment (clean s).toList ↔ Clean.SplitOpener .start (pieces s.toList) := by
  rw [clean, String.toList_ofList, Clean.opensComment_run]

theorem comment_left_by_splice :
    clean "a/\\\n/b\n" = "a//b\n\n" ∧ OpensComment (clean "a/\\\n/b\n").toList := by
  have hclean : clean "a/\\\n/b\n" = "a//b\n\n" := by decide
  refine ⟨hclean, .inl ?_⟩
  rw [hclean]
  decide

end ShaderPipeline.Text
