import ShaderPipeline.Proofs.Stage.Scan

/-! The stage that a text declares, or the faults of its pragmas, told from the stripped lines and
their indices. -/

namespace ShaderPipeline

open Text

lemma Stage.ofName_eq_some_iff {name : String} {s : Stage} :
    Stage.ofName? name = some s ↔ s.name = name := by
  constructor
  · intro h
    simpa using List.find?_some h
  · rintro rfl
    cases s <;> rfl

lemma LineNumber.advance_min (a : Int) :
    LineNumber.advance (min a limit) 1 = min (a + 1) limit := by
  have h : ∀ limit : Int, min (min a limit + 1) limit = min (a + 1) limit := by omega
  exact h limit

namespace StagePragmas

/-- What the text behind a pragma names: what its first parenthesis opens up to the next one that
closes, or else what is left of it without the parentheses at its ends. -/
inductive IsArgument : List Char → List Char → Prop
  | delimited {before inner after : List Char} : '(' ∉ before → ')' ∉ inner →
      IsArgument (before ++ '(' :: (inner ++ ')' :: after)) (stripChars inner)
  | bare {rest opens inner closes : List Char} :
      (∀ before after, '(' ∉ before → rest = before ++ '(' :: after → ')' ∉ after) →
      stripChars rest = opens ++ (inner ++ closes) →
      (∀ c ∈ opens ++ closes, isParenthesis c = true) →
      (∀ c, inner.head? = some c → isParenthesis c = false) →
      (∀ c, inner.getLast? = some c → isParenthesis c = false) → IsArgument rest (stripChars inner)

lemma delimited_eq_some_iff {rest inner : List Char} : delimited? rest = some inner ↔
    ∃ before after, '(' ∉ before ∧ ')' ∉ inner ∧
    rest = before ++ '(' :: (inner ++ ')' :: after) := by
  simp only [delimited?, Option.bind_eq_bind, Option.bind_eq_some_iff, Prod.exists,
    splitAt_eq_some_iff, Option.some.injEq]
  constructor
  · rintro ⟨before, _, ⟨hbefore, rfl⟩, _, after, ⟨hinner, rfl⟩, rfl⟩
    exact ⟨before, after, hbefore, hinner, rfl⟩
  · rintro ⟨before, after, hbefore, hinner, rfl⟩
    exact ⟨before, _, ⟨hbefore, rfl⟩, inner, after, ⟨hinner, rfl⟩, rfl⟩

lemma argument_delimited {before inner : List Char} (hbefore : '(' ∉ before) (hinner : ')' ∉ inner)
    (after : List Char) :
    argument (before ++ '(' :: (inner ++ ')' :: after)) = stripChars inner := by
  rw [argument, delimited_eq_some_iff.mpr ⟨before, after, hbefore, hinner, rfl⟩, Option.getD_some]

lemma delimited_eq_none {rest : List Char}
    (h : ∀ before after, '(' ∉ before → rest = before ++ '(' :: after → ')' ∉ after) :
    delimited? rest = none := by
  rw [Option.eq_none_iff_forall_ne_some]
  intro inner hinner
  obtain ⟨before, after, hbefore, -, hrest⟩ := delimited_eq_some_iff.mp hinner
  exact h before _ hbefore hrest (List.mem_append_right _ List.mem_cons_self)

lemma argument_bare {rest opens inner closes : List Char} (h : delimited? rest = none)
    (hrest : stripChars rest = opens ++ (inner ++ closes))
    (hends : ∀ c ∈ opens ++ closes, isParenthesis c = true)
    (hhead : ∀ c, inner.head? = some c → isParenthesis c = false)
    (hlast : ∀ c, inner.getLast? = some c → isParenthesis c = false) :
    argument rest = stripChars inner := by
  obtain ⟨hopens, hcloses⟩ := List.forall_mem_append.mp hends
  rw [argument, h, Option.getD_none, hrest]
  exact congrArg stripChars (stripped_eq hopens hcloses hhead hlast)

theorem argument_eq_iff {rest name : List Char} : argument rest = name ↔ IsArgument rest name := by
  constructor
  · rintro rfl
    cases h : delimited? rest with
    | some inner =>
      obtain ⟨before, after, hbefore, hinner, rfl⟩ := delimited_eq_some_iff.mp h
      rw [argument_delimited hbefore hinner]
      exact .delimited hbefore hinner
    | none =>
      obtain ⟨opens, inner, closes, hrest, hends, hhead, hlast⟩ :=
        exists_stripped isParenthesis (stripChars rest)
      rw [argument_bare h hrest hends hhead hlast]
      refine .bare (fun before after hbefore hopen hclose => ?_) hrest hends hhead hlast
      obtain ⟨inner, after, rfl, hinner⟩ := List.eq_append_cons_of_mem hclose
      cases h.symm.trans (delimited_eq_some_iff.mpr ⟨before, after, hbefore, hinner, hopen⟩)
  · rintro (⟨hbefore, hinner⟩ | ⟨hnone, hrest, hends, hhead, hlast⟩)
    · exact argument_delimited hbefore hinner _
    · exact argument_bare (delimited_eq_none hnone) hrest hends hhead hlast

def strippedLines (text : String) : List (List Char) :=
  (bareLines text.toList).map stripChars

def lastDirective? (rows : List (List Char)) (i : Nat) : Option (Nat × List Char) :=
  ((rows.take i).zipIdx.filterMap fun x =>
    (afterPrefix? LineNumber.directive.toList x.1).map (x.2, ·)).getLast?

def numberAt (nextLine : Bool) (rows : List (List Char)) (i : Nat) : LineNumber :=
  match lastDirective? rows i with
  | none => min (i + 1) LineNumber.limit
  | some (j, rest) =>
    min (LineNumber.ofChars rest + (if nextLine then 0 else 1) + (i - j - 1)) LineNumber.limit

def located (first : Nat) (rows : List (List Char)) : List (Nat × String) :=
  (rows.zipIdx first).filterMap fun x =>
    (afterPrefix? pragma.toList x.1).map fun rest => (x.2, .ofList (argument rest))

def CodeBefore (rows : List (List Char)) (i : Nat) : Prop :=
  ∃ row ∈ rows.take i, row ≠ [] ∧ row.head? ≠ some '#'

instance (rows : List (List Char)) (i : Nat) : Decidable (CodeBefore rows i) :=
  inferInstanceAs (Decidable (∃ row ∈ rows.take i, row ≠ [] ∧ row.head? ≠ some '#'))

def violations (nextLine : Bool) (rows : List (List Char)) (i : Nat) (name : String)
    (others : List (Nat × String)) : List StageFault :=
  (if CodeBefore rows i then [.afterCode (numberAt nextLine rows i)] else []) ++
  (if name ∈ Stage.all.map Stage.name then []
    else [.invalidStage (numberAt nextLine rows i) name]) ++
  (others.filter (·.2 ≠ name)).map fun p =>
    .conflict (numberAt nextLine rows p.1) p.2 (numberAt nextLine rows i) name

variable {nextLine : Bool} {rows : List (List Char)}

lemma lastDirective_succ {i : Nat} (h : i < rows.length) :
    lastDirective? rows (i + 1) =
      ((afterPrefix? LineNumber.directive.toList rows[i]).map (i, ·)).or
        (lastDirective? rows i) := by
  have hlen : (rows.take i).length = i := List.length_take_of_le h.le
  rw [lastDirective?, List.take_succ_eq_append_getElem h, List.zipIdx_append,
    List.filterMap_append, hlen, List.getLast?_append, Nat.zero_add, List.zipIdx_singleton,
    ← lastDirective?]
  cases h : afterPrefix? LineNumber.directive.toList rows[i] <;>
    simp only [List.filterMap_cons, h] <;> rfl

lemma numberAt_succ {i : Nat} (h : i < rows.length) :
    numberAt nextLine rows (i + 1) = lineAfter nextLine (numberAt nextLine rows i) rows[i] := by
  rw [numberAt, lastDirective_succ h, lineAfter]
  cases afterPrefix? LineNumber.directive.toList rows[i] with
  | some rest =>
    have hnext : ((i + 1 : Nat) : Int) - i - 1 = 0 := by omega
    simp only [Option.map_some, Option.some_or, LineNumber.following, LineNumber.advance, hnext,
      Int.add_zero]
    cases nextLine <;> rfl
  | none =>
    simp only [Option.map_none, Option.none_or, numberAt]
    cases lastDirective? rows i with
    | none =>
      have hnext : ((i + 1 : Nat) : Int) = i + 1 := by omega
      dsimp only
      rw [hnext, LineNumber.advance_min]
    | some p =>
      have hnext : ((i + 1 : Nat) : Int) - p.1 - 1 = i - p.1 - 1 + 1 := by omega
      dsimp only
      rw [hnext, ← Int.add_assoc, LineNumber.advance_min]

lemma located_cons (first : Nat) (row : List Char) :
    located first (row :: rows) =
      ((afterPrefix? pragma.toList row).map fun rest =>
        (first, String.ofList (argument rest))).toList ++
        located (first + 1) rows := by
  rw [located, List.zipIdx_cons, List.filterMap_cons]
  cases afterPrefix? pragma.toList row <;> rfl

lemma listed_eq_located (before : List (List Char)) {rest : List (List Char)}
    (h : before ++ rest = rows) :
    listed nextLine (numberAt nextLine (rows.map stripChars) before.length) rest =
      (located before.length (rest.map stripChars)).map fun p =>
        ⟨numberAt nextLine (rows.map stripChars) p.1, p.2⟩ := by
  induction rest generalizing before with
  | nil => rfl
  | cons row rest ih =>
    have hlen : before.length < (rows.map stripChars).length := by simp [← h]
    have hrow : (rows.map stripChars)[before.length] = stripChars row := by simp [← h]
    have hnext := ih (before ++ [row]) (by simp [← h])
    rw [List.length_append, List.length_singleton, numberAt_succ hlen, hrow] at hnext
    rw [listed, numberAfter, hnext, List.map_cons, located_cons, List.map_append, found?]
    cases afterPrefix? pragma.toList (stripChars row) <;> rfl

lemma pragmas_eq_located (text : String) (nextLine : Bool) :
    (ofText text nextLine).pragmas =
      (located 0 (strippedLines text)).map fun p =>
        ⟨numberAt nextLine (strippedLines text) p.1, p.2⟩ := by
  rw [pragmas_ofText]
  exact listed_eq_located [] rfl

lemma located_eq_nil_iff (first : Nat) :
    located first rows = [] ↔ ∀ row ∈ rows, ¬ pragma.toList <+: row := by
  induction rows generalizing first with
  | nil => simp [located]
  | cons row rows ih =>
    rw [List.forall_mem_cons, ← ih (first + 1), located_cons]
    by_cases h : pragma.toList <+: row
    · obtain ⟨rest, rfl⟩ := h
      simp
    · simp [afterPrefix_eq_none h, h]

lemma mem_located_iff {i : Nat} {name : String} : (i, name) ∈ located 0 rows ↔
    ∃ rest, rows[i]? = some (pragma.toList ++ rest) ∧ IsArgument rest name.toList := by
  have hname : ∀ rest, String.ofList (argument rest) = name ↔ IsArgument rest name.toList := by
    intro rest
    rw [← argument_eq_iff, ← String.toList_inj, String.toList_ofList]
  simp only [located, List.mem_filterMap, Prod.exists, Option.map_eq_some_iff, Prod.mk.injEq, hname,
    afterPrefix_eq_some_iff, List.mem_zipIdx_iff_getElem?]
  constructor
  · rintro ⟨_, _, hrow, rest, rfl, rfl, hrest⟩
    exact ⟨rest, hrow, hrest⟩
  · rintro ⟨rest, hrow, hrest⟩
    exact ⟨_, i, hrow, rest, rfl, rfl, hrest⟩

lemma head_located (raw : List (List Char)) (first : Nat) :
    (located first (raw.map stripChars)).head?.map Prod.fst =
      (raw.findIdx? isPragmaRow).map (first + ·) := by
  induction raw generalizing first with
  | nil => rfl
  | cons row raw ih =>
    rw [List.map_cons, located_cons, List.findIdx?_cons, isPragmaRow]
    cases afterPrefix? pragma.toList (stripChars row) with
    | some rest => simp
    | none => simp [ih, Function.comp_def, Nat.add_assoc, Nat.add_comm 1]

lemma isCodeRow_iff {row : List Char} :
    isCodeRow row = true ↔ stripChars row ≠ [] ∧ (stripChars row).head? ≠ some '#' := by
  have hpragma : isPragmaRow row = true → (stripChars row).head? = some '#' := by
    intro h
    by_contra hc
    have hnone : afterPrefix? pragma.toList (stripChars row) = none := afterPrefix_of_isCode hc
    rw [isPragmaRow, hnone] at h
    cases h
  cases hp : isPragmaRow row <;> simp_all [isCodeRow]

lemma isAfterCode_iff {text : String} {i : Nat}
    (h : (bareLines text.toList).findIdx? isPragmaRow = some i) :
    (ofText text nextLine).isAfterCode = true ↔ CodeBefore (strippedLines text) i := by
  have hcode : CodeBefore (strippedLines text) i ↔
      ∃ row ∈ (bareLines text.toList).take i, isCodeRow row = true := by
    simp only [CodeBefore, strippedLines, ← List.map_take, List.mem_map, isCodeRow_iff]
    constructor
    · rintro ⟨_, ⟨row, hrow, rfl⟩, hcode⟩
      exact ⟨row, hrow, hcode⟩
    · rintro ⟨row, hrow, hcode⟩
      exact ⟨_, ⟨row, hrow, rfl⟩, hcode⟩
  rw [hcode, isAfterCode, firstIndex_ofText, codeIndex_ofText, h]
  generalize bareLines text.toList = rows
  cases hc : rows.findIdx? isCodeRow with
  | none =>
    rw [List.findIdx?_eq_none_iff] at hc
    simp only [Bool.false_eq_true, false_iff, not_exists, not_and]
    intro row hrow
    simp [hc row (List.mem_of_mem_take hrow)]
  | some j =>
    obtain ⟨hj, hrow, hbefore⟩ := List.findIdx?_eq_some_iff_getElem.mp hc
    simp only [decide_eq_true_eq]
    constructor
    · intro hji
      exact ⟨rows[j], List.mem_take_iff_getElem.mpr ⟨j, by omega, rfl⟩, hrow⟩
    · rintro ⟨row, hmem, hcode⟩
      obtain ⟨k, hk, rfl⟩ := List.mem_take_iff_getElem.mp hmem
      by_contra hij
      exact hbefore k (by omega) hcode

lemma faults_eq_violations {text : String} {i : Nat} {name : String} {others : List (Nat × String)}
    (h : located 0 (strippedLines text) = (i, name) :: others) (nextLine : Bool) :
    (ofText text nextLine).faults ⟨numberAt nextLine (strippedLines text) i, name⟩
        (others.map fun p => ⟨numberAt nextLine (strippedLines text) p.1, p.2⟩) =
      violations nextLine (strippedLines text) i name others := by
  have hfirst : (bareLines text.toList).findIdx? isPragmaRow = some i := by
    have hhead := head_located (bareLines text.toList) 0
    change (located 0 (strippedLines text)).head?.map Prod.fst = _ at hhead
    rw [h] at hhead
    simpa using hhead.symm
  have hname : (Stage.ofName? name).isNone = true ↔ name ∉ Stage.all.map Stage.name := by
    rw [Option.isNone_iff_eq_none, Stage.ofName?, List.find?_eq_none]
    simp
  simp only [faults, violations, isAfterCode_iff hfirst, hname, ite_not, List.filter_map,
    List.map_map]
  rfl

theorem declared_of_located {text : String} {i : Nat} {name : String} {others : List (Nat × String)}
    (h : located 0 (strippedLines text) = (i, name) :: others) (tag : String) (nextLine : Bool) :
    Stage.declared text tag nextLine =
      if violations nextLine (strippedLines text) i name others = [] then .ok (Stage.ofName? name)
      else .error ⟨tag, violations nextLine (strippedLines text) i name others⟩ := by
  rw [Stage.declared, stage, pragmas_eq_located, h, List.map_cons]
  simp only [faults_eq_violations h]
  cases violations nextLine (strippedLines text) i name others <;> rfl

lemma declared_of_noPragma {text : String} (h : located 0 (strippedLines text) = []) (tag : String)
    (nextLine : Bool) : Stage.declared text tag nextLine = .ok none := by
  rw [Stage.declared, stage, pragmas_eq_located, h]
  rfl

lemma violations_eq_nil_iff (nextLine : Bool) (i : Nat) (name : String)
    (others : List (Nat × String)) :
    violations nextLine rows i name others = [] ↔
      ¬ CodeBefore rows i ∧ name ∈ Stage.all.map Stage.name ∧ ∀ p ∈ others, p.2 = name := by
  simp [violations]

lemma not_codeBefore_iff {i : Nat} :
    ¬ CodeBefore rows i ↔ ∀ row ∈ rows.take i, row = [] ∨ row.head? = some '#' := by
  simp only [CodeBefore, not_exists, not_and, not_not, or_iff_not_imp_left, ne_eq]

theorem declared_outcome (text tag : String) (nextLine : Bool) :
    let rows := strippedLines text
    (∀ i name, (i, name) ∈ located 0 rows ↔
      ∃ rest, rows[i]? = some (pragma.toList ++ rest) ∧ IsArgument rest name.toList) ∧
    (Stage.declared text tag nextLine = .ok none ↔ ∀ row ∈ rows, ¬ pragma.toList <+: row) ∧
    (∀ s : Stage, Stage.declared text tag nextLine = .ok (some s) ↔
      ∃ i name others, located 0 rows = (i, name) :: others ∧ (∀ p ∈ located 0 rows, p.2 = s.name) ∧
        ∀ row ∈ rows.take i, row = [] ∨ row.head? = some '#') ∧
    ∀ e, Stage.declared text tag nextLine = .error e ↔
      ∃ i name others, located 0 rows = (i, name) :: others ∧
      violations nextLine rows i name others ≠ [] ∧
        e = ⟨tag, violations nextLine rows i name others⟩ := by
  intro rows
  refine ⟨fun i name => mem_located_iff, ?_⟩
  rw [← located_eq_nil_iff 0]
  cases h : located 0 rows with
  | nil =>
    simp [declared_of_noPragma h]
  | cons p others =>
    obtain ⟨i, name⟩ := p
    have hnil := @violations_eq_nil_iff rows nextLine i name others
    rw [declared_of_located h]
    by_cases hv : violations nextLine rows i name others = []
    · obtain ⟨hcode, hname, hothers⟩ := hnil.mp hv
      obtain ⟨stage, -, rfl⟩ := List.mem_map.mp hname
      have hstage : Stage.ofName? stage.name = some stage := Stage.ofName_eq_some_iff.mpr rfl
      rw [if_pos hv, hstage]
      refine ⟨by simp, fun s => ⟨?_, ?_⟩, fun e => ⟨by rintro ⟨⟩, ?_⟩⟩
      · rintro ⟨⟩
        exact ⟨i, stage.name, others, rfl, List.forall_mem_cons.mpr ⟨rfl, hothers⟩,
          not_codeBefore_iff.mp hcode⟩
      · rintro ⟨_, _, _, -, hall, -⟩
        have hname : s.name = stage.name := (hall (i, stage.name) (by simp)).symm
        rw [← hstage, Stage.ofName_eq_some_iff.mpr hname]
      · rintro ⟨_, _, _, ⟨⟩, hne, -⟩
        exact (hne hv).elim
    · rw [if_neg hv]
      refine ⟨by simp, fun s => ⟨by rintro ⟨⟩, ?_⟩, fun e => ⟨?_, ?_⟩⟩
      · rintro ⟨_, _, _, ⟨⟩, hall, hcode⟩
        obtain ⟨hname, hothers⟩ := List.forall_mem_cons.mp hall
        obtain rfl : name = s.name := hname
        have hmem : s.name ∈ Stage.all.map Stage.name := by cases s <;> decide
        exact (hv (hnil.mpr ⟨not_codeBefore_iff.mpr hcode, hmem, hothers⟩)).elim
      · rintro ⟨⟩
        exact ⟨i, name, others, rfl, hv, rfl⟩
      · rintro ⟨_, _, _, ⟨⟩, -, rfl⟩
        rfl

example :
    Stage.declared "int x;\n#line 7\n#pragma shader_stage(no)\n#pragma shader_stage vertex)\n" "t"
      true =
    .error ⟨"t", [.afterCode 7, .invalidStage 7 "no", .conflict 8 "vertex" 7 "no"]⟩ := by
  cbv

end StagePragmas

end ShaderPipeline
