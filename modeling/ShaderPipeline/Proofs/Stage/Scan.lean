import ShaderPipeline.Proofs.LineNumber
import ShaderPipeline.Proofs.Text.Lines
import ShaderPipeline.Proofs.Text.Strip
import ShaderPipeline.Stage.Pragma

namespace ShaderPipeline.StagePragmas

open Text

def found? (l : LineNumber) (row : List Char) : Option StagePragma :=
  (afterPrefix? pragma.toList (stripChars row)).map fun rest => ⟨l, .ofList (argument rest)⟩

def numberAfter (nextLine : Bool) (l : LineNumber) (row : List Char) : LineNumber :=
  lineAfter nextLine l (stripChars row)

def counted (nextLine : Bool) (l : LineNumber) (rows : List (List Char)) : LineNumber :=
  rows.foldl (numberAfter nextLine) l

def listed (nextLine : Bool) (l : LineNumber) : List (List Char) → List StagePragma
  | [] => []
  | row :: rows => (found? l row).toList ++ listed nextLine (numberAfter nextLine l row) rows

variable {nextLine : Bool} {l : LineNumber} {rows : List (List Char)}

lemma counted_append (rows' : List (List Char)) :
    counted nextLine l (rows ++ rows') = counted nextLine (counted nextLine l rows) rows' :=
  List.foldl_append

lemma listed_append (rows' : List (List Char)) :
    listed nextLine l (rows ++ rows') =
      listed nextLine l rows ++ listed nextLine (counted nextLine l rows) rows' := by
  induction rows generalizing l with
  | nil => rfl
  | cons row rows ih =>
    rw [List.cons_append, listed, ih, listed, List.append_assoc]
    rfl

lemma pragmas_note (s : StagePragmas) (index : Nat) (l : LineNumber) (row : List Char) :
    (s.note index l (stripChars row)).pragmas = s.pragmas ++ (found? l row).toList := by
  simp only [note, found?]
  cases afterPrefix? pragma.toList (stripChars row) with
  | some rest => rfl
  | none =>
    simp only [Option.map_none, Option.toList_none, List.append_nil]
    split <;> rfl

lemma pragmas_notes (s : StagePragmas) (index : Nat) :
    (notes nextLine index l s (rows.map String.ofList)).pragmas =
      s.pragmas ++ listed nextLine l rows := by
  induction rows generalizing s index l with
  | nil => exact (List.append_nil _).symm
  | cons row rows ih =>
    simp only [List.map_cons, notes, String.toList_ofList, listed]
    rw [ih, pragmas_note, List.append_assoc]
    rfl

theorem pragmas_ofText (text : String) (nextLine : Bool) :
    (ofText text nextLine).pragmas = listed nextLine 1 (bareLines text.toList) := by
  rw [ofText, lines, pragmas_notes]
  rfl

def isPragmaRow (row : List Char) : Bool :=
  (afterPrefix? pragma.toList (stripChars row)).isSome

def isCodeRow (row : List Char) : Bool :=
  !isPragmaRow row && !decide (stripChars row = [] ∨ (stripChars row).head? = some '#')

lemma firstIndex_note (s : StagePragmas) (index : Nat) (l : LineNumber) (row : List Char) :
    (s.note index l (stripChars row)).firstIndex =
      s.firstIndex.or (if isPragmaRow row then some index else none) := by
  cases h : afterPrefix? pragma.toList (stripChars row) with
  | some rest => simp [note, isPragmaRow, h]
  | none =>
    simp only [note, h]
    split <;> simp [isPragmaRow, h]

lemma codeIndex_note (s : StagePragmas) (index : Nat) (l : LineNumber) (row : List Char) :
    (s.note index l (stripChars row)).codeIndex = s.codeIndex.or (if isCodeRow row then some index
      else none) := by
  cases h : afterPrefix? pragma.toList (stripChars row) with
  | some rest => simp [note, isCodeRow, isPragmaRow, h]
  | none =>
    simp only [note, h]
    split
    · rename_i hc
      simp [isCodeRow, hc]
    · rename_i hc
      simp [isCodeRow, isPragmaRow, h, not_or.mp hc]

lemma firstIndex_notes (s : StagePragmas) (index : Nat) :
    (notes nextLine index l s (rows.map String.ofList)).firstIndex =
      s.firstIndex.or ((rows.findIdx? isPragmaRow).map (index + ·)) := by
  induction rows generalizing s index l with
  | nil => simp [notes]
  | cons row rows ih =>
    rw [List.map_cons, notes, String.toList_ofList, ih, firstIndex_note, List.findIdx?_cons,
      Option.or_assoc]
    split <;> simp [Function.comp_def, Nat.add_assoc, Nat.add_comm 1]

lemma codeIndex_notes (s : StagePragmas) (index : Nat) :
    (notes nextLine index l s (rows.map String.ofList)).codeIndex =
      s.codeIndex.or ((rows.findIdx? isCodeRow).map (index + ·)) := by
  induction rows generalizing s index l with
  | nil => simp [notes]
  | cons row rows ih =>
    rw [List.map_cons, notes, String.toList_ofList, ih, codeIndex_note, List.findIdx?_cons,
      Option.or_assoc]
    split <;> simp [Function.comp_def, Nat.add_assoc, Nat.add_comm 1]

lemma firstIndex_ofText (text : String) (nextLine : Bool) :
    (ofText text nextLine).firstIndex = (bareLines text.toList).findIdx? isPragmaRow := by
  rw [ofText, lines, firstIndex_notes]
  simp

lemma codeIndex_ofText (text : String) (nextLine : Bool) :
    (ofText text nextLine).codeIndex = (bareLines text.toList).findIdx? isCodeRow := by
  rw [ofText, lines, codeIndex_notes]
  simp

lemma isAfterCode_shift {s s' : StagePragmas} (k : Nat)
    (hfirst : s.firstIndex = s'.firstIndex.map (k + ·))
    (hcode : s.codeIndex = s'.codeIndex.map (k + ·)) : s.isAfterCode = s'.isAfterCode := by
  rw [isAfterCode, isAfterCode, hfirst, hcode]
  rcases s'.firstIndex with _ | i
  · rfl
  rcases s'.codeIndex with _ | j
  · rfl
  simp

lemma stage_congr {s s' : StagePragmas} (hp : s.pragmas = s'.pragmas)
    (ha : s.isAfterCode = s'.isAfterCode) (tag : String) : s.stage tag = s'.stage tag := by
  simp only [stage, faults, hp, ha]

def IsCode (row : List Char) : Prop :=
  (stripChars row).head? ≠ some '#'

lemma afterPrefix_of_isCode {row p : List Char} (h : IsCode row) :
    afterPrefix? ('#' :: p) (stripChars row) = none := by
  apply afterPrefix_eq_none
  rintro ⟨rest, hr⟩
  exact h (by rw [← hr]; rfl)

lemma numberAfter_of_isCode {row : List Char} (h : IsCode row) :
    numberAfter nextLine l row = l.advance 1 := by
  have hn : afterPrefix? LineNumber.directive.toList (stripChars row) = none :=
    afterPrefix_of_isCode h
  simp only [numberAfter, lineAfter, hn]

lemma found_of_isCode {row : List Char} (h : IsCode row) : found? l row = none := by
  have hn : afterPrefix? pragma.toList (stripChars row) = none := afterPrefix_of_isCode h
  rw [found?, hn]
  rfl

lemma notBlank_last_directive (c : Char) (h : LineNumber.directive.toList.getLast? = some c) :
    isBlank c = false := by
  obtain rfl := Option.some.inj h
  rfl

lemma notBlank_last_pragma (c : Char) (h : pragma.toList.getLast? = some c) :
    isBlank c = false := by
  obtain rfl := Option.some.inj h
  rfl

lemma numberAfter_directive (cs : List Char) : numberAfter nextLine l ('#' :: cs) =
    match afterPrefix? LineNumber.directive.toList ('#' :: cs) with
    | some rest => (LineNumber.ofChars rest).following nextLine
    | none => l.advance 1 := by
  rw [numberAfter, stripChars_of_notBlank (by decide), lineAfter,
    afterPrefix_rdropWhile notBlank_last_directive]
  cases afterPrefix? LineNumber.directive.toList ('#' :: cs) with
  | none => rfl
  | some rest =>
    obtain ⟨bs, hbs, he⟩ := exists_blank rest
    have hr := LineNumber.ofChars_append_blank (rest.rdropWhile isBlank) hbs
    rw [← he] at hr
    simp only [Option.map_some, hr]

lemma numberAfter_append (cs : List Char) :
    numberAfter nextLine l (LineNumber.directive.toList ++ cs) =
    (LineNumber.ofChars cs).following nextLine := by
  have hc : LineNumber.directive.toList ++ cs = '#' :: ("line".toList ++ cs) := rfl
  rw [hc, numberAfter_directive, ← hc, afterPrefix_append]

lemma delimited_append_blank (cs : List Char) {bs : List Char} (h : ∀ b ∈ bs, isBlank b = true) :
    delimited? (cs ++ bs) = delimited? cs := by
  simp only [delimited?]
  rw [splitAt_append_blank (by decide) cs h]
  cases splitAt? '(' cs with
  | none => rfl
  | some s =>
    have hs := splitAt_append_blank (c := ')') (by decide) s.2 h
    simp only [Option.map_some, Option.bind_eq_bind, Option.bind_some, hs]
    cases splitAt? ')' s.2 <;> rfl

lemma argument_append_blank (cs : List Char) {bs : List Char} (h : ∀ b ∈ bs, isBlank b = true) :
    argument (cs ++ bs) = argument cs := by
  rw [argument, argument, delimited_append_blank cs h, stripChars_append_blank cs h]

lemma found_directive (cs : List Char) : found? l ('#' :: cs) =
    (afterPrefix? pragma.toList ('#' :: cs)).map fun rest => ⟨l, .ofList (argument rest)⟩ := by
  rw [found?, stripChars_of_notBlank (by decide), afterPrefix_rdropWhile notBlank_last_pragma,
    Option.map_map]
  congr 1
  funext rest
  obtain ⟨bs, hbs, he⟩ := exists_blank rest
  have hr := argument_append_blank (rest.rdropWhile isBlank) hbs
  rw [← he] at hr
  simp only [Function.comp_apply, hr]

end ShaderPipeline.StagePragmas
