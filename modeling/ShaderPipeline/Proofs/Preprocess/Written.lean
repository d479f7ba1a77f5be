import ShaderPipeline.Preprocess.Item
import ShaderPipeline.Proofs.Text.Clean
import ShaderPipeline.Proofs.Token.OneLine

namespace ShaderPipeline.Preprocess

open Text

namespace Item

def directiveRow (word : String) (args : List Token) : List Char :=
  word.toList ++ if args.isEmpty then [] else ' ' :: (Token.canonical args).toList

def resumeRow (nextLine : Bool) (line : LineNumber) (name : String) : List Char :=
  LineNumber.directive.toList ++ ' ' ::
    (toString (line.advance (if nextLine then 1 else 0))).toList ++
    ' ' :: '"' :: name.toList ++ ['"']

def rows : Item → List (List Char)
  | .blank => [[]]
  | .text tokens lines => (Token.join tokens).toList :: List.replicate (lines - 1) []
  | .version args => [directiveRow Version.directive args]
  | .extension name behavior =>
    ["#extension ".toList ++ name.toList ++ " : ".toList ++ behavior.keyword.toList]
  | .pragma _ args => [directiveRow "#pragma" args]
  | .renumber _ _ args => [directiveRow LineNumber.directive args]
  | .enter nextLine found => [resumeRow nextLine 0 found.name]
  | .leave nextLine line name => [resumeRow nextLine line name]

def Valid : Item → Prop
  | .blank => True
  | .text tokens lines => 0 < lines ∧ ∀ t ∈ tokens, t.OneLine
  | .version args | .pragma _ args | .renumber _ _ args => ∀ t ∈ args, t.OneLine
  | .extension name _ | .leave _ _ name => '\n' ∉ name.toList
  | .enter _ found => '\n' ∉ found.name.toList

def height : Item → Nat
  | .text _ lines => lines
  | _ => 1

def next (l : LineNumber) : Item → LineNumber
  | .text _ lines => l.advance lines
  | .renumber _ line _ => line
  | .enter .. => 1
  | .leave _ line _ => line.advance 1
  | _ => l.advance 1

def Fits (l : LineNumber) : Item → Prop
  | .pragma line _ => line = l
  | .renumber nextLine line args =>
    ∃ t, args.head? = some t ∧ t.kind = .number ∧
      line = (LineNumber.ofText t.text).following nextLine
  | .enter .. | .leave .. => False
  | _ => True

lemma toString_string (s : String) : toString s = s :=
  rfl

lemma toList_directiveLine (word : String) (args : List Token) :
    (directiveLine word args).toList = directiveRow word args ++ ['\n'] := by
  by_cases h : args.isEmpty <;> simp [directiveLine, directiveRow, h]

lemma toList_resume (nextLine : Bool) (line : LineNumber) (name : String) :
    (LineNumber.resume nextLine line name).toList = resumeRow nextLine line name ++ ['\n'] := by
  simp [LineNumber.resume, resumeRow, toString_string]

lemma toList_render {x : Item} (h : x.Valid) : x.render.toList = unlines x.rows := by
  cases x with
  | blank => rfl
  | text tokens lines =>
    obtain ⟨n, rfl⟩ := Nat.exists_eq_succ_of_ne_zero (Nat.ne_of_gt h.1)
    simp [render, rows, List.replicate_succ]
  | version args => simp [render, rows, toList_directiveLine]
  | extension name behavior => simp [render, rows, toString_string]
  | pragma line args => simp [render, rows, toList_directiveLine]
  | renumber nextLine line args => simp [render, rows, toList_directiveLine]
  | enter nextLine found => simp [render, rows, toList_resume]
  | leave nextLine line name => simp [render, rows, toList_resume]

lemma newline_notMem_directiveRow {word : String} {args : List Token} (hw : '\n' ∉ word.toList)
    (h : ∀ t ∈ args, t.OneLine) : '\n' ∉ directiveRow word args := by
  have hc := Token.newline_notMem_canonical h
  by_cases he : args.isEmpty <;> simp [directiveRow, he, hw, hc]

lemma newline_notMem_resumeRow {name : String} (h : '\n' ∉ name.toList) (nextLine : Bool)
    (line : LineNumber) : '\n' ∉ resumeRow nextLine line name := by
  have hn := newline_notMem_toString_int (line.advance (if nextLine then 1 else 0))
  have hw : '\n' ∉ LineNumber.directive.toList := by decide
  simp only [resumeRow, List.mem_append, List.mem_cons, List.not_mem_nil, not_or, or_false]
  exact ⟨⟨⟨hw, by decide, hn⟩, by decide, by decide, h⟩, by decide⟩

lemma newline_notMem_rows {x : Item} (h : x.Valid) : ∀ l ∈ x.rows, '\n' ∉ l := by
  cases x with
  | blank => simp [rows]
  | text tokens lines =>
    have hj := Token.newline_notMem_join h.2
    simp only [rows, List.forall_mem_cons]
    refine ⟨hj, fun l hl => ?_⟩
    rw [List.eq_of_mem_replicate hl]
    exact List.not_mem_nil
  | version args => simpa [rows] using newline_notMem_directiveRow (by decide) h
  | extension name behavior =>
    have hb : '\n' ∉ behavior.keyword.toList := by cases behavior <;> decide
    have hn : '\n' ∉ name.toList := h
    simp [rows, hb, hn]
  | pragma line args => simpa [rows] using newline_notMem_directiveRow (by decide) h
  | renumber nextLine line args => simpa [rows] using newline_notMem_directiveRow (by decide) h
  | enter nextLine found => simpa [rows] using newline_notMem_resumeRow h nextLine 0
  | leave nextLine line name => simpa [rows] using newline_notMem_resumeRow h nextLine line

lemma length_rows {x : Item} (h : x.Valid) : x.rows.length = x.height := by
  cases x with
  | text tokens lines =>
    have hl : 0 < lines := h.1
    simp only [rows, height, List.length_cons, List.length_replicate]
    omega
  | _ => rfl

def entered? : Item → Option Included
  | .enter _ found => some found
  | _ => none

lemma entered_of_fits {x : Item} {l : LineNumber} (h : x.Fits l) : x.entered? = none := by
  cases x <;> first | rfl | exact h.elim

end Item

def entered (xs : List Item) : List Included :=
  xs.filterMap Item.entered?

lemma entered_append (xs ys : List Item) : entered (xs ++ ys) = entered xs ++ entered ys :=
  List.filterMap_append

lemma toList_renderAll {xs : List Item} (h : ∀ x ∈ xs, x.Valid) :
    (Item.renderAll xs).toList = unlines (xs.flatMap Item.rows) := by
  induction xs with
  | nil => rfl
  | cons x xs ih =>
    obtain ⟨hx, hxs⟩ := List.forall_mem_cons.mp h
    have hr : Item.renderAll (x :: xs) = x.render ++ Item.renderAll xs := by
      simp [Item.renderAll, String.join_cons]
    rw [hr, String.toList_append, Item.toList_render hx, ih hxs, List.flatMap_cons, unlines_append]

lemma newline_notMem_allRows {xs : List Item} (h : ∀ x ∈ xs, x.Valid) :
    ∀ l ∈ xs.flatMap Item.rows, '\n' ∉ l := by
  intro l hl
  obtain ⟨x, hx, hl⟩ := List.mem_flatMap.mp hl
  exact Item.newline_notMem_rows (h x hx) l hl

/-- Items written for lines of the unit `name`: from where they are numbered, how many they are and
where the next line is numbered. An included file is written whole in place of the line that
includes it. -/
inductive Written : String → LineNumber → List Item → Nat → LineNumber → Prop
  | nil {name : String} {l : LineNumber} : Written name l [] 0 l
  | item {name : String} {l l' : LineNumber} {xs : List Item} {n : Nat} {x : Item} :
      Written name l xs n l' → x.Fits l' → x.Valid →
      Written name l (xs ++ [x]) (n + x.height) (x.next l')
  | file {name : String} {l l' l'' : LineNumber} {xs ys : List Item} {n : Nat} {b b' : Bool}
      {found : Included} :
      Written name l xs n l' → Written found.name 1 ys (lineCount found.content) l'' →
      '\n' ∉ found.name.toList →
      Written name l (xs ++ .enter b found :: (ys ++ [.leave b' l' name])) (n + 1) (l'.advance 1)

namespace Written

variable {name : String} {l l' : LineNumber} {xs : List Item} {n : Nat}

lemma valid (h : Written name l xs n l') (hn : '\n' ∉ name.toList) : ∀ x ∈ xs, x.Valid := by
  induction h with
  | nil => simp
  | item h hf hv ih =>
    intro x hx
    rcases List.mem_append.mp hx with hx | hx
    · exact ih hn x hx
    · obtain rfl := List.mem_singleton.mp hx
      exact hv
  | file h hy hf ih ihy =>
    intro x hx
    rcases List.mem_append.mp hx with hx | hx
    · exact ih hn x hx
    rcases List.mem_cons.mp hx with rfl | hx
    · exact hf
    rcases List.mem_append.mp hx with hx | hx
    · exact ihy hf x hx
    · obtain rfl := List.mem_singleton.mp hx
      exact hn

lemma numbering (h : Written name l xs n l') : xs.foldl Item.next l = l' := by
  induction h with
  | nil => rfl
  | item h hf hv ih => rw [List.foldl_append, ih, List.foldl_cons, List.foldl_nil]
  | file h hy hf ih ihy =>
    rw [List.foldl_append, ih, List.foldl_cons, List.foldl_append]
    rfl

theorem length_rows (h : Written name l xs n l') :
    (xs.flatMap Item.rows).length = n + ((entered xs).map fun f =>
      lineCount f.content + 1).sum := by
  induction h with
  | nil => rfl
  | item h hf hv ih =>
    simp only [List.flatMap_append, List.length_append, ih, entered, List.filterMap_append,
      List.flatMap_cons, List.flatMap_nil, List.append_nil, Item.length_rows hv,
      List.filterMap_cons, Item.entered_of_fits hf,
      List.filterMap_nil]
    omega
  | file h hy hf ih ihy =>
    simp only [List.flatMap_append, List.length_append, ih, entered, List.filterMap_append,
      List.flatMap_cons, List.flatMap_nil, List.append_nil, List.filterMap_cons, Item.entered?,
      List.filterMap_nil, List.map_append,
      List.sum_append, List.map_cons, List.sum_cons, ihy, Item.rows, List.length_cons,
      List.length_nil]
    omega

end Written

end ShaderPipeline.Preprocess
