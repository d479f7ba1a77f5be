import ShaderPipeline.Proofs.Preprocess.Written
import ShaderPipeline.Proofs.Stage.Scan

/-! The scan numbers lines as the run did, as long as it reads the numbers of line directives
back. -/

namespace ShaderPipeline.Preprocess

open Text StagePragmas

namespace Item

def KeepsCode : Item → Prop
  | .text tokens _ => IsCode (Token.join tokens).toList
  | _ => True

def Follows (nextLine : Bool) : Item → Prop
  | .renumber b _ _ | .enter b _ | .leave b _ _ => b = nextLine
  | _ => True

/-- A line directive is written so that the number which the run took comes first. -/
def ReadsBack : Item → Prop
  | .renumber nextLine line args =>
    (LineNumber.ofText (Token.canonical args)).following nextLine = line
  | _ => True

def InRange : Item → Prop
  | .leave _ line _ => line.InRange
  | _ => True

def PragmaAt (l : LineNumber) : Item → Prop
  | .pragma line _ => line = l
  | _ => True

def stagePragma? : Item → Option StagePragma
  | .pragma line args =>
    (afterPrefix? "shader_stage".toList (Token.canonical args).toList).map fun rest =>
      ⟨line, .ofList (argument rest)⟩
  | _ => none

def read (nextLine : Bool) (l : LineNumber) : Item → LineNumber
  | .renumber _ _ args => (LineNumber.ofText (Token.canonical args)).following nextLine
  | x => x.next l

variable {nextLine : Bool} {l : LineNumber} {x : Item}

lemma read_eq_next (hf : x.Follows nextLine) (h : x.ReadsBack) (l : LineNumber) :
    x.read nextLine l = x.next l := by
  cases x with
  | renumber b line args =>
    obtain rfl : b = nextLine := hf
    exact h
  | _ => rfl

lemma readsBack_of_read (hf : x.Follows nextLine) (h : x.read nextLine l = x.next l) :
    x.ReadsBack := by
  cases x with
  | renumber b line args =>
    obtain rfl : b = nextLine := hf
    exact h
  | _ => trivial

lemma isCode_nil : IsCode [] := by
  simp [IsCode, stripChars]

lemma counted_replicate (j k : Nat) :
    counted nextLine (l.advance j) (List.replicate k []) = l.advance (j + k) := by
  induction k generalizing j with
  | zero => rfl
  | succ k ih =>
    rw [List.replicate_succ, counted, List.foldl_cons, numberAfter_of_isCode isCode_nil,
      LineNumber.advance_advance]
    rw [show j + (k + 1) = j + 1 + k by omega]
    exact ih (j + 1)

lemma listed_replicate (k : Nat) : listed nextLine l (List.replicate k []) = [] := by
  induction k generalizing l with
  | zero => rfl
  | succ k ih => rw [List.replicate_succ, listed, found_of_isCode isCode_nil, ih]; rfl

lemma numberAfter_resumeRow (h : l.InRange) (nextLine : Bool) (l' : LineNumber) (name : String) :
    numberAfter nextLine l' (resumeRow nextLine l name) = l.advance 1 := by
  generalize hn : l.advance (if nextLine then 1 else 0) = n
  have hr : n.InRange := hn ▸ h.advance _
  have hrow : resumeRow nextLine l name =
      LineNumber.directive.toList ++ ' ' :: ((toString n).toList ++ ' ' :: '"' :: name.toList ++
        ['"']) := by
    simp [resumeRow, hn]
  have hread :
      LineNumber.ofChars ((toString n).toList ++ ' ' :: '"' :: name.toList ++ ['"']) = n := by
    rw [List.append_assoc]
    apply LineNumber.ofChars_toString hr
    rintro c ⟨⟩
    rfl
  rw [hrow, numberAfter_append, LineNumber.ofChars_cons_blank (by decide), hread, ← hn,
    LineNumber.following, LineNumber.advance_advance]
  cases nextLine <;> rfl

lemma numberAfter_renumberRow (args : List Token) :
    numberAfter nextLine l (directiveRow LineNumber.directive args) =
      (LineNumber.ofText (Token.canonical args)).following nextLine := by
  rw [directiveRow, numberAfter_append]
  cases args with
  | nil => rfl
  | cons t args =>
    simp only [List.isEmpty_cons, Bool.false_eq_true, if_false]
    rw [LineNumber.ofChars_cons_blank (by decide)]
    rfl

lemma numberAfter_other {cs : List Char}
    (h : afterPrefix? LineNumber.directive.toList ('#' :: cs) = none) :
    numberAfter nextLine l ('#' :: cs) = l.advance 1 := by
  rw [numberAfter_directive, h]

lemma counted_row (row : List Char) : counted nextLine l [row] = numberAfter nextLine l row :=
  rfl

lemma counted_rows (hf : x.Follows nextLine) (hc : x.KeepsCode) (hr : x.InRange) (hv : x.Valid) :
    counted nextLine l x.rows = x.read nextLine l := by
  cases x with
  | blank => exact @numberAfter_of_isCode nextLine l [] isCode_nil
  | text tokens lines =>
    have hl : 0 < lines := hv.1
    have hk : 1 + (lines - 1) = lines := by omega
    rw [rows, counted, List.foldl_cons, numberAfter_of_isCode hc]
    exact (counted_replicate 1 (lines - 1)).trans (congrArg l.advance hk)
  | version args => exact numberAfter_other rfl
  | extension name behavior => exact numberAfter_other rfl
  | pragma line args => exact numberAfter_other rfl
  | renumber b line args =>
    rw [rows, counted_row, numberAfter_renumberRow]
    rfl
  | enter b found =>
    obtain rfl : b = nextLine := hf
    have hz : LineNumber.InRange 0 := ⟨by decide, by decide⟩
    rw [rows, counted_row, numberAfter_resumeRow hz]
    rfl
  | leave b line name =>
    obtain rfl : b = nextLine := hf
    have hl : line.InRange := hr
    rw [rows, counted_row, numberAfter_resumeRow hl]
    rfl

lemma listed_other {cs : List Char}
    (h : afterPrefix? StagePragmas.pragma.toList ('#' :: cs) = none) :
    listed nextLine l ['#' :: cs] = [] := by
  rw [listed, found_directive, h]
  rfl

lemma found_pragmaRow (args : List Token) :
    found? l (directiveRow "#pragma" args) = (pragma l args).stagePragma? := by
  change found? l ('#' :: _) = _
  rw [found_directive]
  cases args with
  | nil => rfl
  | cons t args =>
    change (afterPrefix? ("#pragma ".toList ++ "shader_stage".toList)
      ("#pragma ".toList ++ (Token.canonical (t :: args)).toList)).map _ = _
    rw [afterPrefix_append_append]
    rfl

lemma listed_rows (hc : x.KeepsCode) (hp : x.PragmaAt l) :
    listed nextLine l x.rows = x.stagePragma?.toList := by
  cases x with
  | blank => exact listed_replicate 1
  | text tokens lines =>
    rw [rows, listed, listed_replicate, found_of_isCode hc]
    rfl
  | pragma line args =>
    obtain rfl : line = l := hp
    rw [rows, listed, found_pragmaRow, listed, List.append_nil]
  | version args => exact listed_other rfl
  | extension name behavior => exact listed_other rfl
  | renumber b line args => exact listed_other rfl
  | enter b found => exact listed_other rfl
  | leave b line name => exact listed_other rfl

end Item

def PragmasFrom (l : LineNumber) : List Item → Prop
  | [] => True
  | x :: xs => x.PragmaAt l ∧ PragmasFrom (x.next l) xs

lemma pragmasFrom_append {l : LineNumber} {xs ys : List Item} :
    PragmasFrom l (xs ++ ys) ↔ PragmasFrom l xs ∧ PragmasFrom (xs.foldl Item.next l) ys := by
  induction xs generalizing l with
  | nil => exact ⟨fun h => ⟨trivial, h⟩, fun h => h.2⟩
  | cons x xs ih => rw [List.cons_append, PragmasFrom, PragmasFrom, ih, and_assoc, List.foldl_cons]

namespace Written

variable {name : String} {l l' : LineNumber} {xs : List Item} {n : Nat}

lemma pragmasFrom (h : Written name l xs n l') : PragmasFrom l xs := by
  induction h with
  | nil => trivial
  | @item name l l' xs n x h hf hv ih =>
    refine pragmasFrom_append.mpr ⟨ih, ?_, trivial⟩
    rw [h.numbering]
    cases x <;> first | exact hf | trivial
  | file h hy hname ih ihy =>
    refine pragmasFrom_append.mpr ⟨ih, trivial, pragmasFrom_append.mpr ⟨ihy, trivial, trivial⟩⟩

lemma inRange (h : Written name l xs n l') (hl : l.InRange) : l'.InRange ∧ ∀ x ∈ xs, x.InRange := by
  induction h with
  | nil => exact ⟨hl, by simp⟩
  | @item name l l' xs n x h hf hv ih =>
    obtain ⟨hl', hxs⟩ := ih hl
    constructor
    · cases x with
      | renumber b line args =>
        obtain ⟨t, -, -, rfl⟩ := hf
        exact (LineNumber.inRange_ofChars _).advance _
      | enter => exact hf.elim
      | leave => exact hf.elim
      | _ => exact hl'.advance _
    · intro y hy
      rcases List.mem_append.mp hy with hy | hy
      · exact hxs y hy
      · obtain rfl := List.mem_singleton.mp hy
        cases y <;> trivial
  | file h hy hname ih ihy =>
    obtain ⟨hl', hxs⟩ := ih hl
    obtain ⟨-, hys⟩ := ihy ⟨by decide, by decide⟩
    refine ⟨hl'.advance 1, fun y hm => ?_⟩
    rcases List.mem_append.mp hm with hm | hm
    · exact hxs y hm
    rcases List.mem_cons.mp hm with rfl | hm
    · trivial
    rcases List.mem_append.mp hm with hm | hm
    · exact hys y hm
    · obtain rfl := List.mem_singleton.mp hm
      exact hl'

end Written

structure Item.Scannable (nextLine : Bool) (x : Item) : Prop where
  follows : x.Follows nextLine
  code : x.KeepsCode
  range : x.InRange
  valid : x.Valid

variable {nextLine : Bool} {xs : List Item}

lemma counted_eq_foldl (h : ∀ x ∈ xs, x.Scannable nextLine) (hr : ∀ x ∈ xs, x.ReadsBack)
    (l : LineNumber) : counted nextLine l (xs.flatMap Item.rows) = xs.foldl Item.next l := by
  induction xs generalizing l with
  | nil => rfl
  | cons x xs ih =>
    obtain ⟨hx, hxs⟩ := List.forall_mem_cons.mp h
    obtain ⟨hrx, hrxs⟩ := List.forall_mem_cons.mp hr
    have hc := Item.counted_rows (l := l) hx.follows hx.code hx.range hx.valid
    rw [List.flatMap_cons, counted_append, hc, Item.read_eq_next hx.follows hrx, ih hxs hrxs,
      List.foldl_cons]

theorem listed_eq_filterMap (h : ∀ x ∈ xs, x.Scannable nextLine) (hr : ∀ x ∈ xs, x.ReadsBack)
    {l : LineNumber} (hp : PragmasFrom l xs) :
    listed nextLine l (xs.flatMap Item.rows) = xs.filterMap Item.stagePragma? := by
  induction xs generalizing l with
  | nil => rfl
  | cons x xs ih =>
    obtain ⟨hx, hxs⟩ := List.forall_mem_cons.mp h
    obtain ⟨hrx, hrxs⟩ := List.forall_mem_cons.mp hr
    have hc := Item.counted_rows (l := l) hx.follows hx.code hx.range hx.valid
    rw [List.flatMap_cons, listed_append, Item.listed_rows hx.code hp.1, hc,
      Item.read_eq_next hx.follows hrx, ih hxs hrxs hp.2, List.filterMap_cons]
    cases x.stagePragma? <;> rfl

theorem readsBack_iff (h : ∀ x ∈ xs, x.Scannable nextLine) (l : LineNumber) :
    (∀ x ∈ xs, x.ReadsBack) ↔
      ∀ zs, zs <+: xs → counted nextLine l (zs.flatMap Item.rows) = zs.foldl Item.next l := by
  constructor
  · intro hr zs hzs
    exact counted_eq_foldl (fun x hx => h x (hzs.subset hx)) (fun x hx => hr x (hzs.subset hx)) l
  · intro hc x hx
    obtain ⟨ys, zs, rfl⟩ := List.append_of_mem hx
    have hys := hc ys (List.prefix_append _ _)
    have hyx := hc (ys ++ [x]) (by simp)
    rw [List.flatMap_append, counted_append, hys, List.foldl_append] at hyx
    have hs := h x hx
    rw [List.flatMap_cons, List.flatMap_nil, List.append_nil,
      Item.counted_rows hs.follows hs.code hs.range hs.valid] at hyx
    exact Item.readsBack_of_read hs.follows hyx

end ShaderPipeline.Preprocess
