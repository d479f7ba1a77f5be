import Mathlib
import ShaderPipeline.Proofs.Preprocess.Groups

/-! Conditional groups as a tree. Line by line, a unit whose groups nest is read as the tree says:
of each group at most one branch, and nothing else of it. -/

namespace ShaderPipeline.Preprocess

mutual

inductive Block
  | nil
  | line (s : String) (role : Role.ofLine s = .plain) (rest : Block)
  | group (s : String) (opener : Opener) (args : List Token)
      (role : Role.ofLine s = .opens opener args) (body : Block) (branches : Branches)
      (rest : Block)

inductive Branches
  | elif (s : String) (args : List Token) (role : Role.ofLine s = .elif args) (body : Block)
    (branches : Branches)
  | otherwise (s : String) (role : Role.ofLine s = .otherwise) (body : Block) (close : String)
    (closes : Role.ofLine close = .endif)
  | endif (s : String) (role : Role.ofLine s = .endif)

end

mutual

def Block.lines : Block → List String
  | .nil => []
  | .line s _ rest => s :: rest.lines
  | .group s _ _ _ body branches rest => s :: (body.lines ++ (branches.lines ++ rest.lines))

def Branches.lines : Branches → List String
  | .elif s _ _ body branches => s :: (body.lines ++ branches.lines)
  | .otherwise s _ body close _ => s :: (body.lines ++ [close])
  | .endif s _ => [s]

end

namespace Reading

variable {σ : Type}

def blankLine (r : Reading σ) : Reading σ :=
  r.newline.advance

def blankLines (r : Reading σ) : Nat → Reading σ
  | 0 => r
  | n + 1 => r.blankLine.blankLines n

end Reading

section

variable {σ : Type} (inc : Includer σ) (descent : Descent σ)

mutual

/-- Of a group the first branch is read whose condition holds. All its other lines are left empty,
and no further condition of it is looked at. -/
def Block.read : Block → Reading σ → Reading σ
  | .nil, r => r
  | .line s _ rest, r => rest.read (r.line inc descent s).advance
  | .group _ opener args _ body branches rest, r =>
    let (holds, r) := r.flush.opens opener args
    rest.read <|
      if holds then (body.read r.blankLine).flush.blankLines branches.lines.length
      else branches.read (r.blankLine.blankLines body.lines.length)

def Branches.read : Branches → Reading σ → Reading σ
  | .elif _ args _ body branches, r =>
    let (holds, r) := r.holds "#elif" args
    if holds then (body.read r.blankLine).flush.blankLines branches.lines.length
    else branches.read (r.blankLine.blankLines body.lines.length)
  | .otherwise _ _ body _ _, r => (body.read r.blankLine).flush.blankLine
  | .endif _ _, r => r.blankLine

end

end

namespace Reading

variable {σ : Type} {f f' : Reading σ → Reading σ}

def IgnoresGroups (f : Reading σ → Reading σ) : Prop :=
  ∀ (r : Reading σ) (gs : List Group), r.place.isSkipping = false →
    (r.setGroups gs).place.isSkipping = false →
    f (r.setGroups gs) = (f r).setGroups gs

namespace IgnoresGroups

lemma groups (h : IgnoresGroups f) {r : Reading σ} (hr : r.place.isSkipping = false) :
    (f r).place.groups = r.place.groups :=
  congrArg (·.place.groups) (h r r.place.groups hr hr)

lemma isSkipping (h : IgnoresGroups f) {r : Reading σ} (hr : r.place.isSkipping = false) :
    (f r).place.isSkipping = false := by
  rw [Place.isSkipping, h.groups hr]
  exact hr

lemma comp (h' : IgnoresGroups f') (h : IgnoresGroups f) : IgnoresGroups fun r => f' (f r) := by
  intro r gs hr hg
  calc f' (f (r.setGroups gs)) = f' ((f r).setGroups gs) := by rw [h r gs hr hg]
    _ = (f' (f r)).setGroups gs := h' (f r) gs (h.isSkipping hr) hg

end IgnoresGroups

lemma ignoresGroups_blankLine : IgnoresGroups (blankLine : Reading σ → Reading σ) :=
  fun _ _ _ _ => rfl

lemma ignoresGroups_blankLines (n : Nat) : IgnoresGroups fun r : Reading σ => r.blankLines n := by
  induction n with
  | zero => exact fun _ _ _ _ => rfl
  | succ n ih => exact ih.comp ignoresGroups_blankLine

lemma ignoresGroups_flush : IgnoresGroups (flush : Reading σ → Reading σ) :=
  fun r gs _ _ => flush_setGroups r gs

lemma ignoresGroups_line (inc : Includer σ) (descent : Descent σ) {s : String}
    (hs : Role.ofLine s = .plain) : IgnoresGroups fun r => (r.line inc descent s).advance := by
  intro r gs hr hg
  exact congrArg advance (line_setGroups r gs hs hr hg)

end Reading

namespace Reading

variable {σ : Type} {inc : Includer σ} {descent : Descent σ}

lemma blankLines_add (r : Reading σ) (m n : Nat) :
    r.blankLines (m + n) = (r.blankLines m).blankLines n := by
  induction m generalizing r with
  | zero => rw [Nat.zero_add, blankLines]
  | succ m ih => rw [Nat.succ_add, blankLines, ih, blankLines]

lemma groups_blankLines (r : Reading σ) (n : Nat) :
    (r.blankLines n).place.groups = r.place.groups := by
  induction n generalizing r with
  | zero => rfl
  | succ n ih => exact ih r.blankLine

lemma held_blankLines (r : Reading σ) (n : Nat) : (r.blankLines n).place.held = r.place.held := by
  induction n generalizing r with
  | zero => rfl
  | succ n ih => exact ih r.blankLine

lemma blankLines_setGroups (r : Reading σ) (gs : List Group) (n : Nat) :
    (r.setGroups gs).blankLines n = (r.blankLines n).setGroups gs := by
  induction n generalizing r with
  | zero => rfl
  | succ n ih => exact ih r.blankLine

variable (inc descent)

lemma ignoresGroups_branch (body : Block) (branches : Branches)
    (hbody : IgnoresGroups (body.read inc descent))
    (hbranches : IgnoresGroups (branches.read inc descent)) (holds : Bool) :
    IgnoresGroups fun r =>
      if holds then (body.read inc descent r.blankLine).flush.blankLines branches.lines.length
      else branches.read inc descent (r.blankLine.blankLines body.lines.length) := by
  cases holds with
  | false => exact hbranches.comp ((ignoresGroups_blankLines _).comp ignoresGroups_blankLine)
  | true =>
    exact (ignoresGroups_blankLines _).comp
      (ignoresGroups_flush.comp (hbody.comp ignoresGroups_blankLine))

mutual

theorem ignoresGroups_block : ∀ b : Block, IgnoresGroups (b.read inc descent)
  | .nil => fun _ _ _ _ => by simp only [Block.read]
  | .line s hs rest => by
    have hline := ignoresGroups_line inc descent hs
    exact (ignoresGroups_block rest).comp hline
  | .group s opener args _ body branches rest => by
    intro r gs hr hg
    have hbranch := ignoresGroups_branch inc descent body branches (ignoresGroups_block body)
      (ignoresGroups_branches branches) (r.flush.opens opener args).1
    have hnext := (ignoresGroups_block rest).comp hbranch
    simp only [Block.read, flush_setGroups, opens_setGroups]
    refine hnext _ gs ?_ ?_
    · rw [place_opens, isSkipping_flush, hr]
    · exact hg

theorem ignoresGroups_branches : ∀ b : Branches, IgnoresGroups (b.read inc descent)
  | .elif s args _ body branches => by
    intro r gs hr hg
    have hnext := ignoresGroups_branch inc descent body branches (ignoresGroups_block body)
      (ignoresGroups_branches branches) (r.holds "#elif" args).1
    simp only [Branches.read, holds_setGroups]
    refine hnext _ gs ?_ hg
    rw [place_holds, hr]
  | .otherwise _ _ body _ _ =>
    ignoresGroups_blankLine.comp (ignoresGroups_flush.comp ((ignoresGroups_block body).comp
      ignoresGroups_blankLine))
  | .endif _ _ => ignoresGroups_blankLine

end

mutual

theorem lines_of_skipping :
    ∀ (b : Block) (r : Reading σ), r.place.isSkipping → r.place.held = none →
    r.lines inc descent b.lines = r.blankLines b.lines.length
  | .nil, _, _, _ => rfl
  | .line s hs rest, r, hr, hheld => by
    rw [Block.lines, lines_cons, line_of_skipping hs hr hheld]
    exact lines_of_skipping rest r.blankLine hr hheld
  | .group s opener args hs body branches rest, r, hr, hheld => by
    let g : Group := ⟨opener, r.place.line, false, false, false, false⟩
    -- behind the body, and behind the branches, where the groups are those of `r` again
    let r₂ := r.blankLine.blankLines body.lines.length
    let r₃ := r₂.blankLines branches.lines.length
    have hopen : (r.line inc descent s).advance = r.blankLine.setGroups (g :: r.place.groups) := by
      rw [line_of_role r (by simp [hs]), hs, flush_of_held hheld, divide, openGroup_of_skipping hr]
      rfl
    have hheld₂ : r₂.place.held = none := (held_blankLines r.blankLine _).trans hheld
    have hgroups₃ : r₃.place.groups = r.place.groups :=
      (groups_blankLines r₂ _).trans (groups_blankLines r.blankLine _)
    have hbody : (r.blankLine.setGroups (g :: r.place.groups)).lines inc descent body.lines =
        r₂.setGroups (g :: r.place.groups) := by
      rw [lines_of_skipping body (r.blankLine.setGroups (g :: r.place.groups)) rfl hheld,
        blankLines_setGroups]
    have hbranches :
        (r₂.setGroups (g :: r.place.groups)).lines inc descent branches.lines = r₃ := by
      rw [lines_of_spent branches r₂ g r.place.groups ⟨rfl, rfl⟩, flush_of_held hheld₂, ← hgroups₃,
        setGroups_self]
    have hrest : r₃.lines inc descent rest.lines = r₃.blankLines rest.lines.length := by
      refine lines_of_skipping rest r₃ ?_ ((held_blankLines r₂ _).trans hheld₂)
      rw [Place.isSkipping, hgroups₃]
      exact hr
    rw [Block.lines, lines_cons, hopen, lines_append, hbody, lines_append, hbranches, hrest,
      List.length_cons, List.length_append, List.length_append, blankLines, blankLines_add,
      blankLines_add]

theorem lines_of_spent : ∀ (b : Branches) (r : Reading σ) (g : Group) (gs : List Group), g.Spent →
    (r.setGroups (g :: gs)).lines inc descent b.lines =
      (r.flush.blankLines b.lines.length).setGroups gs
  | .elif s args hs body branches, r, g, gs, hg => by
    have hline : ((r.setGroups (g :: gs)).line inc descent s).advance =
        r.flush.blankLine.setGroups ({ g with active := false } :: gs) := by
      rw [divide_setGroups r _ (by simp [hs]), hs, divide, elif_of_spent _ _ hg]
      rfl
    have hbody :=
      lines_of_skipping body (r.flush.blankLine.setGroups ({ g with active := false } :: gs)) rfl
      (held_flush r)
    have hbranches := lines_of_spent branches (r.flush.blankLine.blankLines body.lines.length)
      { g with active := false } gs ⟨hg.closed, hg.seenElse⟩
    have hheld : (r.flush.blankLine.blankLines body.lines.length).place.held = none :=
      (held_blankLines _ _).trans (held_flush r)
    rw [blankLines_setGroups] at hbody
    rw [Branches.lines, lines_cons, hline, lines_append, hbody, hbranches, flush_of_held hheld,
      List.length_cons, List.length_append, blankLines, blankLines_add]
  | .otherwise s hs body close hc, r, g, gs, hg => by
    let g' : Group :=
      { g with active := g.parentActive && !g.taken, taken := true, seenElse := true }
    have hline : ((r.setGroups (g :: gs)).line inc descent s).advance =
        r.flush.blankLine.setGroups (g' :: gs) := by
      rw [divide_setGroups r _ (by simp [hs]), hs, divide, else_setGroups _ _ hg.seenElse]
      rfl
    have hskip : (r.flush.blankLine.setGroups (g' :: gs)).place.isSkipping := by
      simp [Place.isSkipping, setGroups, g', hg.closed]
    have hbody :=
      lines_of_skipping body (r.flush.blankLine.setGroups (g' :: gs)) hskip (held_flush r)
    have hheld : (r.flush.blankLine.blankLines body.lines.length).place.held = none :=
      (held_blankLines _ _).trans (held_flush r)
    rw [blankLines_setGroups] at hbody
    rw [Branches.lines, lines_cons, hline, lines_append, hbody, lines_cons,
      divide_setGroups _ _ (by simp [hc]), hc, flush_of_held hheld, List.length_cons,
      List.length_append, blankLines, blankLines_add]
    rfl
  | .endif s hs, r, g, gs, hg => by
    rw [Branches.lines, lines_cons, divide_setGroups r _ (by simp [hs]), hs]
    rfl

end

variable {inc descent} in
lemma line_of_group {r : Reading σ} (hr : r.place.isSkipping = false) {s : String} {opener : Opener}
    {args : List Token} (hs : Role.ofLine s = .opens opener args) :
    (r.line inc descent s).advance = (r.flush.opens opener args).2.blankLine.setGroups
      (⟨opener, (r.flush.opens opener args).2.place.line, true, (r.flush.opens opener args).1,
        (r.flush.opens opener args).1, false⟩ ::
          (r.flush.opens opener args).2.blankLine.place.groups) := by
  have hr' : r.flush.place.isSkipping = false := by rw [isSkipping_flush, hr]
  rw [line_of_role r (by simp [hs]), hs]
  simp only [divide, openGroup, hr', Bool.not_false, if_true]
  rfl

lemma lines_of_branch {body : Block} {branches : Branches} {r : Reading σ}
    (hr : r.place.isSkipping = false) (hheld : r.place.held = none)
    (hbody : ∀ r : Reading σ, r.place.isSkipping = false →
      r.lines inc descent body.lines = body.read inc descent r)
    (hbranches : ∀ r : Reading σ, r.place.isSkipping = false → r.place.held = none → ∀ opener l,
      (r.setGroups (⟨opener, l, true, false, false, false⟩ :: r.place.groups)).lines inc descent
        branches.lines =
        branches.read inc descent r) (opener : Opener) (l : LineNumber) (holds : Bool) :
    ((r.setGroups (⟨opener, l, true, holds, holds, false⟩ :: r.place.groups)).lines inc descent
      body.lines).lines
        inc descent branches.lines =
      if holds then (body.read inc descent r).flush.blankLines branches.lines.length
      else branches.read inc descent (r.blankLines body.lines.length) := by
  let g : Group := ⟨opener, l, true, holds, holds, false⟩
  cases holds with
  | true =>
    have hopen : (r.setGroups (g :: r.place.groups)).place.isSkipping = false := rfl
    have hread := ignoresGroups_block inc descent body
    have hrest :=
      lines_of_spent inc descent branches (body.read inc descent r) g r.place.groups ⟨rfl, rfl⟩
    have hgroups : ((body.read inc descent r).flush.blankLines branches.lines.length).place.groups =
        r.place.groups := by
      rw [groups_blankLines, groups_flush, hread.groups hr]
    rw [hbody _ hopen, hread r _ hr hopen, hrest, if_pos rfl, ← hgroups, setGroups_self]
  | false =>
    let r' := r.blankLines body.lines.length
    have hskipped : (r.setGroups (g :: r.place.groups)).lines inc descent body.lines =
        r'.setGroups (g :: r'.place.groups) := by
      rw [lines_of_skipping inc descent body (r.setGroups (g :: r.place.groups)) rfl hheld,
        blankLines_setGroups, groups_blankLines]
    have hr' : r'.place.isSkipping = false := by
      rw [Place.isSkipping, groups_blankLines]
      exact hr
    rw [hskipped, hbranches r' hr' ((held_blankLines r _).trans hheld)]
    rfl

mutual

theorem lines_of_block : ∀ (b : Block) (r : Reading σ), r.place.isSkipping = false →
    r.lines inc descent b.lines = b.read inc descent r
  | .nil, r, hr => by
    rw [Block.read, Block.lines]
    rfl
  | .line s hs rest, r, hr => by
    have hline := ignoresGroups_line inc descent hs
    rw [Block.lines, lines_cons, Block.read, lines_of_block rest _ (hline.isSkipping hr)]
  | .group s opener args hs body branches rest, r, hr => by
    let r' := (r.flush.opens opener args).2
    have hplace : r'.place = r.flush.place := place_opens r.flush opener args
    have hr' : r'.place.isSkipping = false := by rw [hplace, isSkipping_flush, hr]
    have hheld : r'.place.held = none := by rw [hplace, held_flush]
    have hgroup := lines_of_branch inc descent (r := r'.blankLine) hr' hheld (lines_of_block body)
      (lines_of_branches branches) opener r'.place.line (r.flush.opens opener args).1
    have hnext :=
      ignoresGroups_branch inc descent body branches (ignoresGroups_block inc descent body)
      (ignoresGroups_branches inc descent branches) (r.flush.opens opener args).1
    rw [Block.lines, lines_cons, line_of_group hr hs, lines_append, lines_append,
      hgroup, Block.read]
    exact lines_of_block rest _ (hnext.isSkipping hr')

theorem lines_of_branches :
    ∀ (b : Branches) (r : Reading σ), r.place.isSkipping = false → r.place.held = none →
    ∀ (opener : Opener) (l : LineNumber),
      (r.setGroups (⟨opener, l, true, false, false, false⟩ :: r.place.groups)).lines inc
        descent b.lines =
        b.read inc descent r
  | .elif s args hs body branches, r, hr, hheld, opener, l => by
    let r' := (r.holds "#elif" args).2
    have hplace : r'.place = r.place := place_holds r "#elif" args
    have hr' : r'.place.isSkipping = false := by rw [hplace, hr]
    have hline :
        ((r.setGroups (⟨opener, l, true, false, false, false⟩ :: r.place.groups)).line inc descent
          s).advance =
        r'.blankLine.setGroups
          (⟨opener, l, true, (r.holds "#elif" args).1, (r.holds "#elif" args).1, false⟩ ::
            r'.blankLine.place.groups) := by
      have hgroups : r'.place.groups = r.place.groups := by rw [hplace]
      rw [divide_setGroups r _ (by simp [hs]), hs, flush_of_held hheld, divide,
        elif_of_open, ← hgroups]
      rfl
    have hgroup :=
      lines_of_branch inc descent (r := r'.blankLine) hr' (by rw [← hheld, ← hplace]; rfl)
      (lines_of_block body) (lines_of_branches branches) opener l (r.holds "#elif" args).1
    rw [Branches.lines, lines_cons, hline, lines_append, hgroup, Branches.read]
  | .otherwise s hs body close hc, r, hr, hheld, opener, l => by
    let g : Group := ⟨opener, l, true, true, true, true⟩
    have hline :
        ((r.setGroups (⟨opener, l, true, false, false, false⟩ :: r.place.groups)).line inc descent
          s).advance =
        r.blankLine.setGroups (g :: r.place.groups) := by
      rw [divide_setGroups r _ (by simp [hs]), hs, flush_of_held hheld, divide,
        else_setGroups _ _ rfl]
      rfl
    have hopen : (r.blankLine.setGroups (g :: r.place.groups)).place.isSkipping = false := rfl
    have hread := ignoresGroups_block inc descent body
    have hgroups :
        (body.read inc descent r.blankLine).flush.blankLine.place.groups = r.place.groups :=
      (groups_flush _).trans (hread.groups hr)
    rw [Branches.lines, lines_cons, hline, lines_append, lines_of_block body _ hopen,
      hread r.blankLine _ hr hopen, lines_cons, divide_setGroups _ _ (by simp [hc]), hc,
      Branches.read]
    calc _ = (body.read inc descent r.blankLine).flush.blankLine.setGroups r.place.groups := rfl
      _ = (body.read inc descent r.blankLine).flush.blankLine := by rw [← hgroups, setGroups_self]
  | .endif s hs, r, hr, hheld, opener, l => by
    rw [Branches.lines, lines_cons, divide_setGroups r _ (by simp [hs]), hs, flush_of_held hheld,
      Branches.read]
    rfl

end

end Reading

section

variable {σ : Type} (inc : Includer σ) (descent : Descent σ)

theorem readUnit_of_block (run : Run σ) (depth : Nat) (source : Included) (file : Nat) (b : Block)
    (h : Text.lines (Text.clean source.content) = b.lines) :
    run.readUnit inc descent depth source file =
      (b.read inc descent ⟨{ name := source.name, depth, file }, run⟩).flush.run := by
  let r : Reading σ := ⟨{ name := source.name, depth, file }, run⟩
  have hread := Reading.ignoresGroups_block inc descent b
  have hgroups : (b.read inc descent r).flush.place.groups = [] := by
    rw [Reading.groups_flush, hread.groups (show r.place.isSkipping = false from rfl)]
  rw [Run.readUnit, h, Reading.lines_of_block inc descent b r rfl, Reading.close]
  simp only [hgroups]
  rfl

end

def nestedGroups : Block :=
  .group "#if 0" .condition [.number "0"] (by cbv)
    (.group "#if" .condition [] (by cbv) .nil (.endif "#endif" (by cbv)) .nil)
    (.elif "#elif 1" [.number "1"] (by cbv)
      (.group "#ifdef A" .defined [.ident "A"] (by cbv)
        (.line "int a;" (by cbv) .nil)
        (.otherwise "#else" (by cbv) (.line "int b;" (by cbv) .nil) "#endif" (by cbv)) .nil)
      (.elif "#elif" [] (by cbv) .nil (.endif "#endif" (by cbv))))
    .nil

theorem readUnit_of_nestedGroups :
    let source : Included :=
      ⟨"t", "#if 0\n#if\n#endif\n#elif 1\n#ifdef A\nint a;\n#else\nint b;\n#endif\n#elif\n#endif\n"⟩
    let inc : Includer Unit :=
      ⟨fun _ q => (.error (.notFound q.requested q.requesting), ()), fun _ => 0, id⟩
    let run : Run Unit := .start .default false ()
    Text.lines (Text.clean source.content) = nestedGroups.lines ∧
      run.readUnit inc none 0 source 0 =
        (nestedGroups.read inc none ⟨{ name := "t", depth := 0, file := 0 }, run⟩).flush.run ∧
      (run.readUnit inc none 0 source 0).faults = [] := by
  intro source inc run
  have h : Text.lines (Text.clean source.content) = nestedGroups.lines := by cbv
  exact ⟨h, readUnit_of_block inc none run 0 source 0 nestedGroups h, by cbv⟩

end ShaderPipeline.Preprocess
