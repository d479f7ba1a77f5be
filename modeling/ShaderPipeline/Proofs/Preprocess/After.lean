import Mathlib.Tactic.Lemma
import ShaderPipeline.Preprocess

/-! How a run goes on does not depend on what it has written and reported so far. -/

namespace ShaderPipeline.Preprocess

variable {σ : Type} {inc : Includer σ} {descent : Descent σ}

lemma renderAll_append (xs ys : List Item) :
    Item.renderAll (xs ++ ys) = Item.renderAll xs ++ Item.renderAll ys := by
  rw [Item.renderAll, List.map_append, String.join_append, Item.renderAll, Item.renderAll]

lemma renderAll_singleton (x : Item) : Item.renderAll [x] = x.render := by
  rw [Item.renderAll, List.map_singleton, String.join_cons, String.join_nil, String.append_empty]

def Run.after (run : Run σ) (xs : List Item) (fs : List Fault) : Run σ :=
  { run with items := xs.toArray ++ run.items, faults := fs ++ run.faults }

lemma Run.out_after (run : Run σ) (xs : List Item) (fs : List Fault) :
    (run.after xs fs).out = Item.renderAll xs ++ run.out := by
  rw [out, out, ← renderAll_append, after, Array.toList_append]

lemma Run.log_after (run : Run σ) (xs : List Item) : (run.after xs []).log = run.log := by
  rw [log, log, after, List.nil_append]

lemma Run.emit_after (run : Run σ) (xs : List Item) (fs : List Fault) (x : Item) :
    (run.after xs fs).emit x = (run.emit x).after xs fs := by
  simp [after, emit]

def GoesAfter (descent : Descent σ) (xs : List Item) (fs : List Fault) : Prop :=
  ∀ descend, descent = some descend → ∀ source file run,
    descend source file (Run.after run xs fs) = (descend source file run).after xs fs

namespace Reading

lemma lines_cons (r : Reading σ) (s : String) (ss : List String) :
    r.lines inc descent (s :: ss) = (r.line inc descent s).advance.lines inc descent ss :=
  rfl

lemma lines_append (r : Reading σ) (ss ss' : List String) :
    r.lines inc descent (ss ++ ss') = (r.lines inc descent ss).lines inc descent ss' :=
  List.foldl_append

def after (r : Reading σ) (xs : List Item) (fs : List Fault) : Reading σ :=
  { r with run := r.run.after xs fs }

variable (r : Reading σ) (xs : List Item) (fs : List Fault) (args : List Token)

lemma run_after : (r.after xs fs).run = r.run.after xs fs :=
  rfl

lemma emit_after (x : Item) : (r.after xs fs).emit x = (r.emit x).after xs fs :=
  congrArg (Reading.mk r.place) (r.run.emit_after xs fs x)

lemma newline_after : (r.after xs fs).newline = r.newline.after xs fs :=
  emit_after r xs fs .blank

lemma fault_after (d : String) (c : Cause) :
    (r.after xs fs).fault d c = (r.fault d c).after xs fs := by
  simp [after, Run.after, fault]

lemma holds_after (d : String) :
    (r.after xs fs).holds d args = ((r.holds d args).1, (r.holds d args).2.after xs fs) := by
  have hv : (r.after xs fs).conditionValue args = r.conditionValue args := rfl
  rw [holds, holds, hv]
  cases r.conditionValue args with
  | ok v => rfl
  | error e => simp only [fault_after]

lemma isNameDefined_after (d : String) : (r.after xs fs).isNameDefined d args =
    ((r.isNameDefined d args).1, (r.isNameDefined d args).2.after xs fs) := by
  rw [isNameDefined, isNameDefined]
  cases name? args with
  | none => simp only [fault_after]
  | some name => rfl

lemma opens_after (opener : Opener) : (r.after xs fs).opens opener args =
    ((r.opens opener args).1, (r.opens opener args).2.after xs fs) := by
  cases opener with
  | condition => exact holds_after r xs fs args _
  | defined => exact isNameDefined_after r xs fs args _
  | undefined => simp only [opens, isNameDefined_after]

lemma openGroup_after (opener : Opener) :
    (r.after xs fs).openGroup opener args = (r.openGroup opener args).after xs fs := by
  have hs : (r.after xs fs).place.isSkipping = r.place.isSkipping := rfl
  simp only [openGroup, hs, opens_after]
  cases r.place.isSkipping with
  | true => exact newline_after (r.setGroups _) xs fs
  | false => exact newline_after ((r.opens opener args).2.setGroups _) xs fs

lemma elif_after : (r.after xs fs).elif args = (r.elif args).after xs fs := by
  simp only [elif, newline_after]
  have hg : (r.newline.after xs fs).place.groups = r.newline.place.groups := rfl
  rw [hg]
  rcases r.newline.place.groups with _ | ⟨g, gs⟩
  · exact fault_after _ xs fs _ _
  · dsimp only
    have hf : (if g.seenElse then (r.newline.after xs fs).fault "#elif" .elifAfterElse
        else r.newline.after xs fs) =
        (if g.seenElse then r.newline.fault "#elif" .elifAfterElse else r.newline).after xs fs := by
      split
      · exact fault_after _ xs fs _ _
      · rfl
    rw [hf]
    generalize (if g.seenElse then r.newline.fault "#elif" .elifAfterElse else r.newline) = r'
    cases g.parentActive && !g.taken with
    | true => simp only [if_true, holds_after]; rfl
    | false => rfl

lemma else_after : (r.after xs fs).elseBranch = r.elseBranch.after xs fs := by
  simp only [elseBranch, newline_after]
  have hg : (r.newline.after xs fs).place.groups = r.newline.place.groups := rfl
  rw [hg]
  rcases r.newline.place.groups with _ | ⟨g, gs⟩
  · exact fault_after _ xs fs _ _
  · dsimp only
    split
    · exact fault_after (r.newline.setGroups _) xs fs _ _
    · rfl

lemma endif_after : (r.after xs fs).endif = r.endif.after xs fs := by
  simp only [endif, newline_after]
  have hg : (r.newline.after xs fs).place.groups = r.newline.place.groups := rfl
  rw [hg]
  rcases r.newline.place.groups with _ | ⟨g, gs⟩
  · exact fault_after _ xs fs _ _
  · rfl

lemma fault_newline_after (d : String) (c : Cause) :
    ((r.after xs fs).fault d c).newline = (r.fault d c).newline.after xs fs := by
  rw [fault_after, newline_after]

lemma define_after : (r.after xs fs).define args = (r.define args).after xs fs := by
  simp only [define, newline_after]
  rcases name? args with _ | name
  · exact fault_after _ xs fs _ _
  rcases macro? args.tail with _ | m
  · exact fault_after _ xs fs _ _
  dsimp only
  have ht : (r.newline.after xs fs).run.table = r.newline.run.table := rfl
  rw [ht]
  cases r.newline.run.table.define name m with
  | ok t => rfl
  | error e => exact fault_after _ xs fs _ _

lemma undef_after : (r.after xs fs).undef args = (r.undef args).after xs fs := by
  simp only [undef, newline_after]
  rcases name? args with _ | name
  · exact fault_after _ xs fs _ _
  dsimp only
  have ht : (r.newline.after xs fs).run.table = r.newline.run.table := rfl
  rw [ht]
  cases r.newline.run.table.undefine name with
  | ok t => rfl
  | error e => exact fault_after _ xs fs _ _

lemma declareVersion_after :
    (r.after xs fs).declareVersion args = (r.declareVersion args).after xs fs := by
  have hd : (r.after xs fs).run.declared = r.run.declared := rfl
  have hf : (r.after xs fs).run.forced = r.run.forced := rfl
  simp only [declareVersion, hd, hf]
  split
  · rfl
  split
  · rfl
  · cases Version.declared? (Version.directive ++ " " ++ Token.canonical args) <;> rfl

lemma version_after : (r.after xs fs).version args = (r.version args).after xs fs := by
  rcases args with _ | ⟨t, args⟩
  · exact fault_newline_after r xs fs _ _
  · simp only [version]
    split
    · rw [emit_after, declareVersion_after]
    · exact fault_newline_after r xs fs _ _

lemma extension_after : (r.after xs fs).extension args = (r.extension args).after xs fs := by
  simp only [extension]
  rcases extensionSetting args with e | ⟨name, behavior⟩
  · exact fault_newline_after r xs fs _ _
  · dsimp only
    split
    · exact emit_after (r.setIncludes _) xs fs _
    · exact emit_after r xs fs _

lemma renumber_after : (r.after xs fs).renumber args = (r.renumber args).after xs fs := by
  have ht : (r.after xs fs).run.table = r.run.table := rfl
  have hb : (r.after xs fs).builtins = r.builtins := rfl
  simp only [renumber, ht, hb]
  rcases r.run.table.expand r.builtins args with e | _ | ⟨t, rest⟩
  · exact fault_newline_after r xs fs _ _
  · exact fault_newline_after r xs fs _ _
  · dsimp only
    split
    · exact emit_after { r with place := { r.place with renumber := _ } } xs fs _
    · exact fault_newline_after r xs fs _ _

lemma enter_after {descend : Included → Nat → Run σ → Run σ} (hd : GoesAfter (some descend) xs fs)
    (found : Included) :
    (r.after xs fs).enter descend found = (r.enter descend found).after xs fs := by
  let run : Run σ := { r.run with files := r.run.files + 1 }
  let x : Item := .enter run.nextLine found
  let entered := fun run' : Run σ => descend found run.files run'
  change Reading.mk r.place ((entered ((run.after xs fs).emit x)).emit
    (.leave (entered ((run.after xs fs).emit x)).nextLine r.place.line r.place.name)) = _
  rw [Run.emit_after, show entered ((run.emit x).after xs fs) = (entered (run.emit x)).after xs fs
    from hd _ rfl _ _ _]
  exact congrArg (Reading.mk r.place) (Run.emit_after _ xs fs _)

lemma includeFile_after (hd : GoesAfter descent xs fs) (name : String) (kind : IncludeKind) :
    (r.after xs fs).includeFile inc descent name kind =
      (r.includeFile inc descent name kind).after xs fs := by
  rcases descent with _ | descend
  · exact fault_newline_after r xs fs _ _
  let asked : Reading σ := { r with run := { r.run with
    includer := (inc.resolve r.run.includer ⟨name, kind, r.place.name, r.place.depth + 1⟩).2 } }
  have hb : (r.after xs fs).run.includer = r.run.includer := rfl
  have hp : (r.after xs fs).place = r.place := rfl
  simp only [includeFile, hb, hp]
  rcases (inc.resolve r.run.includer ⟨name, kind, r.place.name, r.place.depth + 1⟩).1 with e | found
  · exact fault_newline_after asked xs fs _ _
  · exact enter_after asked xs fs hd found

lemma inclusion_after (hd : GoesAfter descent xs fs) :
    (r.after xs fs).inclusion inc descent args = (r.inclusion inc descent args).after xs fs := by
  have he : (r.after xs fs).run.includeEnabled = r.run.includeEnabled := rfl
  simp only [inclusion, he]
  split
  · rcases includeTarget args with e | ⟨name, kind⟩
    · exact fault_newline_after r xs fs _ _
    · exact includeFile_after r xs fs hd name kind
  · exact fault_newline_after r xs fs _ _

lemma activeDirective_after (hd : GoesAfter descent xs fs) (name : String) :
    (r.after xs fs).activeDirective inc descent name args =
      (r.activeDirective inc descent name args).after xs fs := by
  unfold activeDirective
  split
  · exact define_after r xs fs args
  · exact undef_after r xs fs args
  · exact fault_newline_after r xs fs _ _
  · exact version_after r xs fs args
  · exact extension_after r xs fs args
  · exact emit_after r xs fs _
  · exact renumber_after r xs fs args
  · exact inclusion_after r xs fs args hd
  · exact fault_newline_after r xs fs _ _

lemma directive_after (hd : GoesAfter descent xs fs) (name : String) :
    (r.after xs fs).directive inc descent name args =
      (r.directive inc descent name args).after xs fs := by
  have hs : (r.after xs fs).place.isSkipping = r.place.isSkipping := rfl
  unfold directive
  split
  · exact openGroup_after r xs fs args _
  · exact openGroup_after r xs fs args _
  · exact openGroup_after r xs fs args _
  · exact elif_after r xs fs args
  · exact else_after r xs fs
  · exact endif_after r xs fs
  · rw [hs]
    split
    · exact newline_after r xs fs
    · exact activeDirective_after r xs fs args hd name

lemma text_after (ts : List Token) : (r.after xs fs).text ts = (r.text ts).after xs fs := by
  have hh : (r.after xs fs).extendHeld ts = r.extendHeld ts := rfl
  have ht : (r.after xs fs).run.table = r.run.table := rfl
  simp only [text, hh, ht]
  rcases r.run.table.expandOpen (r.extendHeld ts).builtins (r.extendHeld ts).tokens with e | _ | out
  · change (((r.release.after xs fs).fault _ _).emit _) = _
    rw [fault_after, emit_after]
    rfl
  · rfl
  · exact emit_after r.release xs fs _

lemma flush_after : (r.after xs fs).flush = r.flush.after xs fs := by
  have hh : (r.after xs fs).place.held = r.place.held := rfl
  have ht : (r.after xs fs).run.table = r.run.table := rfl
  simp only [flush, hh, ht]
  rcases r.place.held with _ | h
  · rfl
  dsimp only
  rcases r.run.table.expand h.builtins h.tokens with e | out
  · change (((r.release.after xs fs).fault _ _).emit _) = _
    rw [fault_after, emit_after]
    rfl
  · exact emit_after r.release xs fs _

lemma line_after (hd : GoesAfter descent xs fs) (s : String) :
    (r.after xs fs).line inc descent s = (r.line inc descent s).after xs fs := by
  have hs : (r.after xs fs).place.isSkipping = r.place.isSkipping := rfl
  simp only [line, hs, flush_after]
  rcases directiveTokens? (Token.tokenize s) with _ | _ | ⟨name, args⟩
  · dsimp only
    split
    · exact newline_after r xs fs
    · exact text_after r xs fs _
  · exact newline_after r.flush xs fs
  · exact directive_after r.flush xs fs _ hd _

lemma lines_after (hd : GoesAfter descent xs fs) (ss : List String) :
    (r.after xs fs).lines inc descent ss = (r.lines inc descent ss).after xs fs := by
  induction ss generalizing r with
  | nil => rfl
  | cons s ss ih =>
    rw [lines_cons, line_after r xs fs hd]
    exact ih (r.line inc descent s).advance

lemma close_after : (r.after xs fs).close = r.close.after xs fs := by
  have hg : (r.flush.after xs fs).place.groups = r.flush.place.groups := rfl
  simp only [close, flush_after, hg]
  rcases r.flush.place.groups with _ | ⟨g, gs⟩
  · rfl
  · exact fault_after ⟨{ r.flush.place with line := g.line, groups := g :: gs },
      r.flush.run⟩ xs fs _ _

end Reading

namespace Run

variable (run : Run σ) (xs : List Item) (fs : List Fault)

lemma readUnit_after (hd : GoesAfter descent xs fs) (depth : Nat) (source : Included) (file : Nat) :
    (run.after xs fs).readUnit inc descent depth source file =
      (run.readUnit inc descent depth source file).after xs fs := by
  let r : Reading σ := ⟨{ name := source.name, depth, file }, run⟩
  have hlines := @Reading.lines_after _ inc _ r xs fs hd (Text.lines (Text.clean source.content))
  have hread : ∀ run : Run σ, run.readUnit inc descent depth source file = (Reading.lines
    ⟨{ name := source.name, depth, file }, run⟩ inc descent
      (Text.lines (Text.clean source.content))).close.run :=
    fun _ => rfl
  rw [hread, hread, ← Reading.run_after, ← Reading.close_after, ← hlines]
  rfl

theorem unit_after (inc : Includer σ) (levels : Nat) (source : Included) (file : Nat) :
    unit inc levels source file (run.after xs fs) =
      (unit inc levels source file run).after xs fs := by
  induction levels generalizing source file run with
  | zero =>
    rw [unit, unit]
    exact readUnit_after run xs fs (by rintro descend ⟨⟩) _ source file
  | succ levels ih =>
    rw [unit, unit]
    refine readUnit_after run xs fs ?_ _ source file
    rintro descend ⟨⟩ source file run
    exact ih run source file

def cleared (run : Run σ) : Run σ :=
  { run with items := #[], faults := [] }

lemma after_cleared : run.cleared.after run.items.toList run.faults = run := by
  simp [cleared, after]

lemma exists_readUnit_goesAfter (inc : Includer σ) (levels : Nat) (source : Included) (file : Nat) :
    ∃ descent depth, (∀ xs fs, GoesAfter descent xs fs) ∧
      unit inc levels source file run = run.readUnit inc descent depth source file := by
  cases levels with
  | zero =>
    refine ⟨none, maxIncludeDepth, ?_, by rw [unit]⟩
    rintro xs fs descend ⟨⟩
  | succ levels =>
    refine ⟨some (unit inc levels), maxIncludeDepth - (levels + 1), ?_, by rw [unit]⟩
    rintro xs fs descend ⟨⟩ source file run
    exact unit_after run xs fs inc levels source file

end Run

lemma Reading.out_lines_close (hd : ∀ xs fs, GoesAfter descent xs fs) (r : Reading σ)
    (ss : List String) : ∃ more, (r.lines inc descent ss).close.run.out = r.run.out ++ more := by
  let first : Reading σ := ⟨r.place, r.run.cleared⟩
  have hfirst : first.after r.run.items.toList r.run.faults = r :=
    congrArg (mk r.place) r.run.after_cleared
  have hlines : (r.lines inc descent ss).close =
      (first.lines inc descent ss).close.after r.run.items.toList r.run.faults := by
    rw [← close_after, ← lines_after first _ _ (hd _ _), hfirst]
  exact ⟨(first.lines inc descent ss).close.run.out,
    by rw [hlines, run_after, Run.out_after, ← Run.out]⟩

end ShaderPipeline.Preprocess
