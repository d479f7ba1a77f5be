import ShaderPipeline.Proofs.Preprocess.After

namespace ShaderPipeline.Preprocess

inductive Role
  | plain
  | opens (opener : Opener) (args : List Token)
  | elif (args : List Token)
  | otherwise
  | endif

def Role.ofName (name : String) (args : List Token) : Role :=
  match name with
  | "if" => .opens .condition args
  | "ifdef" => .opens .defined args
  | "ifndef" => .opens .undefined args
  | "elif" => .elif args
  | "else" => .otherwise
  | "endif" => .endif
  | _ => .plain

def Role.ofLine (s : String) : Role :=
  match directiveTokens? (Token.tokenize s) with
  | some (name :: args) => .ofName name.text (Token.trim args)
  | _ => .plain

structure Group.Spent (g : Group) : Prop where
  closed : (g.parentActive && !g.taken) = false
  seenElse : g.seenElse = false

namespace Reading

variable {σ : Type} {inc : Includer σ} {descent : Descent σ} (r : Reading σ) (gs : List Group)

def divide (r : Reading σ) : Role → Reading σ
  | .opens opener args => r.openGroup opener args
  | .elif args => r.elif args
  | .otherwise => r.elseBranch
  | .endif => r.endif
  | .plain => r

lemma directive_eq (name : String) (args : List Token) : r.directive inc descent name args =
    match Role.ofName name args with
    | .plain => if r.place.isSkipping then r.newline else r.activeDirective inc descent name args
    | role => r.divide role := by
  unfold directive Role.ofName
  split
  case h_7 => split <;> simp_all
  all_goals rfl

lemma line_of_role {s : String} (h : Role.ofLine s ≠ .plain) :
    r.line inc descent s = r.flush.divide (Role.ofLine s) := by
  rw [line]
  rcases hd : directiveTokens? (Token.tokenize s) with _ | _ | ⟨name, args⟩
  · exact (h (by rw [Role.ofLine, hd])).elim
  · exact (h (by rw [Role.ofLine, hd])).elim
  have hr : Role.ofLine s = .ofName name.text (Token.trim args) := by rw [Role.ofLine, hd]
  rw [hr] at h ⊢
  dsimp only
  rw [directive_eq]
  cases hn : Role.ofName name.text (Token.trim args) <;> first | rfl | exact (h hn).elim

lemma line_of_plain {s : String} (h : Role.ofLine s = .plain) : r.line inc descent s =
    match directiveTokens? (Token.tokenize s) with
    | some [] => r.flush.newline
    | some (name :: args) =>
      if r.flush.place.isSkipping then r.flush.newline
      else r.flush.activeDirective inc descent name.text (Token.trim args)
    | none => if r.place.isSkipping then r.newline else r.text (Token.tokenize s) := by
  simp only [line]
  rcases hd : directiveTokens? (Token.tokenize s) with _ | _ | ⟨name, args⟩
  · rfl
  · rfl
  · simp only [Role.ofLine, hd] at h
    simp only [directive_eq, h]

lemma setGroups_self : r.setGroups r.place.groups = r :=
  rfl

lemma run_setGroups : (r.setGroups gs).run = r.run :=
  rfl

lemma newline_setGroups : (r.setGroups gs).newline = r.newline.setGroups gs :=
  rfl

lemma flush_setGroups : (r.setGroups gs).flush = r.flush.setGroups gs := by
  have hheld : (r.setGroups gs).place.held = r.place.held := rfl
  simp only [flush, hheld, run_setGroups]
  rcases r.place.held with _ | h
  · rfl
  dsimp only
  cases r.run.table.expand h.builtins h.tokens <;> rfl

lemma text_setGroups (ts : List Token) : (r.setGroups gs).text ts = (r.text ts).setGroups gs := by
  have hh : (r.setGroups gs).extendHeld ts = r.extendHeld ts := rfl
  simp only [text, hh, run_setGroups]
  rcases r.run.table.expandOpen (r.extendHeld ts).builtins (r.extendHeld ts).tokens with e
    | _ | out <;> rfl

lemma define_setGroups (args : List Token) :
    (r.setGroups gs).define args = (r.define args).setGroups gs := by
  simp only [define, newline_setGroups, run_setGroups]
  rcases name? args with _ | name
  · rfl
  rcases macro? args.tail with _ | m
  · rfl
  dsimp only
  cases r.newline.run.table.define name m <;> rfl

lemma undef_setGroups (args : List Token) :
    (r.setGroups gs).undef args = (r.undef args).setGroups gs := by
  simp only [undef, newline_setGroups, run_setGroups]
  rcases name? args with _ | name
  · rfl
  dsimp only
  cases r.newline.run.table.undefine name <;> rfl

lemma declareVersion_setGroups (args : List Token) :
    (r.setGroups gs).declareVersion args = (r.declareVersion args).setGroups gs := by
  simp only [declareVersion, run_setGroups]
  by_cases hd : r.run.declared
  · simp only [hd, if_true]
  by_cases hf : r.run.forced
  · simp only [hd, hf, if_true]
    rfl
  simp only [hd, hf]
  cases Version.declared? (Version.directive ++ " " ++ Token.canonical args) <;> rfl

lemma version_setGroups (args : List Token) :
    (r.setGroups gs).version args = (r.version args).setGroups gs := by
  rcases args with _ | ⟨t, args⟩
  · rfl
  · simp only [version]
    split
    · exact declareVersion_setGroups (r.emit _) gs _
    · rfl

lemma extension_setGroups (args : List Token) :
    (r.setGroups gs).extension args = (r.extension args).setGroups gs := by
  simp only [extension]
  rcases extensionSetting args with e | ⟨name, behavior⟩
  · rfl
  · dsimp only
    split <;> rfl

lemma renumber_setGroups (args : List Token) :
    (r.setGroups gs).renumber args = (r.renumber args).setGroups gs := by
  have hb : (r.setGroups gs).builtins = r.builtins := rfl
  simp only [renumber, run_setGroups, hb]
  rcases r.run.table.expand r.builtins args with e | _ | ⟨t, rest⟩
  · rfl
  · rfl
  · dsimp only
    split <;> rfl

lemma includeFile_setGroups (name : String) (kind : IncludeKind) :
    (r.setGroups gs).includeFile inc descent name kind =
      (r.includeFile inc descent name kind).setGroups gs := by
  rcases descent with _ | descend
  · rfl
  have hn : (r.setGroups gs).place.name = r.place.name := rfl
  have hd : (r.setGroups gs).place.depth = r.place.depth := rfl
  simp only [includeFile, run_setGroups, hn, hd]
  rcases (inc.resolve r.run.includer ⟨name, kind, r.place.name, r.place.depth + 1⟩).1 with e
    | found <;> rfl

lemma inclusion_setGroups (args : List Token) :
    (r.setGroups gs).inclusion inc descent args = (r.inclusion inc descent args).setGroups gs := by
  simp only [inclusion, run_setGroups]
  by_cases he : r.run.includeEnabled
  · simp only [he, if_true]
    rcases includeTarget args with e | ⟨name, kind⟩
    · rfl
    · exact includeFile_setGroups r gs name kind
  · simp only [he]
    rfl

lemma activeDirective_setGroups (name : String) (args : List Token) :
    (r.setGroups gs).activeDirective inc descent name args =
      (r.activeDirective inc descent name args).setGroups gs := by
  unfold activeDirective
  split
  · exact define_setGroups r gs args
  · exact undef_setGroups r gs args
  · rfl
  · exact version_setGroups r gs args
  · exact extension_setGroups r gs args
  · rfl
  · exact renumber_setGroups r gs args
  · exact inclusion_setGroups r gs args
  · rfl

lemma groups_flush : r.flush.place.groups = r.place.groups :=
  congrArg (·.place.groups) (flush_setGroups r r.place.groups)

lemma isSkipping_flush : r.flush.place.isSkipping = r.place.isSkipping := by
  rw [Place.isSkipping, groups_flush, Place.isSkipping]

lemma line_setGroups {s : String} (hs : Role.ofLine s = .plain) (hr : r.place.isSkipping = false)
    (hg : (r.setGroups gs).place.isSkipping = false) :
    (r.setGroups gs).line inc descent s = (r.line inc descent s).setGroups gs := by
  have hr' : r.flush.place.isSkipping = false := by rw [isSkipping_flush, hr]
  have hg' : (r.flush.setGroups gs).place.isSkipping = false := hg
  rw [line_of_plain _ hs, line_of_plain _ hs]
  rcases directiveTokens? (Token.tokenize s) with _ | _ | ⟨name, args⟩
  · simp only [hr, hg, text_setGroups]
    rfl
  · simp only [flush_setGroups]
    rfl
  · simp only [flush_setGroups, hr', hg', activeDirective_setGroups]
    rfl

lemma flush_of_held {r : Reading σ} (h : r.place.held = none) : r.flush = r := by
  rw [flush, h]

lemma held_flush : r.flush.place.held = none := by
  rw [flush]
  rcases hheld : r.place.held with _ | h
  · exact hheld
  dsimp only
  cases r.run.table.expand h.builtins h.tokens <;> rfl

lemma line_of_skipping {r : Reading σ} {s : String} (hs : Role.ofLine s = .plain)
    (hr : r.place.isSkipping) (hheld : r.place.held = none) : r.line inc descent s = r.newline := by
  rw [line_of_plain _ hs, flush_of_held hheld]
  rcases directiveTokens? (Token.tokenize s) with _ | _ | ⟨name, args⟩ <;> simp [hr]

lemma divide_setGroups {s : String} (h : Role.ofLine s ≠ .plain) :
    (r.setGroups gs).line inc descent s = (r.flush.setGroups gs).divide (Role.ofLine s) := by
  rw [line_of_role _ h, flush_setGroups]

lemma openGroup_of_skipping {r : Reading σ} (hr : r.place.isSkipping) (opener : Opener)
    (args : List Token) :
    r.openGroup opener args =
      r.newline.setGroups (⟨opener, r.place.line, false, false, false, false⟩ ::
        r.place.groups) := by
  rw [openGroup, hr]
  rfl

lemma elif_of_spent {g : Group} (hg : g.Spent) (args : List Token) :
    (r.setGroups (g :: gs)).elif args = r.newline.setGroups ({ g with active := false } :: gs) := by
  have hgroups : (r.setGroups (g :: gs)).newline.place.groups = g :: gs := rfl
  simp only [elif, hgroups, hg.closed, hg.seenElse, Bool.false_eq_true, if_false, Bool.or_false]
  rfl

lemma else_setGroups {g : Group} (hg : g.seenElse = false) :
    (r.setGroups (g :: gs)).elseBranch = r.newline.setGroups
      ({ g with active := g.parentActive && !g.taken, taken := true, seenElse := true } :: gs) := by
  have hgroups : (r.setGroups (g :: gs)).newline.place.groups = g :: gs := rfl
  simp only [elseBranch, hgroups, hg]
  rfl

lemma holds_setGroups (d : String) (args : List Token) :
    (r.setGroups gs).holds d args = ((r.holds d args).1, (r.holds d args).2.setGroups gs) := by
  have hv : (r.setGroups gs).conditionValue args = r.conditionValue args := rfl
  rw [holds, holds, hv]
  cases r.conditionValue args <;> rfl

lemma isNameDefined_setGroups (d : String) (args : List Token) :
    (r.setGroups gs).isNameDefined d args = ((r.isNameDefined d args).1,
      (r.isNameDefined d args).2.setGroups gs) := by
  rw [isNameDefined, isNameDefined]
  cases name? args <;> rfl

lemma opens_setGroups (opener : Opener) (args : List Token) :
    (r.setGroups gs).opens opener args =
      ((r.opens opener args).1, (r.opens opener args).2.setGroups gs) := by
  cases opener with
  | condition => exact holds_setGroups r gs _ args
  | defined => exact isNameDefined_setGroups r gs _ args
  | undefined => simp only [opens, isNameDefined_setGroups]

lemma place_holds (d : String) (args : List Token) : (r.holds d args).2.place = r.place := by
  rw [holds]
  cases r.conditionValue args <;> rfl

lemma place_isNameDefined (d : String) (args : List Token) :
    (r.isNameDefined d args).2.place = r.place := by
  rw [isNameDefined]
  cases name? args <;> rfl

lemma place_opens (opener : Opener) (args : List Token) :
    (r.opens opener args).2.place = r.place := by
  cases opener with
  | condition => exact place_holds r _ args
  | defined | undefined => exact place_isNameDefined r _ args

lemma holds_newline (d : String) (args : List Token) :
    r.newline.holds d args = ((r.holds d args).1, (r.holds d args).2.newline) := by
  have hv : r.newline.conditionValue args = r.conditionValue args := rfl
  rw [holds, holds, hv]
  cases r.conditionValue args <;> rfl

lemma elif_of_open (opener : Opener) (l : LineNumber) (args : List Token) :
    (r.setGroups (⟨opener, l, true, false, false, false⟩ :: gs)).elif args =
      (r.holds "#elif" args).2.newline.setGroups
      (⟨opener, l, true, (r.holds "#elif" args).1, (r.holds "#elif" args).1, false⟩ :: gs) := by
  have hgroups : (r.newline.setGroups (⟨opener, l, true, false, false, false⟩ :: gs)).place.groups =
      ⟨opener, l, true, false, false, false⟩ :: gs := rfl
  simp only [elif, newline_setGroups, hgroups, Bool.false_eq_true, if_false, Bool.not_false,
    Bool.and_true, if_true, Bool.false_or, holds_setGroups, holds_newline]
  rfl

end Reading

end ShaderPipeline.Preprocess
