import ShaderPipeline.Proofs.Preprocess.Groups
import ShaderPipeline.Proofs.Preprocess.TextRun

/-! What a line can do to a reading, act by act, and the induction over whole runs that follows from
it. -/

namespace ShaderPipeline.Preprocess

def numbered? : List Token → Option (List Token)
  | t :: rest => if t.kind = .number then some (t :: rest) else none
  | [] => none

def versionArgs? (s : String) : Option (List Token) :=
  match directiveTokens? (Token.tokenize s) with
  | some (name :: args) => if name.text = "version" then numbered? (Token.trim args) else none
  | _ => none

namespace Reading

variable {σ : Type}

def versionRead? (r : Reading σ) (s : String) : Option (List Token) :=
  if r.place.isSkipping then none else versionArgs? s

def IsPending (r : Reading σ) (h : Held) : Prop :=
  r.place.held = some h ∨ ∃ ts, h = r.extendHeld ts

def request (r : Reading σ) (name : String) (kind : IncludeKind) : IncludeRequest :=
  ⟨name, kind, r.place.name, r.place.depth + 1⟩

def ask (r : Reading σ) (inc : Includer σ) (q : IncludeRequest) : Reading σ :=
  { r with run := { r.run with includer := (inc.resolve r.run.includer q).2 } }

def continueAt (r : Reading σ) (line : LineNumber) : Reading σ :=
  { r with place := { r.place with renumber := some line } }

def report (r : Reading σ) (g : Group) : Reading σ :=
  { r with place := { r.place with line := g.line } }.fault g.opener.directive .missingEndif

/-- What is done at once. Of version directives only those in `V` are processed. -/
inductive Act (inc : Includer σ) (descent : Descent σ) (V : List Token → Prop) :
    Reading σ → Reading σ → Prop
  | fault (r : Reading σ) (directive : String) (cause : Cause) :
      Act inc descent V r (r.fault directive cause)
  | blank (r : Reading σ) : Act inc descent V r r.newline
  | groups (r : Reading σ) (gs : List Group) : Act inc descent V r (r.setGroups gs)
  | define {r : Reading σ} {name : String} {m : Macro} {table : Macro.Table} :
      r.run.table.define name m = .ok table → Act inc descent V r (r.setTable table)
  | undefine {r : Reading σ} {name : String} {table : Macro.Table} :
      r.run.table.undefine name = .ok table → Act inc descent V r (r.setTable table)
  | version (r : Reading σ) {t : Token} (args : List Token) :
      t.kind = .number → V (t :: args) →
      Act inc descent V r ((r.emit (.version (t :: args))).declareVersion (t :: args))
  | includes (r : Reading σ) (enabled : Bool) : Act inc descent V r (r.setIncludes enabled)
  | extension (r : Reading σ) (name : String) (behavior : Behavior) :
      Act inc descent V r (r.emit (.extension name behavior))
  | pragma (r : Reading σ) (args : List Token) :
      Act inc descent V r (r.emit (.pragma r.place.line args))
  | renumber (r : Reading σ) {t : Token} {line : LineNumber} (args : List Token) :
      t.kind = .number →
      (LineNumber.ofText t.text).following r.run.nextLine = line →
      Act inc descent V r ((r.continueAt line).emit (.renumber r.run.nextLine line (t :: args)))
  | hold (r : Reading σ) (ts : List Token) : Act inc descent V r (r.hold (r.extendHeld ts))
  | write {r : Reading σ} {h : Held} (out : List Token) :
      r.IsPending h → Act inc descent V r (r.release.writeText out h.lines)
  | missed {r : Reading σ} {name : String} {kind : IncludeKind} {e : IncludeError} :
      (inc.resolve r.run.includer (r.request name kind)).1 = .error e →
      Act inc descent V r (((r.ask inc (r.request name kind)).fault "#include"
        (.inclusion e)).newline)
  | entered {r : Reading σ} {name : String} {kind : IncludeKind} {found : Included}
      {descend : Included → Nat → Run σ → Run σ} : descent = some descend →
      (inc.resolve r.run.includer (r.request name kind)).1 = .ok found →
      Act inc descent V r ((r.ask inc (r.request name kind)).enter descend found)
  | advance (r : Reading σ) : Act inc descent V r r.advance

variable {inc : Includer σ} {descent : Descent σ} {V : List Token → Prop}

abbrev Acts (inc : Includer σ) (descent : Descent σ) (V : List Token → Prop) :
    Reading σ → Reading σ → Prop :=
  Relation.ReflTransGen (Act inc descent V)

open Relation.ReflTransGen

variable (r : Reading σ) (args : List Token)

lemma acts_holds (d : String) : Acts inc descent V r (r.holds d args).2 := by
  rw [holds]
  cases r.conditionValue args with
  | ok v => exact refl
  | error cause => exact single (.fault r d cause)

lemma acts_isNameDefined (d : String) : Acts inc descent V r (r.isNameDefined d args).2 := by
  rw [isNameDefined]
  cases name? args with
  | some name => exact refl
  | none => exact single (.fault r d _)

lemma acts_opens (opener : Opener) : Acts inc descent V r (r.opens opener args).2 := by
  cases opener with
  | condition => exact acts_holds r args _
  | defined | undefined => exact acts_isNameDefined r args _

lemma acts_openGroup (opener : Opener) : Acts inc descent V r (r.openGroup opener args) := by
  simp only [openGroup]
  split
  · exact ((acts_opens r args opener).tail (.groups _ _)).tail (.blank _)
  · exact (single (.groups r _)).tail (.blank _)

lemma acts_elif : Acts inc descent V r (r.elif args) := by
  refine head (.blank r) ?_
  simp only [elif]
  split
  · exact single (.fault _ _ _)
  rename_i g gs hg
  have hfault : Acts inc descent V r.newline
      (if g.seenElse then r.newline.fault "#elif" .elifAfterElse else r.newline) := by
    split
    · exact single (.fault _ _ _)
    · exact refl
  refine (hfault.trans ?_).tail (.groups _ _)
  generalize (if g.seenElse then r.newline.fault "#elif" .elifAfterElse else r.newline) = r'
  split
  · exact acts_holds _ _ _
  · exact refl

lemma acts_else : Acts inc descent V r r.elseBranch := by
  refine head (.blank r) ?_
  simp only [elseBranch]
  split
  · exact single (.fault _ _ _)
  split
  · exact (single (.groups _ _)).tail (.fault _ _ _)
  · exact single (.groups _ _)

lemma acts_endif : Acts inc descent V r r.endif := by
  refine head (.blank r) ?_
  simp only [endif]
  split
  · exact single (.fault _ _ _)
  · exact single (.groups _ _)

lemma acts_fault_newline (d : String) (c : Cause) : Acts inc descent V r (r.fault d c).newline :=
  (single (.fault r d c)).tail (.blank _)

lemma acts_define : Acts inc descent V r (r.define args) := by
  refine head (.blank r) ?_
  simp only [define]
  split
  · exact single (.fault _ _ _)
  split
  · exact single (.fault _ _ _)
  split
  · rename_i t ht
    exact single (.define ht)
  · exact single (.fault _ _ _)

lemma acts_undef : Acts inc descent V r (r.undef args) := by
  refine head (.blank r) ?_
  simp only [undef]
  split
  · exact single (.fault _ _ _)
  split
  · rename_i t ht
    exact single (.undefine ht)
  · exact single (.fault _ _ _)

lemma acts_version (hV : ∀ version, numbered? args = some version → V version) :
    Acts inc descent V r (r.version args) := by
  simp only [version]
  split
  · split
    · rename_i t rest ht
      exact single (.version r rest ht (hV _ (if_pos ht)))
    · exact acts_fault_newline r _ _
  · exact acts_fault_newline r _ _

lemma acts_extension : Acts inc descent V r (r.extension args) := by
  rw [extension]
  split
  · exact acts_fault_newline r _ _
  · dsimp only
    split
    · exact (single (.includes r _)).tail (.extension _ _ _)
    · exact single (.extension r _ _)

lemma acts_renumber : Acts inc descent V r (r.renumber args) := by
  rw [renumber]
  split
  · exact acts_fault_newline r _ _
  · split
    · split
      · rename_i t rest _ ht
        exact single (.renumber r rest ht rfl)
      · exact acts_fault_newline r _ _
    · exact acts_fault_newline r _ _

lemma acts_inclusion : Acts inc descent V r (r.inclusion inc descent args) := by
  rw [inclusion]
  split
  · split
    · exact acts_fault_newline r _ _
    · simp only [includeFile]
      split
      · exact acts_fault_newline r _ _
      · split
        · rename_i e he
          exact single (.missed he)
        · rename_i found hf
          exact single (.entered rfl hf)
  · exact acts_fault_newline r _ _

lemma acts_directive (name : String) (hV : r.place.isSkipping = false → name = "version" →
    ∀ version, numbered? args = some version → V version) :
    Acts inc descent V r (r.directive inc descent name args) := by
  simp only [directive]
  split
  · exact acts_openGroup r args _
  · exact acts_openGroup r args _
  · exact acts_openGroup r args _
  · exact acts_elif r args
  · exact acts_else r
  · exact acts_endif r
  split
  · exact single (.blank r)
  rename_i hreading
  simp only [activeDirective]
  split
  · exact acts_define r args
  · exact acts_undef r args
  · exact acts_fault_newline r _ _
  · exact acts_version r args (hV (Bool.eq_false_iff.mpr hreading) rfl)
  · exact acts_extension r args
  · exact single (.pragma r args)
  · exact acts_renumber r args
  · exact acts_inclusion r args
  · exact acts_fault_newline r _ _

lemma acts_text : Acts inc descent V r (r.text args) := by
  have hstep := textStep r args
  generalize r.text args = r' at hstep
  cases hstep with
  | written out => exact single (.write out (.inr ⟨args, rfl⟩))
  | held => exact single (.hold r args)
  | failed e => exact head (.fault r _ _) (single (.write (r := r.fault _ _) _ (.inr ⟨args, rfl⟩)))

lemma acts_flush : Acts inc descent V r r.flush := by
  rw [flush]
  cases hh : r.place.held with
  | none => exact refl
  | some h =>
    dsimp only
    cases r.run.table.expand h.builtins h.tokens with
    | ok out => exact single (.write out (.inl hh))
    | error e => exact head (.fault r _ _) (single (.write (r := r.fault _ _) _ (.inl hh)))

lemma acts_line (s : String) (hV : ∀ version, r.versionRead? s = some version → V version) :
    Acts inc descent V r (r.line inc descent s) := by
  simp only [line]
  split
  · exact (acts_flush r).tail (.blank _)
  · rename_i name rest hd
    refine (acts_flush r).trans (acts_directive _ _ _ fun hreading hname version hversion =>
      hV version ?_)
    rw [isSkipping_flush] at hreading
    rw [versionRead?, hreading, if_neg Bool.false_ne_true, versionArgs?, hd]
    exact (if_pos hname).trans hversion
  · split
    · exact single (.blank r)
    · exact acts_text r _

theorem acts_lines (ss : List String) :
    Acts inc descent (fun _ => True) r (r.lines inc descent ss) := by
  induction ss generalizing r with
  | nil => exact refl
  | cons s ss ih => exact ((acts_line r s fun _ _ => trivial).tail (.advance _)).trans (ih _)

end Reading

namespace Run

variable {σ : Type} {inc : Includer σ}

/-- What holds of a run wherever a unit begins and ends in it, with what holds of each reading in
between. An act may read a whole file, of which the same is known. -/
structure Invariant (inc : Includer σ) (P : Run σ → Prop) (Q : Reading σ → Prop) : Prop where
  start (name : String) (depth file : Nat) (run : Run σ) : P run → Q ⟨{ name, depth, file }, run⟩
  act (descent : Descent σ) (r r' : Reading σ) :
    (∀ descend, descent = some descend → ∀ source file run, P run → P (descend source file run)) →
    Q r → Reading.Act inc descent (fun _ => True) r r' → Q r'
  finish (r : Reading σ) : Q r → P r.run
  report (r : Reading σ) (g : Group) : Q r → P (r.report g).run

namespace Invariant

variable {P : Run σ → Prop} {Q : Reading σ → Prop}

lemma readUnit (h : Invariant inc P Q) {descent : Descent σ}
    (hd : ∀ descend, descent = some descend → ∀ source file run, P run →
      P (descend source file run)) {run : Run σ}
    (hrun : P run) (depth : Nat) (source : Included) (file : Nat) :
      P (run.readUnit inc descent depth source file) := by
  have hacts : ∀ r r', Reading.Acts inc descent (fun _ => True) r r' → Q r → Q r' := by
    intro r r' hacts hr
    induction hacts with
    | refl => exact hr
    | tail _ hact ih => exact h.act descent _ _ hd ih hact
  have hlines := hacts _ _ (Reading.acts_lines _ (Text.lines (Text.clean source.content)))
    (h.start source.name depth file run hrun)
  have hflush := hacts _ _ (Reading.acts_flush _) hlines
  rw [Run.readUnit, Reading.close]
  dsimp only
  split
  · exact h.finish _ hflush
  · exact h.report _ _ hflush

theorem unit (h : Invariant inc P Q) (levels : Nat) (source : Included) (file : Nat) {run : Run σ}
    (hrun : P run) : P (Run.unit inc levels source file run) := by
  induction levels generalizing source file run with
  | zero => exact h.readUnit (by rintro descend ⟨⟩) hrun _ source file
  | succ levels ih =>
    refine h.readUnit ?_ hrun _ source file
    rintro descend ⟨⟩ source file run hrun
    exact ih source file hrun

theorem finalRun (h : Invariant inc P Q) (request : Request) (includer : σ)
    (hstart : P (Run.start request.version request.forced includer)) :
    P (finalRun inc request includer) :=
  have hpreamble := h.unit maxIncludeDepth ⟨request.tag, request.preamble⟩ 0 hstart
  h.unit maxIncludeDepth ⟨request.tag, request.source⟩ 0 hpreamble

end Invariant

end Run

end ShaderPipeline.Preprocess
