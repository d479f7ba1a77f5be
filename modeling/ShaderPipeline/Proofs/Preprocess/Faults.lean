import ShaderPipeline.Proofs.Preprocess.Act
import ShaderPipeline.Proofs.Preprocess.Causes

namespace ShaderPipeline.Preprocess

structure Fault.Legible (units : List String) (f : Fault) : Prop where
  unit : f.unit ∈ units
  line : f.line.Unsigned
  directive : '\n' ∉ f.directive.toList
  cause : f.cause.Fits

lemma Fault.Legible.mono {units units' : List String} {f : Fault} (h : f.Legible units)
    (hunits : units ⊆ units') : f.Legible units' :=
  ⟨hunits h.unit, h.line, h.directive, h.cause⟩

variable {σ : Type} {tag : String}

namespace Run

def units (tag : String) (run : Run σ) : List String :=
  tag :: (entered run.items.toList).map (·.name)

structure Legible (tag : String) (run : Run σ) : Prop where
  bodies : run.table.Bodies Token.Plain
  faults : ∀ f ∈ run.faults, f.Legible (run.units tag)

variable {run : Run σ}

lemma units_emit (run : Run σ) (x : Item) :
    (run.emit x).units tag = run.units tag ++ x.entered?.toList.map (·.name) := by
  have hx : entered [x] = x.entered?.toList := by
    rw [entered, List.filterMap_cons]
    cases x.entered? <;> rfl
  have hentered :
      entered (run.emit x).items.toList = entered run.items.toList ++ x.entered?.toList := by
    rw [← hx, ← entered_append, ← Array.toList_push]
    rfl
  rw [units, hentered, List.map_append, units, List.cons_append]

lemma units_subset_emit (run : Run σ) (x : Item) : run.units tag ⊆ (run.emit x).units tag := by
  rw [units_emit]
  exact List.subset_append_left _ _

lemma Legible.emit (h : run.Legible tag) (x : Item) : (run.emit x).Legible tag :=
  ⟨h.bodies, fun f hf => (h.faults f hf).mono (units_subset_emit run x)⟩

lemma Legible.setVersion (h : run.Legible tag) (v : Version) : (run.setVersion v).Legible tag := by
  refine ⟨?_, h.faults⟩
  simp only [Run.setVersion]
  split
  · refine h.bodies.insert fun x hx => ?_
    obtain rfl := List.mem_singleton.mp hx
    exact ⟨newline_notMem_ofList (by decide), fun _ => by decide⟩
  · exact h.bodies.erase

def entering (run : Run σ) (found : Included) : Run σ :=
  ({ run with files := run.files + 1 } : Run σ).emit (.enter run.nextLine found)

lemma Legible.entering (h : run.Legible tag) (found : Included) :
    (run.entering found).Legible tag :=
  have hcounted : ({ run with files := run.files + 1 } : Run σ).Legible tag := ⟨h.bodies, h.faults⟩
  hcounted.emit _

lemma units_entering (run : Run σ) (found : Included) :
    (run.entering found).units tag = run.units tag ++ [found.name] :=
  units_emit _ _

lemma units_subset_entering (run : Run σ) (found : Included) :
    run.units tag ⊆ (run.entering found).units tag := by
  rw [units_entering]
  exact List.subset_append_left _ _

lemma mem_units_entering (run : Run σ) (found : Included) :
    found.name ∈ (run.entering found).units tag := by
  rw [units_entering]
  exact List.mem_append_right _ (List.mem_singleton_self _)

end Run

def Descent.Legible (tag : String) (descent : Descent σ) : Prop :=
  ∀ descend, descent = some descend → ∀ source file run, Run.Legible tag run →
    source.name ∈ run.units tag →
    Run.Legible tag (descend source file run) ∧ run.units tag ⊆ (descend source file run).units tag

namespace Reading

structure Legible (tag : String) (r : Reading σ) : Prop where
  run : r.run.Legible tag
  name : r.place.name ∈ r.run.units tag
  line : r.place.line.Unsigned
  groups : ∀ g ∈ r.place.groups, g.line.Unsigned
  renumber : ∀ l, r.place.renumber = some l → l.Unsigned
  held : ∀ h, r.place.held = some h → h.builtins.line.Unsigned ∧ ∀ t ∈ h.tokens, t.Plain

variable {r : Reading σ} {args : List Token}

namespace Legible

lemma bodies (h : r.Legible tag) : r.run.table.Bodies Token.OneLine :=
  h.run.bodies.imp fun _ hx => hx.oneLine

lemma emit (h : r.Legible tag) (x : Item) : (r.emit x).Legible tag :=
  ⟨h.run.emit x, Run.units_subset_emit _ _ h.name, h.line, h.groups, h.renumber, h.held⟩

lemma newline (h : r.Legible tag) : r.newline.Legible tag :=
  h.emit .blank

lemma fault (h : r.Legible tag) {directive : String} {cause : Cause} (hd : '\n' ∉ directive.toList)
    (hc : cause.Fits) : (r.fault directive cause).Legible tag := by
  refine ⟨⟨h.run.bodies, List.forall_mem_append.mpr ⟨h.run.faults, ?_⟩⟩, h.name, h.line, h.groups,
    h.renumber, h.held⟩
  exact List.forall_mem_singleton.mpr ⟨h.name, h.line, hd, hc⟩

lemma setGroups (h : r.Legible tag) {gs : List Group} (hgs : ∀ g ∈ gs, g.line.Unsigned) :
    (r.setGroups gs).Legible tag :=
  ⟨h.run, h.name, h.line, hgs, h.renumber, h.held⟩

lemma setTable (h : r.Legible tag) {table : Macro.Table} (ht : table.Bodies Token.Plain) :
    (r.setTable table).Legible tag :=
  ⟨⟨ht, h.run.faults⟩, h.name, h.line, h.groups, h.renumber, h.held⟩

lemma setIncludes (h : r.Legible tag) (enabled : Bool) : (r.setIncludes enabled).Legible tag :=
  ⟨⟨h.run.bodies, h.run.faults⟩, h.name, h.line, h.groups, h.renumber, h.held⟩

lemma release (h : r.Legible tag) : r.release.Legible tag :=
  ⟨h.run, h.name, h.line, h.groups, h.renumber, nofun⟩

lemma continueAt (h : r.Legible tag) {line : LineNumber} (hl : line.Unsigned) :
    (r.continueAt line).Legible tag := by
  refine ⟨h.run, h.name, h.line, h.groups, ?_, h.held⟩
  rintro l ⟨⟩
  exact hl

lemma advance (h : r.Legible tag) : r.advance.Legible tag := by
  refine ⟨h.run, h.name, ?_, h.groups, nofun, h.held⟩
  change (r.place.renumber.getD (r.place.line.advance 1)).Unsigned
  cases hn : r.place.renumber with
  | none => exact h.line.advance 1
  | some l => exact h.renumber l hn

lemma declareVersion (h : r.Legible tag) (args : List Token) :
    (r.declareVersion args).Legible tag := by
  have hrun {run : Run σ} (hl : run.Legible tag) (hu : run.units tag = r.run.units tag) :
      ({ r with run } : Reading σ).Legible tag :=
    ⟨hl, hu ▸ h.name, h.line, h.groups, h.renumber, h.held⟩
  have hdeclared : ({ r.run with declared := true } : Run σ).Legible tag :=
    ⟨h.run.bodies, h.run.faults⟩
  simp only [Reading.declareVersion]
  split
  · exact h
  split
  · exact hrun hdeclared rfl
  split
  · exact hrun (hdeclared.setVersion _) rfl
  · exact hrun hdeclared rfl

lemma enter (h : r.Legible tag) {descend : Included → Nat → Run σ → Run σ}
    (hd : ∀ source file run, Run.Legible tag run → source.name ∈ run.units tag →
      Run.Legible tag (descend source file run) ∧
      run.units tag ⊆ (descend source file run).units tag)
    (found : Included) : (r.enter descend found).Legible tag := by
  obtain ⟨hread, hunits⟩ :=
    hd found (r.run.files + 1) _ (h.run.entering found) (Run.mem_units_entering r.run found)
  generalize hrun : descend found (r.run.files + 1) (r.run.entering found) = run at hread hunits
  have hname := Run.units_subset_emit run (.leave run.nextLine r.place.line r.place.name)
    (hunits (Run.units_subset_entering r.run found h.name))
  have hleft : r.enter descend found =
      { r with run := run.emit (.leave run.nextLine r.place.line r.place.name) } := by
    rw [← hrun]; rfl
  rw [hleft]
  exact ⟨hread.emit _, hname, h.line, h.groups, h.renumber, h.held⟩

end Legible

lemma mem_of_directiveTokens {ts us : List Token} {x : Token} (h : directiveTokens? ts = some us)
    (hx : x ∈ us) : x ∈ ts := by
  rw [directiveTokens?] at h
  split at h
  · rename_i t rest htrim
    split at h
    · obtain rfl := Option.some.inj h
      exact Token.mem_of_mem_trim (htrim ▸ List.mem_cons_of_mem _ (Token.mem_of_mem_trim hx))
    · cases h
  · cases h

lemma newline_notMem_opener (opener : Opener) : '\n' ∉ opener.directive.toList := by
  cases opener <;> exact newline_notMem_ofList (by decide)

lemma oneLine_of_name {name : String} (ha : ∀ t ∈ args, t.Plain) (h : name? args = some name) :
    '\n' ∉ name.toList := by
  cases args with
  | nil => cases h
  | cons t args =>
    rw [name?] at h
    split at h
    · obtain rfl := Option.some.inj h
      exact (List.forall_mem_cons.mp ha).1.oneLine
    · cases h

section

variable (h : r.Legible tag) (ha : ∀ t ∈ args, t.Plain)

include h

lemma legible_fault_newline {d : String} {c : Cause} (hd : '\n' ∉ d.toList) (hc : c.Fits) :
    (r.fault d c).newline.Legible tag :=
  (h.fault hd hc).newline

lemma legible_isNameDefined {d : String} (hd : '\n' ∉ d.toList) (args : List Token) :
    (r.isNameDefined d args).2.Legible tag := by
  rw [isNameDefined]
  cases name? args with
  | some name => exact h
  | none => exact h.fault hd (Cause.fits_of_unquoted rfl)

lemma legible_else : r.elseBranch.Legible tag := by
  have hdirective : '\n' ∉ "#else".toList := newline_notMem_ofList (by decide)
  simp only [elseBranch]
  split
  · exact h.newline.fault hdirective (Cause.fits_of_unquoted rfl)
  rename_i g gs hgs
  have hgroups :
      ∀ g' ∈ { g with active := g.parentActive && !g.taken, taken := true, seenElse := true } :: gs,
      g'.line.Unsigned := by
    have hold := h.groups
    rw [show r.place.groups = g :: gs from hgs, List.forall_mem_cons] at hold
    exact List.forall_mem_cons.mpr hold
  split
  · exact (h.newline.setGroups hgroups).fault hdirective (Cause.fits_of_unquoted rfl)
  · exact h.newline.setGroups hgroups

lemma legible_endif : r.endif.Legible tag := by
  simp only [endif]
  split
  · exact h.newline.fault (newline_notMem_ofList (by decide)) (Cause.fits_of_unquoted rfl)
  · rename_i g gs hgs
    have hold := h.groups
    rw [show r.place.groups = g :: gs from hgs, List.forall_mem_cons] at hold
    exact h.newline.setGroups hold.2

include ha

lemma legible_holds {d : String} (hd : '\n' ∉ d.toList) : (r.holds d args).2.Legible tag := by
  rw [holds]
  cases hv : r.conditionValue args with
  | ok v => exact h
  | error cause => exact h.fault hd (fits_of_conditionValue h.line.1 h.run.bodies ha hv)

lemma legible_opens (opener : Opener) : (r.opens opener args).2.Legible tag := by
  cases opener with
  | condition => exact legible_holds h ha (newline_notMem_opener _)
  | defined | undefined => exact legible_isNameDefined h (newline_notMem_opener _) args

lemma legible_openGroup (opener : Opener) : (r.openGroup opener args).Legible tag := by
  have hopen {r' : Reading σ} (h' : r'.Legible tag) (parent active : Bool) :
      (r'.setGroups (⟨opener, r'.place.line, parent, active, active, false⟩ ::
        r'.place.groups)).newline.Legible tag :=
    (h'.setGroups (List.forall_mem_cons.mpr ⟨h'.line, h'.groups⟩)).newline
  simp only [openGroup]
  split
  · exact hopen (legible_opens h ha opener) _ _
  · exact hopen h _ _

lemma legible_elif : (r.elif args).Legible tag := by
  have hdirective : '\n' ∉ "#elif".toList := newline_notMem_ofList (by decide)
  simp only [elif]
  split
  · exact h.newline.fault hdirective (Cause.fits_of_unquoted rfl)
  rename_i g gs hgs
  have hold := h.groups
  rw [show r.place.groups = g :: gs from hgs, List.forall_mem_cons] at hold
  have hlate :
      (if g.seenElse then r.newline.fault "#elif" .elifAfterElse else r.newline).Legible tag := by
    split
    · exact h.newline.fault hdirective (Cause.fits_of_unquoted rfl)
    · exact h.newline
  generalize (if g.seenElse then r.newline.fault "#elif" .elifAfterElse else r.newline) =
    r' at hlate
  split
  · exact (legible_holds hlate ha hdirective).setGroups (List.forall_mem_cons.mpr hold)
  · exact hlate.setGroups (List.forall_mem_cons.mpr hold)

lemma legible_define : (r.define args).Legible tag := by
  have hdirective : '\n' ∉ "#define".toList := newline_notMem_ofList (by decide)
  simp only [define]
  split
  · exact h.newline.fault hdirective (Cause.fits_of_unquoted rfl)
  rename_i name hname
  have hn := oneLine_of_name ha hname
  split
  · refine h.newline.fault hdirective (Cause.fits_of_quoted ?_)
    rintro _ ⟨⟩
    exact hn
  rename_i m hm
  split
  · rename_i table ht
    exact h.newline.setTable
      (h.run.bodies.define (fun x hx => ha x (List.mem_of_mem_tail (mem_of_macroBody hm hx))) ht)
  · rename_i e he
    exact h.newline.fault hdirective (.inr (Macro.Table.oneLine_of_define_error hn he))

lemma legible_undef : (r.undef args).Legible tag := by
  have hdirective : '\n' ∉ "#undef".toList := newline_notMem_ofList (by decide)
  simp only [undef]
  split
  · exact h.newline.fault hdirective (Cause.fits_of_unquoted rfl)
  rename_i name hname
  split
  · rename_i table ht
    exact h.newline.setTable (h.run.bodies.undefine ht)
  · rename_i e he
    exact h.newline.fault hdirective (.inr (Macro.Table.oneLine_of_undefine_error
      (oneLine_of_name ha hname) he))

lemma legible_error : (r.error args).Legible tag := by
  refine legible_fault_newline h (newline_notMem_ofList (by decide)) (Cause.fits_of_quoted ?_)
  rintro _ ⟨⟩
  exact Token.newline_notMem_canonical fun t ht => (ha t ht).oneLine

omit ha in
lemma legible_version (args : List Token) : (r.version args).Legible tag := by
  have hdirective : '\n' ∉ "#version".toList := newline_notMem_ofList (by decide)
  simp only [version]
  split
  · split
    · exact (h.emit _).declareVersion _
    · exact legible_fault_newline h hdirective (Cause.fits_of_unquoted rfl)
  · exact legible_fault_newline h hdirective (Cause.fits_of_unquoted rfl)

lemma legible_extension : (r.extension args).Legible tag := by
  simp only [extension]
  split
  · rename_i cause hcause
    exact legible_fault_newline h (newline_notMem_ofList (by decide))
      (fits_of_extensionSetting (fun t ht => (ha t ht).oneLine) hcause)
  · split
    · exact (h.setIncludes _).emit _
    · exact h.emit _

lemma legible_renumber : (r.renumber args).Legible tag := by
  have hdirective : '\n' ∉ "#line".toList := newline_notMem_ofList (by decide)
  simp only [renumber]
  split
  · rename_i e he
    exact legible_fault_newline h hdirective
      (.inr (Macro.Table.oneLine_of_expand_error h.bodies (fun t ht => (ha t ht).oneLine) he))
  rename_i expanded hexpanded
  have hplain := Macro.Table.plain_of_expand h.line.1 h.run.bodies ha hexpanded
  split
  · rename_i t rest
    split
    · rename_i hk
      have hnumber : (LineNumber.ofText t.text).Unsigned :=
        ⟨(List.forall_mem_cons.mp hplain).1.unsigned hk, LineNumber.inRange_ofChars _⟩
      exact (h.continueAt (hnumber.advance _)).emit _
    · exact legible_fault_newline h hdirective (Cause.fits_of_unquoted rfl)
  · exact legible_fault_newline h hdirective (Cause.fits_of_unquoted rfl)

end

section

variable {inc : Includer σ} {descent : Descent σ} (h : r.Legible tag) (hd : descent.Legible tag)

include h hd

lemma legible_includeFile (name : String) (kind : IncludeKind) :
    (r.includeFile inc descent name kind).Legible tag := by
  have hdirective : '\n' ∉ "#include".toList := newline_notMem_ofList (by decide)
  simp only [includeFile]
  split
  · exact legible_fault_newline h hdirective (Cause.fits_of_unquoted rfl)
  rename_i descend
  have hasked : (r.ask inc (r.request name kind)).Legible tag :=
    ⟨⟨h.run.bodies, h.run.faults⟩, h.name, h.line, h.groups, h.renumber, h.held⟩
  split
  · rename_i e he
    exact legible_fault_newline hasked hdirective (.inl ⟨e, rfl⟩)
  exact hasked.enter (hd descend rfl) _

lemma legible_inclusion (args : List Token) : (r.inclusion inc descent args).Legible tag := by
  have hdirective : '\n' ∉ "#include".toList := newline_notMem_ofList (by decide)
  simp only [inclusion]
  split
  · split
    · rename_i cause hcause
      exact legible_fault_newline h hdirective (fits_of_includeTarget hcause)
    · exact legible_includeFile h hd _ _
  · exact legible_fault_newline h hdirective (Cause.fits_of_unquoted rfl)

lemma legible_directive {name : String} (hname : '\n' ∉ name.toList) (ha : ∀ t ∈ args, t.Plain) :
    (r.directive inc descent name args).Legible tag := by
  simp only [directive]
  split
  · exact legible_openGroup h ha _
  · exact legible_openGroup h ha _
  · exact legible_openGroup h ha _
  · exact legible_elif h ha
  · exact legible_else h
  · exact legible_endif h
  split
  · exact h.newline
  simp only [activeDirective]
  split
  · exact legible_define h ha
  · exact legible_undef h ha
  · exact legible_error h ha
  · exact legible_version h args
  · exact legible_extension h ha
  · exact h.emit _
  · exact legible_renumber h ha
  · exact legible_inclusion h hd args
  · exact legible_fault_newline h (newline_notMem_append (newline_notMem_ofList (by decide)) hname)
      (Cause.fits_of_unquoted rfl)

omit hd

lemma plain_extendHeld {ts : List Token} (hts : ∀ t ∈ ts, t.Plain) :
    (r.extendHeld ts).builtins.line.Unsigned ∧ ∀ t ∈ (r.extendHeld ts).tokens, t.Plain := by
  rw [extendHeld]
  split
  · exact ⟨h.line, hts⟩
  · rename_i held hheld
    obtain ⟨hline, htokens⟩ := h.held held hheld
    have hkind : Token.blank.kind ≠ .number := by decide
    have hblank : Token.blank.Plain := ⟨newline_notMem_ofList (by decide), fun h => absurd h hkind⟩
    exact ⟨hline, List.forall_mem_append.mpr ⟨htokens, List.forall_mem_cons.mpr ⟨hblank, hts⟩⟩⟩

lemma legible_text {ts : List Token} (hts : ∀ t ∈ ts, t.Plain) : (r.text ts).Legible tag := by
  obtain ⟨hline, htokens⟩ := plain_extendHeld h hts
  simp only [text]
  split
  · exact h.release.emit _
  · refine ⟨h.run, h.name, h.line, h.groups, h.renumber, ?_⟩
    rintro held ⟨⟩
    exact ⟨hline, htokens⟩
  · rename_i e he
    have hcause : (Cause.replacement e).Fits :=
      .inr (Macro.Table.oneLine_of_expandOpen_error h.bodies
        (fun t ht => (htokens t ht).oneLine) he)
    exact (h.release.fault (newline_notMem_ofList (by decide)) hcause).emit _

lemma legible_flush : r.flush.Legible tag := by
  simp only [flush]
  split
  · exact h
  rename_i held hheld
  split
  · exact h.release.emit _
  · rename_i e he
    have htokens := (h.held held hheld).2
    have hcause : (Cause.replacement e).Fits :=
      .inr (Macro.Table.oneLine_of_expand_error h.bodies (fun t ht => (htokens t ht).oneLine) he)
    exact (h.release.fault (newline_notMem_ofList (by decide)) hcause).emit _

include hd

lemma legible_line {s : String} (hs : '\n' ∉ s.toList) : (r.line inc descent s).Legible tag := by
  have hplain := Token.plain_of_tokenize hs
  simp only [line]
  split
  · exact (legible_flush h).newline
  · rename_i name args hdirective
    have hname : ∀ t ∈ name :: args, t.Plain :=
      fun t ht => hplain t (mem_of_directiveTokens hdirective ht)
    rw [List.forall_mem_cons] at hname
    exact legible_directive (legible_flush h) hd hname.1.oneLine fun t ht =>
      hname.2 t (Token.mem_of_mem_trim ht)
  · split
    · exact h.newline
    · exact legible_text h hplain

theorem legible_lines {ss : List String} (hss : ∀ s ∈ ss, '\n' ∉ s.toList) :
    (r.lines inc descent ss).Legible tag := by
  induction ss generalizing r with
  | nil => exact h
  | cons s ss ih =>
    rw [List.forall_mem_cons] at hss
    exact ih (legible_line h hd hss.1).advance hss.2

end

lemma legible_close (h : r.Legible tag) : r.close.run.Legible tag := by
  have hflush := legible_flush h
  simp only [close]
  split
  · exact hflush.run
  · rename_i g gs hgs
    have hline := hflush.groups g (hgs ▸ List.mem_cons_self)
    have hmoved :
        ({ r.flush with place := { r.flush.place with line := g.line } } : Reading σ).Legible tag :=
      ⟨hflush.run, hflush.name, hline, hflush.groups, hflush.renumber, hflush.held⟩
    exact (hmoved.fault (newline_notMem_opener _) (Cause.fits_of_unquoted rfl)).run

end Reading

namespace Run

variable {inc : Includer σ} {run : Run σ}

theorem invariant_mem_units (inc : Includer σ) (tag name : String) :
    Invariant inc (fun run => name ∈ run.units tag) (fun r => name ∈ r.run.units tag) where
  start _ _ _ _ h := h
  act descent r r' hd h hact := by
    have hemit {run : Run σ} (h : name ∈ run.units tag) (x : Item) :
        name ∈ (run.emit x).units tag :=
      units_subset_emit run x h
    cases hact with
    | fault | groups | define | undefine | includes | hold | advance => exact h
    | blank | extension | pragma | renumber | write | missed => exact hemit h _
    | @version t args hk =>
      have hitems :=
        (Reading.quiet_declareVersion (r.emit (.version (t :: args))) (t :: args)).items
      rw [units, hitems]
      exact hemit h (.version (t :: args))
    | @entered q kind found descend hdescend _ =>
      have hread :=
        hd descend hdescend found (r.run.files + 1)
          ((r.ask inc (r.request q kind)).run.entering found)
      exact hemit (hread (units_subset_entering _ found h)) (.leave _ r.place.line r.place.name)
  finish _ h := h
  report _ _ h := h

lemma Legible.readUnit (h : run.Legible tag) {descent : Descent σ} (hd : descent.Legible tag)
    (depth : Nat) {source : Included} (hname : source.name ∈ run.units tag) (file : Nat) :
    (run.readUnit inc descent depth source file).Legible tag := by
  have hstart : (⟨{ name := source.name, depth, file }, run⟩ : Reading σ).Legible tag :=
    ⟨h, hname, LineNumber.unsigned_one, List.forall_mem_nil _, nofun, nofun⟩
  refine Reading.legible_close (Reading.legible_lines hstart hd ?_)
  intro s hs
  obtain ⟨l, hl, rfl⟩ := List.mem_map.mp hs
  rw [String.toList_ofList]
  exact Text.newline_notMem_bareLines hl

theorem Legible.unit (h : run.Legible tag) (levels : Nat) {source : Included}
    (hname : source.name ∈ run.units tag) (file : Nat) :
    (Run.unit inc levels source file run).Legible tag := by
  induction levels generalizing source file run with
  | zero => exact h.readUnit (by rintro descend ⟨⟩) _ hname file
  | succ levels ih =>
    refine h.readUnit ?_ _ hname file
    rintro descend ⟨⟩ source file run hrun hname
    exact ⟨ih hrun hname file, fun name hn => (invariant_mem_units inc tag name).unit levels
      source file hn⟩

end Run

theorem legible_finalRun (inc : Includer σ) (request : Request) (includer : σ) :
    (finalRun inc request includer).Legible request.tag := by
  have hstart : (Run.start request.version request.forced includer).Legible request.tag := by
    unfold Run.start
    exact Run.Legible.setVersion ⟨by rintro _ _ ⟨⟩, List.forall_mem_nil _⟩ _
  have hpreamble :
      (Run.unit inc maxIncludeDepth ⟨request.tag, request.preamble⟩ 0 _).Legible request.tag :=
    hstart.unit maxIncludeDepth List.mem_cons_self 0
  exact hpreamble.unit maxIncludeDepth List.mem_cons_self 0

end ShaderPipeline.Preprocess
