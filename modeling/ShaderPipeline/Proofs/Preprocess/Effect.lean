import ShaderPipeline.Preprocess
import ShaderPipeline.Proofs.Preprocess.Written

namespace ShaderPipeline

namespace Preprocess

lemma mem_of_parameterNames {seen names : List String} {ts rest : List Token} {x : Token}
    (h : parameterNames? seen ts = some (names, rest)) (hx : x ∈ rest) : x ∈ ts := by
  fun_induction parameterNames? seen ts with
  | case1 seen => cases h
  | case2 seen name rest' hn => cases h
  | case3 seen name rest' hn htrim => cases h
  | case4 seen name rest' hn sep after htrim hsep =>
    obtain ⟨-, rfl⟩ : _ ∧ after = rest := by simpa using h
    exact .tail _ (Token.mem_of_mem_trim (htrim ▸ .tail _ hx))
  | case5 seen name rest' hn sep after htrim hsep ih =>
    have hm := Token.mem_of_mem_trim (ih h)
    exact .tail _ (Token.mem_of_mem_trim (htrim ▸ .tail _ hm))
  | case6 seen name rest' hn sep after htrim hsep => cases h

lemma mem_of_parameters {names : List String} {ts rest : List Token} {x : Token}
    (h : parameters? ts = some (names, rest)) (hx : x ∈ rest) : x ∈ ts := by
  simp only [parameters?] at h
  split at h
  · cases h
  · rename_i t rest' ht
    apply Token.mem_of_mem_trim
    rw [ht]
    split at h
    · obtain ⟨-, rfl⟩ : [] = names ∧ rest' = rest := by simpa using h
      exact .tail _ hx
    · exact mem_of_parameterNames h hx

lemma mem_of_macroBody {ts : List Token} {m : Macro} {x : Token} (h : macro? ts = some m)
    (hx : x ∈ m.body) : x ∈ ts := by
  cases ts with
  | nil =>
    obtain rfl := Option.some.inj h
    cases hx
  | cons t rest =>
    simp only [macro?] at h
    split at h
    · obtain ⟨⟨names, body⟩, hp, rfl⟩ := Option.map_eq_some_iff.mp h
      exact .tail _ (mem_of_parameters hp (Token.mem_of_mem_trim hx))
    · obtain rfl := Option.some.inj h
      exact Token.mem_of_mem_trim hx

lemma mem_of_extensionSetting {ts : List Token} {name : String} {b : Behavior}
    (h : extensionSetting ts = .ok (name, b)) : ∃ x ∈ ts, x.text = name := by
  simp only [extensionSetting] at h
  split at h
  · cases h
  · rename_i x rest hs
    have hx : x ∈ Token.solid ts := by simp [hs]
    refine ⟨x, (List.mem_filter.mp hx).1, ?_⟩
    grind

variable {σ : Type} {inc : Includer σ} {descent : Descent σ} {x : Item}

namespace Item

structure Stands (x : Item) (l : LineNumber) : Prop where
  fits : x.Fits l
  valid : x.Valid
  height : x.height = 1

lemma stands_blank {l : LineNumber} : Stands .blank l :=
  ⟨trivial, trivial, rfl⟩

def renumber? : Item → Option LineNumber
  | .renumber _ line _ => some line
  | _ => none

lemma Stands.next {l : LineNumber} (h : x.Stands l) :
    x.next l = x.renumber?.getD (l.advance 1) := by
  cases x with
  | text ts n =>
    obtain rfl : n = 1 := h.height
    rfl
  | enter => exact h.fits.elim
  | leave => exact h.fits.elim
  | _ => rfl

end Item

namespace Reading

variable {r r' r'' : Reading σ}

structure Stays (r r' : Reading σ) : Prop where
  name : r'.place.name = r.place.name
  line : r'.place.line = r.place.line
  held : r'.place.held = r.place.held
  bodies : r.run.table.Bodies Token.OneLine → r'.run.table.Bodies Token.OneLine

structure Quiet (r r' : Reading σ) : Prop extends Stays r r' where
  items : r'.run.items = r.run.items
  includer : r'.run.includer = r.run.includer
  renumber : r'.place.renumber = r.place.renumber

lemma Quiet.refl (r : Reading σ) : Quiet r r :=
  ⟨⟨rfl, rfl, rfl, id⟩, rfl, rfl, rfl⟩

lemma Quiet.trans (h : Quiet r r') (h' : Quiet r' r'') : Quiet r r'' :=
  ⟨⟨h'.name.trans h.name, h'.line.trans h.line, h'.held.trans h.held, h'.bodies ∘ h.bodies⟩,
    h'.items.trans h.items, h'.includer.trans h.includer, h'.renumber.trans h.renumber⟩

lemma Quiet.emit (h : Quiet r r') : Quiet (r.emit x) (r'.emit x) :=
  ⟨⟨h.name, h.line, h.held, h.bodies⟩, congrArg (·.push x) h.items, h.includer, h.renumber⟩

lemma quiet_fault (r : Reading σ) (d : String) (c : Cause) : Quiet r (r.fault d c) :=
  ⟨⟨rfl, rfl, rfl, id⟩, rfl, rfl, rfl⟩

lemma quiet_setGroups (r : Reading σ) (gs : List Group) : Quiet r (r.setGroups gs) :=
  ⟨⟨rfl, rfl, rfl, id⟩, rfl, rfl, rfl⟩

lemma quiet_setIncludes (r : Reading σ) (b : Bool) : Quiet r (r.setIncludes b) :=
  ⟨⟨rfl, rfl, rfl, id⟩, rfl, rfl, rfl⟩

lemma quiet_holds (r : Reading σ) (d : String) (args : List Token) :
    Quiet r (r.holds d args).2 := by
  simp only [holds]
  split
  · exact .refl r
  · exact quiet_fault r _ _

lemma quiet_isNameDefined (r : Reading σ) (d : String) (args : List Token) :
    Quiet r (r.isNameDefined d args).2 := by
  simp only [isNameDefined]
  split
  · exact .refl r
  · exact quiet_fault r _ _

lemma quiet_opens (r : Reading σ) (opener : Opener) (args : List Token) :
    Quiet r (r.opens opener args).2 := by
  cases opener with
  | condition => exact quiet_holds r _ _
  | defined => exact quiet_isNameDefined r _ _
  | undefined => exact quiet_isNameDefined r _ _

lemma bodies_setVersion {run : Run σ} (h : run.table.Bodies Token.OneLine) (v : Version) :
    (run.setVersion v).table.Bodies Token.OneLine := by
  simp only [Run.setVersion]
  split
  · exact h.insert (by simp [Macro.object, Token.OneLine, Token.number])
  · exact h.erase

lemma quiet_declareVersion (r : Reading σ) (args : List Token) :
    Quiet r (r.declareVersion args) := by
  simp only [declareVersion]
  split
  · exact .refl r
  split
  · exact ⟨⟨rfl, rfl, rfl, id⟩, rfl, rfl, rfl⟩
  split
  · exact ⟨⟨rfl, rfl, rfl, fun h => bodies_setVersion h _⟩, rfl, rfl, rfl⟩
  · exact ⟨⟨rfl, rfl, rfl, id⟩, rfl, rfl, rfl⟩

inductive Effect (inc : Includer σ) (descent : Descent σ) (r : Reading σ) : Reading σ → Prop
  | wrote {r' : Reading σ} {x : Item} : Stays r r' → x.Stands r.place.line →
    r'.run.items = r.run.items.push x →
      r'.place.renumber = x.renumber?.or r.place.renumber →
      r'.run.includer = r.run.includer → Effect inc descent r r'
  | missed {r' : Reading σ} {request : IncludeRequest} {e : IncludeError} : Stays r r' →
      (inc.resolve r.run.includer request).1 = .error e →
      r'.run.items = r.run.items.push .blank → r'.place.renumber = r.place.renumber →
      r'.run.includer = (inc.resolve r.run.includer request).2 → Effect inc descent r r'
  | entered {descend : Included → Nat → Run σ → Run σ} {request : IncludeRequest}
      {found : Included} :
      descent = some descend → (inc.resolve r.run.includer request).1 = .ok found →
      Effect inc descent r
        ({ r with run := { r.run with includer := (inc.resolve r.run.includer request).2 } }.enter
          descend found)

lemma Effect.ofQuiet (hx : x.Stands r.place.line) (hn : x.renumber? = none)
    (h : Quiet (r.emit x) r') : Effect inc descent r r' :=
  .wrote ⟨h.name, h.line, h.held, h.bodies⟩ hx h.items (by rw [hn]; exact h.renumber) h.includer

lemma effect_blank (h : Quiet r.newline r') : Effect inc descent r r' :=
  .ofQuiet Item.stands_blank rfl h

lemma effect_openGroup (opener : Opener) (args : List Token) :
    Effect inc descent r (r.openGroup opener args) := by
  apply effect_blank
  simp only [openGroup]
  split
  · exact ((quiet_opens r opener args).trans (quiet_setGroups _ _)).emit
  · exact (quiet_setGroups r _).emit

lemma effect_elif (args : List Token) : Effect inc descent r (r.elif args) := by
  apply effect_blank
  simp only [elif]
  split
  · exact quiet_fault _ _ _
  · rename_i g gs hg
    apply Quiet.trans _ (quiet_setGroups _ _)
    split
    · apply Quiet.trans _ (quiet_holds _ _ _)
      split
      · exact quiet_fault _ _ _
      · exact .refl _
    · split
      · exact quiet_fault _ _ _
      · exact .refl _

lemma effect_else : Effect inc descent r r.elseBranch := by
  apply effect_blank
  simp only [elseBranch]
  split
  · exact quiet_fault _ _ _
  split
  · exact (quiet_setGroups _ _).trans (quiet_fault _ _ _)
  · exact quiet_setGroups _ _

lemma effect_endif : Effect inc descent r r.endif := by
  apply effect_blank
  simp only [endif]
  split
  · exact quiet_fault _ _ _
  · exact quiet_setGroups _ _

variable {args : List Token}

lemma quiet_setTable {t : Macro.Table}
    (h : r.run.table.Bodies Token.OneLine → t.Bodies Token.OneLine) : Quiet r (r.setTable t) :=
  ⟨⟨rfl, rfl, rfl, h⟩, rfl, rfl, rfl⟩

lemma effect_define (ha : ∀ t ∈ args, t.OneLine) : Effect inc descent r (r.define args) := by
  apply effect_blank
  simp only [define]
  split
  · exact quiet_fault _ _ _
  split
  · exact quiet_fault _ _ _
  · rename_i m hm
    split
    · rename_i t ht
      apply quiet_setTable
      intro h
      exact h.define (fun x hx => ha x (List.mem_of_mem_tail (mem_of_macroBody hm hx))) ht
    · exact quiet_fault _ _ _

lemma effect_undef : Effect inc descent r (r.undef args) := by
  apply effect_blank
  simp only [undef]
  split
  · exact quiet_fault _ _ _
  split
  · rename_i t ht
    exact quiet_setTable fun h => h.undefine ht
  · exact quiet_fault _ _ _

lemma effect_version (ha : ∀ t ∈ args, t.OneLine) : Effect inc descent r (r.version args) := by
  simp only [version]
  split
  · split
    · exact .ofQuiet (x := .version _) ⟨trivial, ha, rfl⟩ rfl (quiet_declareVersion _ _)
    · exact effect_blank (quiet_fault r _ _).emit
  · exact effect_blank (quiet_fault r _ _).emit

lemma effect_extension (ha : ∀ t ∈ args, t.OneLine) : Effect inc descent r (r.extension args) := by
  simp only [extension]
  split
  · exact effect_blank (quiet_fault r _ _).emit
  · rename_i name behavior hs
    obtain ⟨t, ht, rfl⟩ := mem_of_extensionSetting hs
    apply Effect.ofQuiet (x := .extension t.text behavior) ⟨trivial, ha t ht, rfl⟩ rfl
    apply Quiet.emit
    split
    · exact quiet_setIncludes r _
    · exact .refl r

lemma effect_renumber (ha : ∀ t ∈ args, t.OneLine) (ht : r.run.table.Bodies Token.OneLine) :
    Effect inc descent r (r.renumber args) := by
  simp only [renumber]
  split
  · exact effect_blank (quiet_fault r _ _).emit
  · rename_i expanded he
    have ho := Macro.oneLine_of_expand ht ha he
    split
    · rename_i t rest
      split
      · rename_i hk
        exact .wrote (x := .renumber r.run.nextLine _ _) ⟨rfl, rfl, rfl, id⟩ ⟨⟨t, rfl, hk, rfl⟩, ho,
          rfl⟩ rfl rfl rfl
      · exact effect_blank (quiet_fault r _ _).emit
    · exact effect_blank (quiet_fault r _ _).emit

lemma effect_includeFile (name : String) (kind : IncludeKind) :
    Effect inc descent r (r.includeFile inc descent name kind) := by
  simp only [includeFile]
  split
  · exact effect_blank (quiet_fault r _ _).emit
  · split
    · rename_i e he
      exact .missed ⟨rfl, rfl, rfl, id⟩ he rfl rfl rfl
    · rename_i found hf
      exact .entered rfl hf

lemma effect_inclusion : Effect inc descent r (r.inclusion inc descent args) := by
  simp only [inclusion]
  split
  · split
    · exact effect_blank (quiet_fault r _ _).emit
    · exact effect_includeFile _ _
  · exact effect_blank (quiet_fault r _ _).emit

theorem effect_directive (name : String) (ha : ∀ t ∈ args, t.OneLine)
    (ht : r.run.table.Bodies Token.OneLine) :
    Effect inc descent r (r.directive inc descent name args) := by
  simp only [directive]
  split
  · exact effect_openGroup _ _
  · exact effect_openGroup _ _
  · exact effect_openGroup _ _
  · exact effect_elif _
  · exact effect_else
  · exact effect_endif
  split
  · exact effect_blank (.refl _)
  simp only [activeDirective]
  split
  · exact effect_define ha
  · exact effect_undef
  · exact effect_blank (quiet_fault r _ _).emit
  · exact effect_version ha
  · exact effect_extension ha
  · exact .ofQuiet (x := .pragma _ _) ⟨rfl, ha, rfl⟩ rfl (.refl _)
  · exact effect_renumber ha ht
  · exact effect_inclusion
  · exact effect_blank (quiet_fault r _ _).emit

end Reading

end Preprocess

end ShaderPipeline
