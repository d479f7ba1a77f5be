import ShaderPipeline.Proofs.Preprocess.EndsLine
import ShaderPipeline.Proofs.Version

/-! The version that a run works with, and the one that is read off its output. -/

namespace ShaderPipeline.Preprocess

namespace Item

def isVersion : Item → Bool
  | .version _ => true
  | _ => false

def namesVersion (x : Item) : Bool :=
  Version.directive.toList <:+: x.render.toList

theorem declared_renderAll {xs : List Item} (h : ∀ x ∈ xs, x.EndsLine) :
    Version.declared? (renderAll xs) = (xs.find? namesVersion).bind fun x =>
      Version.declared? x.render := by
  induction xs with
  | nil => rfl
  | cons x xs ih =>
    obtain ⟨⟨cs, hx⟩, hxs⟩ := List.forall_mem_cons.mp h
    have hall : renderAll (x :: xs) = x.render ++ renderAll xs := by
      rw [renderAll, List.map_cons, String.join_cons, renderAll]
    rw [hall, Version.declared_append hx, ih hxs, List.find?_cons]
    by_cases hm : Version.directive.toList <:+: x.render.toList
    · simp [namesVersion, hm]
    · simp [namesVersion, hm]

def declaredBy (p : Item → Bool) (configured : Version) (xs : List Item) : Version :=
  ((xs.find? p).bind fun x => Version.declared? x.render).getD configured

end Item

open Item

namespace Run

variable {σ : Type} {run : Run σ} {configured : Version} {x : Item}

structure Declares (configured : Version) (run : Run σ) : Prop where
  forced : run.forced = false
  declared : run.declared = run.items.toList.any isVersion
  version : run.version = declaredBy isVersion configured run.items.toList
  nextLine : run.nextLine = run.version.numbersNextLine

structure InForce (configured : Version) (run : Run σ) : Prop extends Declares configured run where
  lines : run.EndsLines

namespace Declares

lemma of_eq {run' : Run σ} (h : Declares configured run) (hforced : run'.forced = run.forced)
    (hdeclared : run'.declared = run.declared) (hversion : run'.version = run.version)
    (hnextLine : run'.nextLine = run.nextLine) (hitems : run'.items = run.items) :
      Declares configured run' :=
  ⟨hforced.trans h.forced, hitems ▸ hdeclared.trans h.declared, hitems ▸ hversion.trans h.version,
    hversion ▸ hnextLine.trans h.nextLine⟩

lemma emit (h : Declares configured run) (hv : x.isVersion = false) :
    Declares configured (run.emit x) where
  forced := h.forced
  declared := by
    rw [Run.emit, Array.toList_push, List.any_append, ← h.declared]
    simp [hv]
  version := by
    rw [Run.emit, declaredBy, Array.toList_push, List.find?_append]
    simp only [List.find?_cons, hv, List.find?_nil, Option.or_none]
    exact h.version
  nextLine := h.nextLine

end Declares

end Run

namespace Reading

variable {σ : Type} {configured : Version} {r : Reading σ}

open Run

lemma declared_render {args : List Token} (h : args ≠ []) :
    Version.declared? (Item.version args).render =
    Version.declared? (Version.directive ++ " " ++ Token.canonical args) := by
  have hargs : args.isEmpty = false := by simpa using h
  rw [Item.render, directiveLine, hargs, Version.declared_newline, String.append_assoc]
  rfl

lemma declares_version (h : Declares configured r.run) {args : List Token} (hargs : args ≠ []) :
    Declares configured ((r.emit (.version args)).declareVersion args).run := by
  have hany : (r.run.items.push (.version args)).toList.any isVersion = true := by
    simp [isVersion]
  cases hd : r.run.declared with
  | true =>
    obtain ⟨x, hx⟩ : ∃ x, r.run.items.toList.find? isVersion = some x := by
      rw [← Option.isSome_iff_exists, List.find?_isSome, ← List.any_eq_true, ← h.declared, hd]
    have hsame : (r.emit (.version args)).declareVersion args = r.emit (.version args) := if_pos hd
    rw [hsame]
    refine ⟨h.forced, hd.trans hany.symm, h.version.trans ?_, h.nextLine⟩
    change _ = declaredBy isVersion configured (r.run.items.push (.version args)).toList
    rw [declaredBy, declaredBy, Array.toList_push, List.find?_append, hx]
    rfl
  | false =>
    have hnone : r.run.items.toList.find? isVersion = none := by
      rw [List.find?_eq_none]
      exact List.any_eq_false.mp (h.declared.symm.trans hd)
    have hconfigured : r.run.version = configured := by
      rw [h.version, declaredBy, hnone]
      rfl
    have hfind : declaredBy isVersion configured (r.run.items.push (.version args)).toList =
        (Version.declared? (Version.directive ++ " " ++ Token.canonical args)).getD configured := by
      rw [declaredBy, Array.toList_push, List.find?_append, hnone, ← declared_render hargs]
      rfl
    have hforced : r.run.forced = false := h.forced
    simp only [declareVersion, emit, Run.emit, hd, hforced, Bool.false_eq_true, if_false]
    cases hv : Version.declared? (Version.directive ++ " " ++ Token.canonical args) with
    | some v =>
      have hdeclared :
          declaredBy isVersion configured (r.run.items.push (.version args)).toList = v := by
        rw [hfind, hv]
        rfl
      exact ⟨rfl, hany.symm, hdeclared.symm, rfl⟩
    | none =>
      have hdeclared :
          declaredBy isVersion configured (r.run.items.push (.version args)).toList =
            configured := by
        rw [hfind, hv]
        rfl
      exact ⟨rfl, hany.symm, hconfigured.trans hdeclared.symm, h.nextLine⟩

lemma declares_fault (h : Declares configured r.run) (d : String) (c : Cause) :
    Declares configured (r.fault d c).run :=
  h.of_eq rfl rfl rfl rfl rfl

lemma declares_ask (h : Declares configured r.run) (inc : Includer σ) (q : IncludeRequest) :
    Declares configured (r.ask inc q).run :=
  h.of_eq rfl rfl rfl rfl rfl

lemma declares_enter (h : Declares configured r.run) {descend : Included → Nat → Run σ → Run σ}
    (hd : ∀ source file run, Declares configured run →
      Declares configured (descend source file run))
    (found : Included) : Declares configured (r.enter descend found).run := by
  have hcounted : Declares configured { r.run with files := r.run.files + 1 } :=
    h.of_eq rfl rfl rfl rfl rfl
  exact (hd found _ _ (hcounted.emit rfl)).emit rfl

end Reading

variable {σ : Type}

theorem invariant_declares (inc : Includer σ) (configured : Version) :
    Run.Invariant inc (Run.Declares configured) fun r => Run.Declares configured r.run where
  start name depth file run h := h
  act descent r r' hd h hact := by
    cases hact with
    | fault d c => exact Reading.declares_fault h d c
    | groups | hold | advance => exact h
    | define | undefine | includes => exact h.of_eq rfl rfl rfl rfl rfl
    | version args ht => exact Reading.declares_version h (List.cons_ne_nil _ _)
    | blank | extension | pragma | renumber | write => exact h.emit rfl
    | missed => exact (Reading.declares_fault (Reading.declares_ask h inc _) _ _).emit rfl
    | entered hdescend =>
      exact Reading.declares_enter (Reading.declares_ask h inc _) (hd _ hdescend) _
  finish r h := h
  report r g h :=
    Reading.declares_fault (r := { r with place := { r.place with line := g.line } }) h _ _

theorem inForce_finalRun (inc : Includer σ) {request : Request} (hforced : request.forced = false)
    (includer : σ) : Run.InForce request.version (finalRun inc request includer) := by
  have hstart :
      Run.Declares request.version (Run.start request.version request.forced includer) := by
    rw [hforced]
    exact ⟨rfl, rfl, rfl, rfl⟩
  exact ⟨(invariant_declares inc request.version).finalRun request includer hstart,
    (invariant_endsLines inc).finalRun request includer (List.forall_mem_nil _)⟩

lemma namesVersion_of_isVersion {x : Item} (h : x.isVersion = true) : x.namesVersion = true := by
  cases x with
  | version args =>
    have hp : Version.directive.toList <+: (Item.version args).render.toList := by
      rw [Item.render, directiveLine, String.append_assoc, String.toList_append]
      exact List.prefix_append _ _
    simpa [namesVersion] using hp.isInfix
  | _ => cases h

lemma declaredBy_eq (configured : Version) {xs : List Item}
    (h : ∀ x ∈ xs.takeWhile fun x => !x.isVersion, ¬ Version.directive.toList <:+:
      x.render.toList) :
    declaredBy namesVersion configured xs = declaredBy isVersion configured xs := by
  have hfind : xs.find? namesVersion = xs.find? isVersion := by
    -- the directive names itself, so neither search goes past it
    induction xs with
    | nil => rfl
    | cons x xs ih =>
      rw [List.find?_cons, List.find?_cons]
      cases hx : x.isVersion with
      | true => rw [namesVersion_of_isVersion hx]
      | false =>
        rw [List.takeWhile_cons_of_pos (by simp [hx])] at h
        obtain ⟨hn, h⟩ := List.forall_mem_cons.mp h
        have hn : x.namesVersion = false := by simpa [namesVersion] using hn
        rw [hn, ih h]
  rw [declaredBy, hfind, declaredBy]

lemma effective_out {configured : Version} {run : Run σ} (h : Run.InForce configured run) :
    Version.effective run.out configured false =
      declaredBy namesVersion configured run.items.toList := by
  rw [Version.effective, if_neg Bool.false_ne_true, Run.out, declared_renderAll h.lines, declaredBy]

/-- The version in force and the one read off the output are the same if nothing written before the
first processed version directive names that directive. -/
theorem effective_text (inc : Includer σ) (tag source preamble : String) (configured : Version)
    (includer : σ) :
    let request : Request := ⟨tag, source, preamble, configured, false⟩
    let run := finalRun inc request includer
    let effective := Version.effective (preprocess inc request includer).1.text configured false
    run.version = declaredBy isVersion configured run.items.toList ∧
      effective = declaredBy namesVersion configured run.items.toList ∧
      ((∀ x ∈ run.items.toList.takeWhile fun x => !x.isVersion, ¬ Version.directive.toList <:+:
        x.render.toList) →
        effective = run.version ∧ effective.numbersNextLine = run.nextLine) := by
  have h := @inForce_finalRun _ inc ⟨tag, source, preamble, configured, false⟩ rfl includer
  simp only [preprocess]
  generalize finalRun inc ⟨tag, source, preamble, configured, false⟩ includer = run at h ⊢
  have heffective := effective_out h
  refine ⟨h.version, heffective, fun hn => ?_⟩
  have hsame : Version.effective run.out configured false = run.version := by
    rw [heffective, declaredBy_eq configured hn, h.version]
  exact ⟨hsame, by rw [hsame, h.nextLine]⟩

def ofSource (source : String) : Request :=
  ⟨"t", source, Preamble.endLine, .default, false⟩

theorem effective_text_of_version :
    let request := ofSource "#version 330\n#pragma #version 450\n"
    let effective := Version.effective (preprocess Includer.null request ()).1.text .default false
    effective = ⟨330, .none⟩ ∧
      effective.numbersNextLine = (finalRun Includer.null request ()).nextLine := by
  let items : List Item := [.extension Preamble.includeExtension .enable, .version [.number "330"],
    .pragma 2 [.punct "#", .ident "version", .blank, .number "450"]]
  have hitems :
      (finalRun Includer.null (ofSource "#version 330\n#pragma #version 450\n") ()).items.toList =
        items := by
    cbv
  have hdeclared : declaredBy isVersion .default items = ⟨330, .none⟩ := by cbv
  obtain ⟨hversion, -, hsame⟩ :=
    effective_text Includer.null "t" "#version 330\n#pragma #version 450\n"
    Preamble.endLine .default ()
  have hbefore : ∀ x ∈ items.takeWhile fun x => !x.isVersion, ¬ Version.directive.toList <:+:
      x.render.toList := by
    intro x hx
    obtain rfl := List.mem_singleton.mp hx
    decide
  rw [ofSource] at hitems
  rw [hitems] at hversion hsame
  obtain ⟨heffective, hnext⟩ := hsame hbefore
  rw [hversion, hdeclared] at heffective
  exact ⟨heffective, hnext⟩

theorem effective_text_of_pragma :
    let request := ofSource "#pragma #version 330\nint x;\n"
    let run := finalRun Includer.null request ()
    run.faults = [] ∧ run.version = .default ∧ run.nextLine = false ∧
      Version.effective (preprocess Includer.null request ()).1.text .default false =
        ⟨330, .none⟩ := by
  let support : Item := .extension Preamble.includeExtension .enable
  let pragma : Item := .pragma 1 [.punct "#", .ident "version", .blank, .number "330"]
  let text : Item := .text [.ident "int", .blank, .ident "x", .punct ";"] 1
  have hrun : ((finalRun Includer.null (ofSource "#pragma #version 330\nint x;\n") ()).items.toList,
      (finalRun Includer.null (ofSource "#pragma #version 330\nint x;\n") ()).faults,
      (finalRun Includer.null (ofSource "#pragma #version 330\nint x;\n") ()).version,
      (finalRun Includer.null (ofSource "#pragma #version 330\nint x;\n") ()).nextLine) =
      ([support, pragma, text], [], .default, false) := by cbv
  simp only [Prod.mk.injEq] at hrun
  obtain ⟨hitems, hfaults, hversion, hnext⟩ := hrun
  have hsupport : support.namesVersion = false := by decide
  have hpragma : pragma.namesVersion = true := by decide
  have hdeclared : Version.declared? pragma.render = some ⟨330, .none⟩ := by cbv
  have heffective := effective_out (@inForce_finalRun _ Includer.null
    (ofSource "#pragma #version 330\nint x;\n") rfl ())
  rw [hitems, declaredBy, List.find?_cons, hsupport, List.find?_cons, hpragma] at heffective
  exact ⟨hfaults, hversion, hnext,
    heffective.trans (by rw [Option.bind_some, hdeclared, Option.getD_some])⟩

end ShaderPipeline.Preprocess
