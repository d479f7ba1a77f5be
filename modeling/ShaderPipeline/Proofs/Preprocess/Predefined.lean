import ShaderPipeline.Proofs.Preprocess.Reached

/-! The names that are predefined, and the version that a run works with, wherever the run has come
to. -/

namespace ShaderPipeline

namespace Macro.Table

variable {t t' : Table} {name n : String} {m : Macro}

lemma find_of_define (h : t.define name m = .ok t') (hn : isPredefined n = true) :
    t'.find? n = t.find? n := by
  have hname : isPredefined name = false := by grind [define]
  have ht : t' = t.insert name m := by grind [define]
  have hne : n ≠ name := by
    rintro rfl
    exact Bool.false_ne_true (hname.symm.trans hn)
  rw [ht, find_insert, if_neg hne]

lemma find_of_undefine (h : t.undefine name = .ok t') (hn : isPredefined n = true) :
    t'.find? n = t.find? n := by
  have hname : isPredefined name = false := by grind [undefine]
  have ht : t' = t.erase name := by grind [undefine]
  have hne : n ≠ name := by
    rintro rfl
    exact Bool.false_ne_true (hname.symm.trans hn)
  rw [ht, find_erase, if_neg hne]

end Macro.Table

namespace Preprocess

open Macro

variable {σ : Type} {inc : Includer σ} {descent : Descent σ} {V : List Token → Prop}
  {configured : Version} {forced : Bool} {vs : List (List Token)}

/-- The version behind some version directives. Unless it is forced, the first of them decides, if
it declares one. -/
def inForce (configured : Version) (forced : Bool) : List (List Token) → Version
  | [] => configured
  | args :: _ =>
    if forced then configured
    else (Version.declared? (Version.directive ++ " " ++ Token.canonical args)).getD configured

def esMacro? (v : Version) : Option Macro :=
  if v.profile = .es ∨ v.number = 100 then some (.object [.number "1"]) else none

namespace Run

variable {run run' run'' : Run σ}

structure Consistent (configured : Version) (forced : Bool) (vs : List (List Token)) (run : Run σ) :
    Prop where
  changing : ∀ name ∈ ["__LINE__", "__FILE__", "__VERSION__"], run.table.find? name = none
  es : run.table.find? esName = esMacro? run.version
  nextLine : run.nextLine = run.version.numbersNextLine
  version : run.version = inForce configured forced vs
  forced : run.forced = forced
  declared : run.declared = !vs.isEmpty

structure Keeps (run run' : Run σ) : Prop where
  predefined : ∀ name, isPredefined name = true → run'.table.find? name = run.table.find? name
  nextLine : run'.nextLine = run.nextLine
  forced : run'.forced = run.forced
  declared : run'.declared = run.declared
  version : run'.version = run.version

lemma Keeps.refl (run : Run σ) : Keeps run run :=
  ⟨fun _ _ => rfl, rfl, rfl, rfl, rfl⟩

lemma Keeps.trans (h : Keeps run run') (h' : Keeps run' run'') : Keeps run run'' :=
  ⟨fun name hname => (h'.predefined name hname).trans (h.predefined name hname),
    h'.nextLine.trans h.nextLine, h'.forced.trans h.forced, h'.declared.trans h.declared,
    h'.version.trans h.version⟩

lemma Consistent.of_keeps (h : Consistent configured forced vs run) (hk : Keeps run run') :
    Consistent configured forced vs run' where
  changing name hname := by
    have hpredefined : isPredefined name = true := by
      rw [isPredefined, decide_eq_true_eq]
      exact List.mem_append_left ["GL_ES"] hname
    rw [hk.predefined name hpredefined, h.changing name hname]
  es := by rw [hk.predefined esName rfl, h.es, hk.version]
  nextLine := by rw [hk.nextLine, h.nextLine, hk.version]
  version := hk.version.trans h.version
  forced := hk.forced.trans h.forced
  declared := hk.declared.trans h.declared

lemma find_setVersion (run : Run σ) (v : Version) (name : String) :
    (run.setVersion v).table.find? name = if name = esName then esMacro? v
      else run.table.find? name := by
  rw [esMacro?]
  simp only [setVersion]
  split
  · exact Table.find_insert ..
  · exact Table.find_erase ..

lemma changing_ne_esName {name : String} (h : name ∈ ["__LINE__", "__FILE__", "__VERSION__"]) :
    name ≠ esName := by
  rintro rfl
  revert h
  decide

lemma consistent_setVersion {v : Version}
    (hchanging : ∀ name ∈ ["__LINE__", "__FILE__", "__VERSION__"], run.table.find? name = none)
    (hforced : run.forced = forced) (hdeclared : run.declared = !vs.isEmpty)
    (hv : v = inForce configured forced vs) :
    Consistent configured forced vs (run.setVersion v) where
  changing name hname := by
    rw [find_setVersion, if_neg (changing_ne_esName hname), hchanging name hname]
  es := by
    rw [find_setVersion, if_pos rfl]
    rfl
  nextLine := rfl
  version := hv
  forced := hforced
  declared := hdeclared

lemma consistent_start (configured : Version) (forced : Bool) (includer : σ) :
    Consistent configured forced [] (start configured forced includer) := by
  unfold start
  exact consistent_setVersion (fun _ _ => rfl) rfl rfl rfl

end Run

namespace Reading

variable {r r' : Reading σ}

open Run

lemma keeps_act (hV : ∀ args, ¬ V args)
    (hd : ∀ descend, descent = some descend → ∀ found file run, Keeps run (descend found file run))
    (h : Act inc descent V r r') : Keeps r.run r'.run := by
  cases h with
  | define hdefine => exact ⟨fun _ hn => Table.find_of_define hdefine hn, rfl, rfl, rfl, rfl⟩
  | undefine hundefine =>
    exact ⟨fun _ hn => Table.find_of_undefine hundefine hn, rfl, rfl, rfl, rfl⟩
  | version args _ hversion => exact (hV _ hversion).elim
  | @entered name kind found descend hdescend =>
    have hread :=
      hd descend hdescend found (r.run.files + 1)
        ((r.ask inc (r.request name kind)).run.entering found)
    exact ⟨hread.predefined, hread.nextLine, hread.forced, hread.declared, hread.version⟩
  | _ => exact ⟨fun _ _ => rfl, rfl, rfl, rfl, rfl⟩

lemma keeps_acts (hV : ∀ args, ¬ V args)
    (hd : ∀ descend, descent = some descend → ∀ found file run, Keeps run (descend found file run))
    (h : Acts inc descent V r r') : Keeps r.run r'.run := by
  induction h with
  | refl => exact .refl _
  | tail _ hact ih => exact ih.trans (keeps_act hV hd hact)

lemma keeps_flush (r : Reading σ) : Keeps r.run r.flush.run := by
  rw [flush]
  cases r.place.held with
  | none => exact .refl _
  | some h =>
    dsimp only
    cases r.run.table.expand h.builtins h.tokens with
    | ok out => exact ⟨fun _ _ => rfl, rfl, rfl, rfl, rfl⟩
    | error e => exact ⟨fun _ _ => rfl, rfl, rfl, rfl, rfl⟩

lemma keeps_close (r : Reading σ) : Keeps r.run r.close.run := by
  rw [close]
  dsimp only
  split
  · exact keeps_flush r
  · exact (keeps_flush r).trans ⟨fun _ _ => rfl, rfl, rfl, rfl, rfl⟩

lemma version_of_numbered {args version : List Token} (h : numbered? args = some version)
    (r : Reading σ) : r.version args = (r.emit (.version version)).declareVersion version := by
  cases args with
  | nil => cases h
  | cons t rest =>
    rw [numbered?] at h
    split at h
    · rename_i ht
      obtain rfl := Option.some.inj h
      exact if_pos ht
    · cases h

lemma line_of_versionRead {s : String} {args : List Token} (h : r.versionRead? s = some args) :
    r.line inc descent s = (r.flush.emit (.version args)).declareVersion args := by
  rw [versionRead?] at h
  split at h
  · cases h
  rename_i hreading
  rw [versionArgs?] at h
  split at h
  · rename_i name rest hd
    split at h
    · rename_i hname
      have hskip : r.flush.place.isSkipping = false := by
        rw [isSkipping_flush, Bool.eq_false_iff.mpr hreading]
      have hline :
          r.line inc descent s = r.flush.directive inc descent name.text (Token.trim rest) := by
        simp only [line, hd]
      have hversion : r.flush.directive inc descent "version" (Token.trim rest) =
          r.flush.version (Token.trim rest) :=
        (directive_eq r.flush "version" (Token.trim rest)).trans
          (if_neg (Bool.eq_false_iff.mp hskip))
      rw [hline, hname, hversion, version_of_numbered h]
    · cases h
  · cases h

lemma remains_of_versionRead {s : String} {args : List Token} (h : r.versionRead? s = some args) :
    r.Remains inc s := by
  intro descend descend'
  rw [line_of_versionRead h, line_of_versionRead h]

lemma consistent_declareVersion (h : Consistent configured forced vs r.run) (args : List Token) :
    Consistent configured forced (vs ++ [args]) (r.declareVersion args).run := by
  cases vs with
  | cons first rest =>
    have hdeclared : r.run.declared = true := h.declared
    rw [declareVersion, hdeclared, if_pos rfl]
    exact ⟨h.changing, h.es, h.nextLine, h.version, h.forced, hdeclared⟩
  | nil =>
    have hdeclared : r.run.declared = false := h.declared
    have hversion : r.run.version = configured := h.version
    have hkept (hsame : inForce configured forced [args] = configured) :
        Consistent configured forced [args] { r.run with declared := true } :=
      ⟨h.changing, h.es, h.nextLine, hversion.trans hsame.symm, h.forced, rfl⟩
    simp only [declareVersion, hdeclared, Bool.false_eq_true, if_false]
    split
    · rename_i hforced
      exact hkept (if_pos (h.forced.symm.trans hforced))
    · rename_i hforced
      have hfirst : inForce configured forced [args] =
          (Version.declared? (Version.directive ++ " " ++ Token.canonical args)).getD configured :=
        if_neg fun hf => hforced (h.forced.trans hf)
      split
      · rename_i v hv
        exact consistent_setVersion h.changing h.forced rfl
          (hfirst.trans (by rw [hv, Option.getD_some])).symm
      · rename_i hv
        exact hkept (hfirst.trans (by rw [hv, Option.getD_none]))

lemma consistent_line (h : Consistent configured forced vs r.run)
    (hd : ∀ descend, descent = some descend → ∀ found file run, Keeps run (descend found file run))
    (s : String) :
    Consistent configured forced (vs ++ (r.versionRead? s).toList) (r.line inc descent s).run := by
  cases hs : r.versionRead? s with
  | none =>
    have hacts : Acts inc descent (fun _ => False) r (r.line inc descent s) :=
      acts_line r s fun args hargs => nomatch hs.symm.trans hargs
    rw [Option.toList_none, List.append_nil]
    exact h.of_keeps (keeps_acts (fun _ => id) hd hacts)
  | some args =>
    have hflush : Consistent configured forced vs (r.flush.emit (.version args)).run :=
      h.of_keeps ((keeps_flush r).trans ⟨fun _ _ => rfl, rfl, rfl, rfl, rfl⟩)
    rw [line_of_versionRead hs]
    exact consistent_declareVersion hflush args

end Reading

lemma consistent_of_reached {includer : σ} {outer : List Place} {r : Reading σ}
    (h : Reached inc (.start configured forced includer) vs outer r) :
    r.run.Consistent configured forced vs := by
  have hsame : ∀ descend, (some fun _ _ run => run) = some descend →
      ∀ (found : Included) (file : Nat) (run : Run σ),
      run.Keeps (descend found file run) := by
    rintro _ ⟨⟩ found file run
    exact .refl run
  induction h with
  | start name => exact Run.consistent_start configured forced includer
  | @line vs outer r s descend _ _ hremains ih =>
    rw [hremains descend fun _ _ run => run]
    exact Reading.consistent_line ih hsame s
  | deepest s _ _ ih => exact Reading.consistent_line ih (by rintro _ ⟨⟩) s
  | @enter vs outer r asked s found _ _ henters ih =>
    -- a file without any effect of its own shows what was done on the way into it
    have hline : (r.line inc (some fun _ _ run => run) s).run.Consistent configured forced
        (vs ++ (r.versionRead? s).toList) := Reading.consistent_line ih hsame s
    rw [henters] at hline
    exact hline.of_keeps ⟨fun _ _ => rfl, rfl, rfl, rfl, rfl⟩
  | @leave vs p outer r _ ih =>
    exact ih.of_keeps ((Reading.keeps_close r).trans ⟨fun _ _ => rfl, rfl, rfl, rfl, rfl⟩)
  | @next vs r name _ ih => exact ih.of_keeps (Reading.keeps_close r)

/-- Wherever a run comes to, `GL_ES` is defined just where the version in force asks for it, and
that version is the one that the first of the processed directives decided. -/
theorem predefined_consistent (inc : Includer σ) (configured : Version) (forced : Bool)
    (includer : σ) :
    (∀ vs outer r, Reached inc (.start configured forced includer) vs outer r →
      r.run.Consistent configured forced vs) ∧
    ∀ tag source preamble, ∃ vs r, Reached inc (.start configured forced includer) vs [] r ∧
      r.close.run = finalRun inc ⟨tag, source, preamble, configured, forced⟩ includer ∧
      (finalRun inc ⟨tag, source, preamble, configured, forced⟩ includer).Consistent configured
        forced vs := by
  refine ⟨fun vs outer r h => consistent_of_reached h, fun tag source preamble => ?_⟩
  obtain ⟨vs, r, h, hrun⟩ :=
    Reached.finalRun inc ⟨tag, source, preamble, configured, forced⟩ includer
  exact ⟨vs, r, h, hrun, hrun ▸ (consistent_of_reached h).of_keeps (Reading.keeps_close r)⟩

theorem predefined_consistent_of_version :
    let first : Reading Unit := ⟨{ name := "t", depth := 0, file := 0 }, .start .default false ()⟩
    let last :=
      first.lines Includer.null (some fun _ _ run => run) ["#version 300 es", "#define GL_ES 2",
        "#version 110"]
    last.run.version = ⟨300, .es⟩ ∧ last.run.nextLine = true ∧
      last.run.table.find? "GL_ES" = some (.object [.number "1"]) ∧
      last.run.table.find? "__LINE__" = none := by
  intro first last
  let one := (first.line Includer.null (some fun _ _ run => run) "#version 300 es").advance
  let two := (one.line Includer.null (some fun _ _ run => run) "#define GL_ES 2").advance
  have hone : first.versionRead? "#version 300 es" = some [.number "300", .blank, .ident "es"] := by
    cbv
  have htwo : one.versionRead? "#define GL_ES 2" = none := by cbv
  have hthree : two.versionRead? "#version 110" = some [.number "110"] := by cbv
  have hdefine : one.Remains Includer.null "#define GL_ES 2" := by
    intro descend descend'
    cbv
  have hreached : Reached Includer.null (.start .default false ())
      [[.number "300", .blank, .ident "es"], [.number "110"]] [] last := by
    have hstart : Reached Includer.null (.start .default false ()) [] [] first := .start "t"
    have hzero : one.place.depth = 0 := Reading.depth_line first _
    have hdepth : (0 : Nat) < maxIncludeDepth := by decide
    have h₁ := hstart.line (fun _ _ run => run) hdepth (Reading.remains_of_versionRead hone)
    have h₂ := h₁.line (fun _ _ run => run) (hzero ▸ hdepth) hdefine
    have h₃ := h₂.line (fun _ _ run => run) ((Reading.depth_line one _).trans hzero ▸ hdepth)
      (Reading.remains_of_versionRead hthree)
    rw [hone, htwo, hthree] at h₃
    exact h₃
  have hversion : inForce .default false [[.number "300", .blank, .ident "es"], [.number "110"]] =
      ⟨300, .es⟩ := by cbv
  have h := (predefined_consistent Includer.null .default false ()).1 _ _ _ hreached
  have hlast : last.run.version = ⟨300, .es⟩ := h.version.trans hversion
  refine ⟨hlast, h.nextLine.trans ?_, h.es.trans ?_, h.changing "__LINE__" List.mem_cons_self⟩
  · rw [hlast]
    rfl
  · rw [hlast]
    rfl

end Preprocess

end ShaderPipeline
