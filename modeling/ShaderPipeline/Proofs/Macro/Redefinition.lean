import ShaderPipeline.Preprocess
import ShaderPipeline.Proofs.Macro.Calls
import ShaderPipeline.Proofs.Token.Canonical

/-! When a macro may be defined, judged by the tokens of its body, and what a definition leaves as
it was. -/

namespace ShaderPipeline

namespace Token

variable {ts us : List Token}

structure IsBody (ts : List Token) : Prop where
  run : ∃ line, ts <:+: tokenize line
  trimmed : trim ts = ts

def spaced (before : Bool) : List Token → List (Bool × Token)
  | [] => []
  | t :: ts => if t.isSpace then spaced true ts else (before, t) :: spaced false ts

def respaced (xs : List (Bool × Token)) : List Token :=
  xs.flatMap fun x => if x.1 then [blank, x.2] else [x.2]

lemma spaced_map_oneBlank (before : Bool) (ts : List Token) :
    spaced before (ts.map oneBlank) = spaced before ts := by
  induction ts generalizing before with
  | nil => rfl
  | cons t ts ih =>
    rw [List.map_cons, spaced, spaced, isSpace_oneBlank, ih, ih]
    cases h : t.isSpace with
    | true => rfl
    | false => simp only [oneBlank, h, Bool.false_eq_true, if_false]

lemma respaced_spaced (hd : ts.IsChain Divided)
    (hlast : ∀ t, ts.getLast? = some t → t.isSpace = false) (before : Bool)
    (hhead : before = true → ∃ t, ts.head? = some t ∧ t.isSpace = false) :
    respaced (spaced before ts) = (if before then [blank] else []) ++ ts.map oneBlank := by
  induction ts generalizing before with
  | nil =>
    cases before with
    | true =>
      obtain ⟨_, ⟨⟩, -⟩ := hhead rfl
    | false => rfl
  | cons t ts ih =>
    obtain ⟨hnext, hd⟩ := List.isChain_cons.mp hd
    have hlast' : ∀ u, ts.getLast? = some u → u.isSpace = false := fun u hu =>
      hlast u (by rw [List.getLast?_cons, hu]; rfl)
    cases ht : t.isSpace with
    | true =>
      have hbefore : before = false := by
        rw [Bool.eq_false_iff]
        intro hb
        obtain ⟨_, ⟨⟩, hs⟩ := hhead hb
        exact Bool.false_ne_true (hs.symm.trans ht)
      have hsolid : ∃ u, ts.head? = some u ∧ u.isSpace = false := by
        rcases ts with _ | ⟨u, ts⟩
        · exact (Bool.false_ne_true ((hlast t rfl).symm.trans ht)).elim
        · exact ⟨u, rfl, (hnext u rfl).solid ht⟩
      rw [spaced, if_pos ht, ih hd hlast' true fun _ => hsolid, hbefore, List.map_cons,
        oneBlank, if_pos ht]
      rfl
    | false =>
      have hrest := ih hd hlast' false (by rintro ⟨⟩)
      rw [spaced, ht, if_neg Bool.false_ne_true, List.map_cons, oneBlank, ht,
        if_neg Bool.false_ne_true]
      rw [if_neg Bool.false_ne_true, List.nil_append] at hrest
      rw [respaced, List.flatMap_cons, ← respaced, hrest]
      cases before <;> rfl

namespace IsBody

lemma tokenize_canonical (h : IsBody ts) : tokenize (canonical ts) = ts.map oneBlank := by
  obtain ⟨line, hrun⟩ := h.run
  rw [Token.tokenize_canonical hrun, h.trimmed]

lemma respaced_spaced (h : IsBody ts) : respaced (spaced false ts) = ts.map oneBlank := by
  obtain ⟨line, hrun⟩ := h.run
  have hlast : ∀ t, ts.getLast? = some t → t.isSpace = false := by
    have hself : (trim ts).rdropWhile isSpace = trim ts := List.rdropWhile_idempotent _ _
    rw [h.trimmed, List.rdropWhile_eq_self_iff] at hself
    intro t ht
    obtain ⟨us, rfl⟩ := List.getLast?_eq_some_iff.mp ht
    simpa using hself (by simp)
  rw [Token.respaced_spaced (isChain_run hrun) hlast false (by rintro ⟨⟩)]
  rfl

theorem canonical_eq_iff (hts : IsBody ts) (hus : IsBody us) :
    canonical ts = canonical us ↔ spaced false ts = spaced false us := by
  constructor
  · intro h
    rw [← spaced_map_oneBlank, ← hts.tokenize_canonical, h, hus.tokenize_canonical,
      spaced_map_oneBlank]
  · intro h
    have hmap : ts.map oneBlank = us.map oneBlank := by
      rw [← hts.respaced_spaced, h, hus.respaced_spaced]
    rw [canonical_eq_join, canonical_eq_join, hts.trimmed, hus.trimmed, hmap]

end IsBody

end Token

namespace Macro

open Token

namespace Table

variable {t t' : Table} {name : String} {m : Macro}

def Bodied (t : Table) : Prop :=
  ∀ name m, t.find? name = some m → IsBody m.body

lemma define_eq_ok_iff : t.define name m = .ok t' ↔
    isPredefined name = false ∧ .punct "##" ∉ m.body ∧
    (∀ old, t.find? name = some old → old.isEquivalent m = true) ∧
      t' = t.insert name m := by
  have hpasting : m.body.any (·.isPunct "##") = true ↔ .punct "##" ∈ m.body := by
    simp [isPunct_iff]
  have hok : ∀ u : Table, (Except.ok u : Except Error Table) = .ok t' ↔ t' = u := fun u => by
    rw [Except.ok.injEq]
    exact eq_comm
  rw [define]
  cases hname : isPredefined name with
  | true => simp
  | false =>
    simp only [Bool.false_eq_true, if_false, hpasting]
    by_cases hp : .punct "##" ∈ m.body
    · simp [hp]
    · rw [if_neg hp]
      cases t.find? name with
      | none => simp [hp, hok]
      | some old => cases he : old.isEquivalent m <;> simp [hp, he, hok]

end Table

end Macro

namespace Preprocess.Reading

open Macro

variable {σ : Type} {r : Reading σ} {args : List Token} {name : String} {m : Macro}
  {e : Macro.Error}

def refuse (r : Reading σ) (directive : String) (e : Macro.Error) : Reading σ :=
  r.newline.fault directive (.replacement e)

lemma define_of_error (hname : name? args = some name) (hm : macro? args.tail = some m)
    (he : r.run.table.define name m = .error e) : r.define args = r.refuse "#define" e := by
  have htable : r.newline.run.table.define name m = .error e := he
  simp only [define, hname, hm, htable, refuse]

lemma undef_of_error (hname : name? args = some name) (he : r.run.table.undefine name = .error e) :
    r.undef args = r.refuse "#undef" e := by
  have htable : r.newline.run.table.undefine name = .error e := he
  simp only [undef, hname, htable, refuse]

end Preprocess.Reading

namespace Macro

open Token

open Preprocess in
/-- A definition is accepted as a whole or not at all. It is accepted just if its name is free for
macros, its body does not paste tokens, and the definition that the name may have has the same
parameters and the same tokens with white space between the same ones. A directive whose definition
or undefinition is refused changes no macro. -/
theorem definition_accepted_iff {t : Table} (ht : t.Bodied) (name : String) {m : Macro}
    (hm : IsBody m.body) :
    ((∃ t', t.define name m = .ok t') ↔ isPredefined name = false ∧ .punct "##" ∉ m.body ∧
      ∀ old, t.find? name = some old → old.params = m.params ∧
      spaced false old.body = spaced false m.body) ∧
    (∀ t', t.define name m = .ok t' → t'.find? name = some m ∧ ∀ n, n ≠ name →
      t'.find? n = t.find? n) ∧
    ∀ {σ : Type} (r : Reading σ) (args : List Token) (e : Error), r.run.table = t →
      Reading.name? args = some name →
      (macro? args.tail = some m → t.define name m = .error e →
        (r.define args).run.table = t ∧
          (r.define args).run.faults =
            r.run.faults ++ [⟨r.place.name, r.place.line, "#define", .replacement e⟩]) ∧
      (t.undefine name = .error e →
        (r.undef args).run.table = t ∧
          (r.undef args).run.faults =
            r.run.faults ++ [⟨r.place.name, r.place.line, "#undef", .replacement e⟩]) := by
  have hsame : ∀ old, t.find? name = some old → (old.isEquivalent m = true ↔
      old.params = m.params ∧ spaced false old.body = spaced false m.body) := by
    intro old hold
    rw [isEquivalent, decide_eq_true_eq, (ht name old hold).canonical_eq_iff hm]
  refine ⟨?_, fun t' h => ?_, ?_⟩
  · simp only [Table.define_eq_ok_iff, exists_and_left, exists_eq, and_true]
    refine and_congr_right fun _ => and_congr_right fun _ => ?_
    exact forall₂_congr hsame
  · obtain ⟨-, -, -, rfl⟩ := Table.define_eq_ok_iff.mp h
    refine ⟨?_, fun n hn => ?_⟩
    · rw [Table.find_insert, if_pos rfl]
    · rw [Table.find_insert, if_neg hn]
  · rintro σ r args e rfl hname
    refine ⟨fun hmacro he => ?_, fun he => ?_⟩
    · rw [Reading.define_of_error hname hmacro he]
      exact ⟨rfl, rfl⟩
    · rw [Reading.undef_of_error hname he]
      exact ⟨rfl, rfl⟩

def spacedSum : Table :=
  ⟨[("SUM", .object [.number "1", ⟨.space, "  "⟩, .punct "+", .blank, .number "2"])]⟩

lemma isBody_of_tokenize {ts : List Token} (line : String) (h : tokenize line = ts)
    (htrim : trim ts = ts) : IsBody ts :=
  ⟨⟨line, h ▸ List.infix_refl _⟩, htrim⟩

lemma bodied_spacedSum : spacedSum.Bodied := by
  intro name m hm
  simp only [spacedSum, Table.find?, List.lookup] at hm
  split at hm <;> cases hm
  exact isBody_of_tokenize "1  + 2" (by cbv) rfl

open Preprocess in
theorem definition_accepted_iff_of_spacing :
    let run : Run Unit := { Run.start .default false () with table := spacedSum }
    let r : Reading Unit := ⟨{ name := "t", depth := 0, file := 0 }, run⟩
    let args := [.ident "SUM", .blank, .number "1", .punct "+", .number "2"]
    (∃ t', spacedSum.define "SUM"
      (.object [.number "1", .blank, .punct "+", .blank, .number "2"]) = .ok t') ∧
      (r.define args).run.table = spacedSum ∧
      (r.define args).run.faults = [⟨"t", 1, "#define", .replacement (.redefined "SUM")⟩] := by
  intro run r args
  have hblanks : IsBody [.number "1", .blank, .punct "+", .blank, .number "2"] :=
    isBody_of_tokenize "1 + 2" (by cbv) rfl
  have hclose : IsBody [.number "1", .punct "+", .number "2"] :=
    isBody_of_tokenize "1+2" (by cbv) rfl
  have haccepted := (definition_accepted_iff bodied_spacedSum "SUM" (m := .object _) hblanks).1
  have hrefused :=
    (definition_accepted_iff bodied_spacedSum "SUM" (m := .object _) hclose).2.2 r args
    (.redefined "SUM") rfl rfl
  refine ⟨haccepted.mpr ⟨by decide, by decide, ?_⟩, hrefused.1 rfl rfl⟩
  rintro old hold
  obtain rfl := Option.some.inj hold
  decide

end Macro

end ShaderPipeline
