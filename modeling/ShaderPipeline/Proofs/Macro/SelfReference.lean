import Mathlib
import ShaderPipeline.Proofs.Macro.Calls

/-! A name that its own macro leaves is not marked as left, so that it is replaced again each time
that it passes through an argument. -/

namespace ShaderPipeline.Macro

def passed (f name : String) : Nat → List Token
  | 0 => [.ident name]
  | n + 1 => call f [] [passed f name n]

def wrapped (before after : List Token) (x : Token) : Nat → List Token
  | 0 => [x]
  | n + 1 => before ++ (wrapped before after x n ++ after)

lemma Balanced.commas {ts : List Token} (h : Balanced false ts) : Balanced true ts := by
  generalize hc : false = commas at h
  induction h with
  | nil => exact .nil
  | token hopen hclose hcomma _ ih => exact .token hopen hclose (fun _ => rfl) (ih hc)
  | group hinner _ _ ih => exact .group hinner (ih hc)

lemma balanced_ident (name : String) {ts : List Token} (h : Balanced false ts) :
    Balanced false (.ident name :: ts) :=
  .token nofun nofun nofun h

lemma balanced_passed (f name : String) (n : Nat) : Balanced false (passed f name n) := by
  induction n with
  | zero => exact balanced_ident name .nil
  | succ n ih =>
    have hcall :
        passed f name (n + 1) =
          .ident f :: .punct "(" :: (passed f name n ++ .punct ")" :: []) := by
      simp [passed, call]
    rw [hcall]
    exact balanced_ident f (.group ih.commas .nil)

lemma trim_passed (f name : String) (n : Nat) : Token.trim (passed f name n) = passed f name n := by
  cases n with
  | zero => rfl
  | succ n =>
    have hfirst : ∀ ts, Token.trimStart (.ident f :: ts) = .ident f :: ts := fun _ => rfl
    have hlast : ∀ ts, Token.trimEnd (ts ++ [.punct ")"]) = ts ++ [.punct ")"] := by
      intro ts
      rw [Token.trimEnd, List.reverse_concat, List.dropWhile_cons_of_neg (by decide),
        ← List.reverse_concat, List.reverse_reverse]
    have hcall :
        passed f name (n + 1) = .ident f :: .punct "(" :: passed f name n ++ [.punct ")"] := by
      simp [passed, call]
    rw [hcall, Token.trim, List.cons_append, hfirst, ← List.cons_append, hlast]

namespace Table

variable {t : Table} {b : Builtins} {o : Bool} {d : List String} {q : List Pending}
  {name f p : String} {before after : List Token}

structure SelfReference (t : Table) (b : Builtins) (name : String) (before after : List Token) :
    Prop where
  find : t.find? name = some (.object (before ++ .ident name :: after))
  value : b.value? name = none
  inertBefore : ∀ x ∈ before, t.Inert b x
  inertAfter : ∀ x ∈ after, t.Inert b x

structure Passing (t : Table) (b : Builtins) (f p : String) : Prop where
  find : t.find? f = some (.function [p] [.ident p])
  value : b.value? f = none

namespace SelfReference

variable (h : t.SelfReference b name before after)

include h

lemma rescan_left (hd : name ∈ d) :
    t.rescan b o (.token (.ident name) :: q) d = (t.rescan b o q d).map (.push (.ident name)) := by
  apply rescan_write
  simp [action, Token.ident, h.value, enabled?, hd]

lemma rescan_name (hd : name ∉ d) : t.rescan b o (.token (.ident name) :: q) d =
    (t.rescan b o q d).map (.prepend (before ++ .ident name :: after)) := by
  have haction :
      t.action b o d (.ident name) q = .replace (.object (before ++ .ident name :: after)) := by
    simp [action, Token.ident, h.value, enabled?, hd, h.find, Macro.object]
  have hbody : Pending.ofTokens (before ++ .ident name :: after) ++ .enable name :: q =
      Pending.ofTokens before ++ (.token (.ident name) :: (Pending.ofTokens after ++
        .enable name :: q)) := by
    simp [Pending.ofTokens]
  have hleft : name ∈ d ++ [name] := by simp
  rw [rescan_replace haction]
  change t.rescan b o (Pending.ofTokens (before ++ .ident name :: after) ++ .enable name :: q)
    (d ++ [name]) = _
  rw [hbody, rescan_inert_append h.inertBefore, h.rescan_left hleft,
    rescan_inert_append h.inertAfter, rescan_enable, eraseLast_append_self, map_prepend_push]
  cases t.rescan b o q d <;> simp [Except.map, Rescan.prepend]

lemma rescan_wrapped (hd : name ∉ d) (n : Nat) (q : List Pending) :
    t.rescan b o (Pending.ofTokens (wrapped before after (.ident name) n) ++ q) d =
      (t.rescan b o q d).map (.prepend (wrapped before after (.ident name) (n + 1))) := by
  induction n generalizing q with
  | zero => exact h.rescan_name hd
  | succ n ih =>
    rw [wrapped, Pending.ofTokens_append, Pending.ofTokens_append, List.append_assoc,
      List.append_assoc, rescan_inert_append h.inertBefore, ih, rescan_inert_append h.inertAfter]
    cases t.rescan b o q d <;> simp [Except.map, Rescan.prepend, wrapped]

end SelfReference

lemma Passing.rescan_call (hf : t.Passing b f p) (hd : f ∉ d) {arg : List Token}
    (harg : Balanced false arg) {r : Rescan}
    (hr : t.rescan b false (Pending.ofTokens (Token.trim arg)) d = .ok r) :
    t.rescan b o (Pending.ofTokens (call f [] [arg]) ++ q) d =
      t.rescan b o (Pending.ofTokens r.out ++ .enable f :: q) (d ++ [f]) := by
  have hinvocation :=
    @invocation_call [] nofun [arg] (List.cons_ne_nil arg []) (List.forall_mem_singleton.mpr harg) q
  rw [call, Pending.ofTokens_cons, List.cons_append]
  generalize Pending.ofTokens ([] ++ .punct "(" :: ([.punct ","].intercalate [arg] ++
    [.punct ")"])) ++ q = q'
    at hinvocation
  have haction : t.action b o d (.ident f) q' =
      .invoke (.function [p] [.ident p]) [p] ⟨[Token.trim arg], [], q⟩ := by
    simp [action, Token.ident, hf.value, enabled?, hd, hf.find, Macro.function, hinvocation, fits]
  have hreplaced : t.replaceArguments b d [Token.trim arg] = .ok [r.out] := by
    rw [replaceArguments, List.mapM_cons, hr]
    rfl
  have hsubstitute : substitute [.ident p] [p] [r.out] = r.out := by
    simp [substitute, Token.ident, List.lookup_cons]
  rw [rescan_invoke haction]
  simp only [hreplaced]
  change t.rescan b o (Pending.ofTokens (substitute [.ident p] [p] [r.out]) ++ .enable f ::
    Pending.marks [] ++ q)
    (d ++ [f]) = _
  rw [hsubstitute, List.append_assoc]
  rfl

lemma rescan_passed (h : t.SelfReference b name before after) (hf : t.Passing b f p) (n : Nat) :
    t.rescan b false (Pending.ofTokens (passed f name n)) [] =
      .ok ⟨wrapped before after (.ident name) (n + 1), true, []⟩ := by
  have hne : name ≠ f := by
    rintro rfl
    cases h.find.symm.trans hf.find
  induction n with
  | zero =>
    have hname := h.rescan_wrapped (o := false) (d := []) List.not_mem_nil 0 []
    rw [rescan_nil] at hname
    simpa [passed, wrapped, Except.map, Rescan.prepend] using hname
  | succ n ih =>
    -- in the argument the name has been replaced once more than calls stand around it there
    have harg :=
      (congrArg (fun ts => t.rescan b false (Pending.ofTokens ts) []) (trim_passed f name n)).trans
        ih
    have hcall :=
      hf.rescan_call (o := false) (q := []) List.not_mem_nil (balanced_passed f name n) harg
    have hd : name ∉ [] ++ [f] := by simpa using hne
    rw [List.append_nil] at hcall
    rw [passed, hcall, h.rescan_wrapped hd, rescan_enable, eraseLast_append_self, rescan_nil]
    simp [Except.map, Rescan.prepend]

/-- A name in its own macro is replaced once for itself and once more for each call that it is an
argument of. One call makes no difference only where the macro stands for its own name alone. -/
theorem passed_replaced (h : t.SelfReference b name before after) (hf : t.Passing b f p) :
    (∀ n, t.expand b (passed f name n) = .ok (wrapped before after (.ident name) (n + 1))) ∧
    (t.expand b (call f [] [[.ident name]]) = t.expand b [.ident name] ↔ before = [] ∧
      after = []) := by
  have hpassed :
      ∀ n, t.expand b (passed f name n) = .ok (wrapped before after (.ident name) (n + 1)) := by
    intro n
    rw [expand, rescan_passed h hf]
    rfl
  refine ⟨hpassed, ?_⟩
  have hname : t.expand b [.ident name] = .ok (before ++ ([.ident name] ++ after)) := hpassed 0
  have hcall : t.expand b (call f [] [[.ident name]]) =
      .ok (before ++ (before ++ ([.ident name] ++ after) ++ after)) :=
    hpassed 1
  rw [hname, hcall, Except.ok.injEq]
  constructor
  · intro heq
    have hlength := congrArg List.length heq
    simp only [List.length_append, List.length_singleton] at hlength
    exact ⟨List.length_eq_zero_iff.mp (by omega), List.length_eq_zero_iff.mp (by omega)⟩
  · rintro ⟨rfl, rfl⟩
    simp

def summing : Table :=
  ⟨[("M", .object [.ident "x", .punct "+", .ident "M"]), ("F", .function ["y"] [.ident "y"])]⟩

lemma selfReference_summing :
    summing.SelfReference ⟨1, 0, 110⟩ "M" [.ident "x", .punct "+"] [] := by
  refine ⟨rfl, rfl, ?_, List.forall_mem_nil _⟩
  simp [Inert, Token.ident, Token.punct, Builtins.value?, summing, find?, List.lookup_cons]

theorem passed_replaced_of_summing :
    summing.SelfReference ⟨1, 0, 110⟩ "M" [.ident "x", .punct "+"] [] ∧
    summing.Passing ⟨1, 0, 110⟩ "F" "y" ∧
      summing.expand ⟨1, 0, 110⟩ (call "F" [] [call "F" [] [[.ident "M"]]]) =
        .ok [.ident "x", .punct "+", .ident "x", .punct "+", .ident "x", .punct "+",
          .ident "M"] := by
  have hf : summing.Passing ⟨1, 0, 110⟩ "F" "y" := ⟨rfl, rfl⟩
  exact ⟨selfReference_summing, hf, (passed_replaced selfReference_summing hf).1 2⟩

theorem summing_replaced_twice :
    summing.SelfReference ⟨1, 0, 110⟩ "M" [.ident "x", .punct "+"] [] ∧
    summing.Passing ⟨1, 0, 110⟩ "F" "y" ∧
      summing.expand ⟨1, 0, 110⟩ [.ident "M"] = .ok [.ident "x", .punct "+", .ident "M"] ∧
      summing.expand ⟨1, 0, 110⟩ (call "F" [] [[.ident "M"]]) =
        .ok [.ident "x", .punct "+", .ident "x", .punct "+", .ident "M"] :=
  ⟨selfReference_summing, ⟨rfl, rfl⟩, by cbv, by cbv⟩

end Table

end ShaderPipeline.Macro
