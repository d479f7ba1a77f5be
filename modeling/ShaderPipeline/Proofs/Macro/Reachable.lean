import Mathlib
import ShaderPipeline.Proofs.Macro.Origin

/-! The macros that a text can come to. No others have a part in its replacement. -/

namespace ShaderPipeline.Macro.Table

variable {t t' : Table} {b : Builtins} {ts : List Token}

/-- The names in a text, and those in the bodies of their macros, and so on. -/
inductive Reachable (t : Table) (ts : List Token) : String → Prop
  | text {x : Token} : x ∈ ts → x.kind = .ident → Reachable t ts x.text
  | body {name : String} {m : Macro} {x : Token} :
      Reachable t ts name → t.find? name = some m → x ∈ m.body →
      x.kind = .ident → Reachable t ts x.text

def AgreesFrom (t : Table) (ts : List Token) (t' : Table) : Prop :=
  ∀ name, t.Reachable ts name → t.find? name = t'.find? name

lemma carries_reachable (t : Table) (ts : List Token) :
    t.Carries fun x => x.kind = .ident → t.Reachable ts x.text :=
  fun _ _ hx hk hm _ hy hky => (hx hk).body hm hy hky

lemma AgreesFrom.rescan_eq (h : t.AgreesFrom ts t') (b : Builtins) (o : Bool) :
    t.rescan b o (Pending.ofTokens ts) [] = t'.rescan b o (Pending.ofTokens ts) [] := by
  refine rescan_congr (P := fun x => x.kind = .ident → t.Reachable ts x.text) ?_ ?_
    (t.carries_reachable ts) ?_
  · exact fun x hx hk => ⟨rfl, h x.text (hx hk)⟩
  · intro name v hv hk
    cases hk.symm.trans (kind_of_value hv)
  · exact tokens_ofTokens.mpr fun x hx hk => .text hx hk

lemma AgreesFrom.replaced (h : t.AgreesFrom ts t') (b : Builtins) :
    t.expand b ts = t'.expand b ts ∧ t.expandOpen b ts = t'.expandOpen b ts :=
  ⟨congrArg _ (h.rescan_eq b false), congrArg _ (h.rescan_eq b true)⟩

lemma agreesFrom_insert {name : String} (h : ¬ t.Reachable ts name) (m : Macro) :
    t.AgreesFrom ts (t.insert name m) := by
  intro n hn
  have hne : n ≠ name := fun he => h (he ▸ hn)
  rw [find_insert, if_neg hne]

lemma agreesFrom_erase {name : String} (h : ¬ t.Reachable ts name) :
    t.AgreesFrom ts (t.erase name) := by
  intro n hn
  have hne : n ≠ name := fun he => h (he ▸ hn)
  rw [find_erase, if_neg hne]

theorem replaced_by_reachable (t : Table) (b : Builtins) (ts : List Token) :
    (∀ t', t.AgreesFrom ts t' → t.expand b ts = t'.expand b ts ∧
      t.expandOpen b ts = t'.expandOpen b ts) ∧
    ∀ name, ¬ t.Reachable ts name →
      (∀ m, t.expand b ts = (t.insert name m).expand b ts ∧
        t.expandOpen b ts = (t.insert name m).expandOpen b ts) ∧
      t.expand b ts = (t.erase name).expand b ts ∧
      t.expandOpen b ts = (t.erase name).expandOpen b ts :=
  ⟨fun _ h => h.replaced b, fun _ h => ⟨fun m => (agreesFrom_insert h m).replaced b,
    (agreesFrom_erase h).replaced b⟩⟩

def layered : Table :=
  ⟨[("F", .function ["x"] [.ident "x", .punct "+", .ident "M"]), ("OLD", .object [.ident "F"]),
    ("M", .object [.number "1"])]⟩

def pruned : Table :=
  ⟨[("M", .object [.number "1"]), ("F", .function ["x"] [.ident "x", .punct "+", .ident "M"])]⟩

def layeredText : List Token :=
  [.ident "F", .punct "(", .ident "M", .punct ")"]

lemma mem_of_reachable_layered {name : String} (h : layered.Reachable layeredText name) :
    name ∈ ["F", "M", "x"] := by
  induction h with
  | @text x hx hk =>
    simp only [layeredText, List.mem_cons, List.not_mem_nil, or_false] at hx
    rcases hx with rfl | rfl | rfl | rfl <;> first | decide | cases hk
  | @body name m x _ hm hx hk ih =>
    simp only [List.mem_cons, List.not_mem_nil, or_false] at ih
    rcases ih with rfl | rfl | rfl
    · obtain rfl := Option.some.inj hm
      simp only [Macro.function, List.mem_cons, List.not_mem_nil, or_false] at hx
      rcases hx with rfl | rfl | rfl <;> first | decide | cases hk
    · obtain rfl := Option.some.inj hm
      simp only [Macro.object, List.mem_cons, List.not_mem_nil, or_false] at hx
      subst hx
      cases hk
    · cases hm

theorem replaced_by_reachable_of_layered :
    layered.AgreesFrom layeredText pruned ∧ ¬ layered.Reachable layeredText "OLD" ∧
      pruned.expand ⟨1, 0, 110⟩ layeredText = .ok [.number "1", .punct "+", .number "1"] ∧
      (layered.insert "OLD" (.object [])).expandOpen ⟨1, 0, 110⟩ layeredText =
        .ok (some [.number "1", .punct "+", .number "1"]) := by
  have hagrees : layered.AgreesFrom layeredText pruned := by
    intro name h
    have hname := mem_of_reachable_layered h
    simp only [List.mem_cons, List.not_mem_nil, or_false] at hname
    rcases hname with rfl | rfl | rfl <;> rfl
  have hold : ¬ layered.Reachable layeredText "OLD" :=
    fun h => absurd (mem_of_reachable_layered h) (by decide)
  have hexpand :
      layered.expand ⟨1, 0, 110⟩ layeredText = .ok [.number "1", .punct "+", .number "1"] := by cbv
  have hopen : layered.expandOpen ⟨1, 0, 110⟩ layeredText =
      .ok (some [.number "1", .punct "+", .number "1"]) := by cbv
  obtain ⟨hreachable, hunreachable⟩ := replaced_by_reachable layered ⟨1, 0, 110⟩ layeredText
  refine ⟨hagrees, hold, ?_, ?_⟩
  · rw [← (hreachable pruned hagrees).1, hexpand]
  · rw [← ((hunreachable "OLD" hold).1 (.object [])).2, hopen]

end ShaderPipeline.Macro.Table
