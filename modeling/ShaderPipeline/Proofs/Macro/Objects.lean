import Mathlib.Logic.Relation
import ShaderPipeline.Proofs.Macro.Append
import ShaderPipeline.Proofs.Macro.Origin

/-! Each token of an object-like replacement stands for a list of tokens of its own. -/

namespace ShaderPipeline.Macro

lemma map_prepend_prepend (r : Except Error Rescan) (ts us : List Token) :
    (r.map (Rescan.prepend us)).map (Rescan.prepend ts) = r.map (Rescan.prepend (ts ++ us)) := by
  cases r with
  | error e => rfl
  | ok r => simp [Except.map, Rescan.prepend]

namespace Table

variable {t : Table} {b : Builtins} {o : Bool} {d : List String} {x : Token} {q : List Pending}
  {ts : List Token}

def OnlyObjects (t : Table) : Prop :=
  ∀ name m, t.find? name = some m → m.params = none

def unfolded (t : Table) (b : Builtins) (d : List String) (x : Token) : List Token :=
  if x.kind ≠ .ident then [x]
  else match b.value? x.text with
    | some v => [v]
    | none =>
      match _h : t.enabled? d x.text with
      | none => [x]
      | some m => m.body.flatMap fun y => t.unfolded b (d ++ [x.text]) y
termination_by t.enabledCount d
decreasing_by exact enabledCount_append_lt _h

lemma unfolded_other (hx : x.kind ≠ .ident) : t.unfolded b d x = [x] := by
  rw [unfolded, if_pos hx]

lemma unfolded_value {v : Token} (hx : x.kind = .ident) (hv : b.value? x.text = some v) :
    t.unfolded b d x = [v] := by
  rw [unfolded, if_neg (not_not_intro hx), hv]

lemma unfolded_name (hx : x.kind = .ident) (hv : b.value? x.text = none)
    (hm : t.enabled? d x.text = none) : t.unfolded b d x = [x] := by
  rw [unfolded, if_neg (not_not_intro hx), hv]
  dsimp only
  split <;> simp_all

lemma unfolded_body {m : Macro} (hx : x.kind = .ident) (hv : b.value? x.text = none)
    (hm : t.enabled? d x.text = some m) :
    t.unfolded b d x = m.body.flatMap (t.unfolded b (d ++ [x.text])) := by
  rw [unfolded, if_neg (not_not_intro hx), hv]
  dsimp only
  split <;> simp_all

lemma unfolded_cases (ht : t.OnlyObjects) (b : Builtins) (o : Bool) (d : List String) (x : Token)
    (q : List Pending) :
    (∃ v, t.action b o d x q = .write v ∧ t.unfolded b d x = [v]) ∨
      ∃ m, t.enabled? d x.text = some m ∧ t.action b o d x q = .replace m ∧
        t.unfolded b d x = m.body.flatMap (t.unfolded b (d ++ [x.text])) := by
  by_cases hx : x.kind = .ident
  · cases hv : b.value? x.text with
    | some v => exact .inl ⟨v, by simp [action, hx, hv], unfolded_value hx hv⟩
    | none =>
      cases hm : t.enabled? d x.text with
      | none => exact .inl ⟨x, by simp [action, hx, hv, hm], unfolded_name hx hv hm⟩
      | some m =>
        have hp : m.params = none := ht _ _ (find_of_enabled hm)
        exact .inr ⟨m, rfl, by simp [action, hx, hv, hm, hp], unfolded_body hx hv hm⟩
  · exact .inl ⟨x, by simp [action, hx], unfolded_other hx⟩

theorem rescan_objects (ht : t.OnlyObjects) (ts : List Token) (q : List Pending) (d : List String) :
    t.rescan b o (Pending.ofTokens ts ++ q) d =
      (t.rescan b o q d).map (.prepend (ts.flatMap (t.unfolded b d))) := by
  induction hn : t.enabledCount d using Nat.strongRecOn generalizing d ts q with
  | ind n ih =>
    induction ts with
    | nil => exact (map_prepend_nil _).symm
    | cons x ts ihts =>
      rw [Pending.ofTokens, List.map_cons, List.cons_append, ← Pending.ofTokens, List.flatMap_cons]
      rcases unfolded_cases ht b o d x (Pending.ofTokens ts ++ q) with ⟨v, ha, hx⟩ | ⟨m, hm, ha, hx⟩
      · rw [rescan_write ha, ihts, map_prepend_push, hx, List.singleton_append]
      · -- the mark behind the body gives back the list of disabled macros at the token
        have hbody :=
          ih _ (hn ▸ enabledCount_append_lt hm) m.body (.enable x.text ::
            (Pending.ofTokens ts ++ q)) _ rfl
        rw [rescan_replace ha, hbody, rescan_enable, eraseLast_append_self, ihts,
          map_prepend_prepend, hx]

def Uses (t : Table) (name name' : String) : Prop :=
  ∃ m, t.find? name = some m ∧ ∃ x ∈ m.body, x.isIdent name'

def Acyclic (t : Table) : Prop :=
  ∀ name, ¬ Relation.TransGen t.Uses name name

lemma inert_of_unfolded (h : t.Acyclic)
    (hd : x.kind = .ident → ∀ name ∈ d, Relation.TransGen t.Uses name x.text) {y : Token}
    (hy : y ∈ t.unfolded b d x) : t.Inert b y := by
  induction d, x using unfolded.induct t b with
  | case1 d x hx =>
    rw [unfolded_other hx] at hy
    obtain rfl := List.mem_singleton.mp hy
    exact fun hk => (hx hk).elim
  | case2 d x hx v hv =>
    rw [unfolded_value (Decidable.not_not.mp hx) hv] at hy
    obtain rfl := List.mem_singleton.mp hy
    intro hk
    cases hk.symm.trans (kind_of_value hv)
  | case3 d x hx hv hm =>
    rw [unfolded_name (Decidable.not_not.mp hx) hv hm] at hy
    obtain rfl := List.mem_singleton.mp hy
    refine fun hk => ⟨hv, ?_⟩
    rw [enabled?] at hm
    split at hm
    · -- a disabled name would be met again on the way from itself
      rename_i hmem
      exact (h y.text (hd hk _ hmem)).elim
    · exact hm
  | case4 d x hx hv m hm ih =>
    have hk := Decidable.not_not.mp hx
    rw [unfolded_body hk hv hm] at hy
    obtain ⟨z, hz, hy⟩ := List.mem_flatMap.mp hy
    refine ih z ?_ hy
    intro hkz name hname
    have huses : t.Uses x.text z.text :=
      ⟨m, find_of_enabled hm, z, hz, by simp [Token.isIdent, hkz]⟩
    rcases List.mem_append.mp hname with hmem | hmem
    · exact (hd hk name hmem).tail huses
    · obtain rfl := List.mem_singleton.mp hmem
      exact .single huses

theorem objects_replaced (t : Table) (b : Builtins) (ht : t.OnlyObjects) (ts us : List Token) :
    t.expand b ts = .ok (ts.flatMap (t.unfolded b [])) ∧
      (∃ out out', t.expand b ts = .ok out ∧ t.expand b us = .ok out' ∧
        t.expand b (ts ++ us) = .ok (out ++ out')) ∧
      (t.Acyclic → ∀ out, t.expand b ts = .ok out → ∀ x ∈ out, t.Inert b x) := by
  have hall : ∀ ts, t.expand b ts = .ok (ts.flatMap (t.unfolded b [])) := by
    intro ts
    have h := rescan_objects (b := b) (o := false) ht ts [] []
    rw [List.append_nil, rescan_nil] at h
    rw [expand, h]
    simp [Except.map, Rescan.prepend]
  refine ⟨hall ts, ⟨_, _, hall ts, hall us, ?_⟩, ?_⟩
  · rw [hall, List.flatMap_append]
  · intro hacyclic out hout y hy
    rw [hall] at hout
    cases hout
    obtain ⟨x, -, hx⟩ := List.mem_flatMap.mp hy
    exact inert_of_unfolded hacyclic (by simp) hx

example :
    (⟨[("A", .object [.ident "A", .ident "B"]), ("B", .object [.ident "A"])]⟩ : Table).expand
      ⟨1, 0, 110⟩
    [.ident "A", .ident "B"] = .ok [.ident "A", .ident "A", .ident "A", .ident "B"] := by
  cbv

def nested : Table :=
  ⟨[("N", .object [.ident "M", .punct "+", .ident "M"]),
    ("M", .object [.ident "__LINE__", .ident "x"])]⟩

lemma find_nested {name : String} {m : Macro} (h : nested.find? name = some m) :
    name = "N" ∧ m = .object [.ident "M", .punct "+", .ident "M"] ∨
      name = "M" ∧ m = .object [.ident "__LINE__", .ident "x"] := by
  simp only [nested, find?, List.lookup_cons, List.lookup_nil] at h
  split at h
  · rename_i hn
    exact .inl ⟨eq_of_beq hn, (Option.some.inj h).symm⟩
  split at h
  · rename_i hn
    exact .inr ⟨eq_of_beq hn, (Option.some.inj h).symm⟩
  · cases h

def nestedRank (name : String) : Nat :=
  if name = "N" then 2 else if name = "M" then 1 else 0

lemma acyclic_nested : nested.Acyclic := by
  have huses : ∀ name name', nested.Uses name name' → nestedRank name' < nestedRank name := by
    rintro name name' ⟨m, hm, x, hx, hname⟩
    obtain ⟨hk, rfl⟩ : x.kind = .ident ∧ x.text = name' := by simpa [Token.isIdent] using hname
    revert x
    rcases find_nested hm with ⟨rfl, rfl⟩ | ⟨rfl, rfl⟩ <;>
      simp [object, Token.ident, Token.punct, nestedRank]
  have hpath : ∀ name name', Relation.TransGen nested.Uses name name' →
      nestedRank name' < nestedRank name := by
    intro name name' h
    induction h with
    | single h => exact huses _ _ h
    | tail _ h ih => exact Nat.lt_trans (huses _ _ h) ih
  exact fun name h => Nat.lt_irrefl _ (hpath name name h)

theorem objects_replaced_of_nested :
    nested.OnlyObjects ∧ nested.Acyclic ∧
      ∃ out, out = [.number "7", .ident "x", .punct "+", .number "7", .ident "x", .punct ";",
        .number "7", .ident "x"] ∧
        nested.expand ⟨7, 0, 110⟩ [.ident "N", .punct ";", .ident "M"] = .ok out ∧
        ∀ x ∈ out, nested.Inert ⟨7, 0, 110⟩ x := by
  have hobjects : nested.OnlyObjects := by
    intro name m hm
    rcases find_nested hm with ⟨-, rfl⟩ | ⟨-, rfl⟩ <;> rfl
  obtain ⟨hexpand, -, hinert⟩ :=
    objects_replaced nested ⟨7, 0, 110⟩ hobjects [.ident "N", .punct ";", .ident "M"] []
  have hout : [Token.ident "N", .punct ";", .ident "M"].flatMap (nested.unfolded ⟨7, 0, 110⟩ []) =
      [.number "7", .ident "x", .punct "+", .number "7", .ident "x", .punct ";", .number "7",
        .ident "x"] := by
    cbv
  rw [hout] at hexpand
  exact ⟨hobjects, acyclic_nested, _, rfl, hexpand, hinert acyclic_nested _ hexpand⟩

end Table

end ShaderPipeline.Macro
