import Mathlib.Data.List.Nodup
import Mathlib.Data.List.TakeWhile
import ShaderPipeline.Proofs.Macro.Append
import ShaderPipeline.Proofs.Macro.Origin

namespace ShaderPipeline.Macro

inductive Balanced : (commas : Bool) → List Token → Prop
  | nil {commas : Bool} : Balanced commas []
  | token {commas : Bool} {x : Token} {ts : List Token} : x ≠ .punct "(" → x ≠ .punct ")" →
      (x = .punct "," → commas = true) → Balanced commas ts → Balanced commas (x :: ts)
  | group {commas : Bool} {inner ts : List Token} : Balanced true inner → Balanced commas ts →
      Balanced commas (.punct "(" :: (inner ++ .punct ")" :: ts))

def call (name : String) (gap : List Token) (args : List (List Token)) : List Token :=
  .ident name :: (gap ++ .punct "(" :: ([.punct ","].intercalate args ++ [.punct ")"]))

lemma isPunct_iff {x : Token} {text : String} : x.isPunct text = true ↔ x = .punct text := by
  obtain ⟨kind, text'⟩ := x
  simp [Token.isPunct, Token.punct]

lemma Pending.ofTokens_cons (x : Token) (ts : List Token) :
    ofTokens (x :: ts) = .token x :: ofTokens ts :=
  rfl

lemma Pending.ofTokens_append (ts us : List Token) :
    ofTokens (ts ++ us) = ofTokens ts ++ ofTokens us :=
  List.map_append

namespace Arguments

variable {commas : Bool} {depth : Nat} {ts : List Token} {q : List Pending}

lemma foldr_push (ts : List Token) {a : Arguments} {arg : List Token} {args : List (List Token)}
    (h : a.args = arg :: args) : ts.foldr push a = { a with args := (ts ++ arg) :: args } := by
  induction ts with
  | nil => rw [List.foldr_nil, List.nil_append, ← h]
  | cons x ts ih => rw [List.foldr_cons, ih]; rfl

lemma collect_token {x : Token} (hclose : depth = 0 → x ≠ .punct ")")
    (hcomma : depth = 0 → x ≠ .punct ",") :
    collect? depth (.token x :: q) = (collect? (depthAfter depth x) q).map (push x) := by
  simp only [collect?, isPunct_iff]
  rw [if_neg (by grind), if_neg (by grind)]

lemma collect_balanced (h : Balanced commas ts) (hdepth : commas = true → 0 < depth)
    (q : List Pending) :
    collect? depth (Pending.ofTokens ts ++ q) = (collect? depth q).map (ts.foldr push) := by
  induction h generalizing depth q with
  | nil => exact Option.map_id'.symm
  | @token commas x ts hopen hclose hcomma _ ih =>
    have hafter : depthAfter depth x = depth := by simp [depthAfter, isPunct_iff, hopen, hclose]
    have hx : depth = 0 → x ≠ .punct "," := by
      rintro rfl rfl
      exact absurd (hdepth (hcomma rfl)) (Nat.lt_irrefl 0)
    rw [Pending.ofTokens_cons, List.cons_append, collect_token (fun _ => hclose) hx, hafter,
      ih hdepth, Option.map_map]
    rfl
  | @group commas inner ts _ _ ihinner ih =>
    have hopen : depthAfter depth (.punct "(") = depth + 1 := rfl
    have hclose : depthAfter (depth + 1) (.punct ")") = depth := rfl
    rw [Pending.ofTokens_cons, Pending.ofTokens_append, Pending.ofTokens_cons, List.cons_append,
      List.append_assoc, List.cons_append, collect_token (fun _ => by decide) (fun _ => by decide),
      hopen,
      ihinner (fun _ => Nat.succ_pos depth), collect_token (by omega) (by omega), hclose, ih hdepth]
    simp only [Option.map_map, List.foldr_cons, List.foldr_append]
    rfl

lemma collect_arguments {args : List (List Token)} (hargs : args ≠ [])
    (h : ∀ a ∈ args, Balanced false a) (q : List Pending) :
    collect? 0 (Pending.ofTokens ([.punct ","].intercalate args) ++ .token (.punct ")") :: q) =
      some ⟨args, [], q⟩ := by
  induction args with
  | nil => exact (hargs rfl).elim
  | cons a args ih =>
    obtain ⟨ha, hrest⟩ := List.forall_mem_cons.mp h
    cases args with
    | nil =>
      have hend : collect? 0 (.token (.punct ")") :: q) = some ⟨[[]], [], q⟩ := rfl
      rw [List.intercalate_singleton, collect_balanced ha nofun, hend, Option.map_some,
        foldr_push a rfl, List.append_nil]
    | cons a' args =>
      have hcomma (q) : collect? 0 (.token (.punct ",") :: q) = (collect? 0 q).map nextArgument :=
        rfl
      rw [List.intercalate_cons_cons, Pending.ofTokens_append, Pending.ofTokens_append,
        List.append_assoc, List.append_assoc, collect_balanced ha nofun, Pending.ofTokens_cons,
        List.cons_append, hcomma]
      change ((collect? 0 (Pending.ofTokens ([.punct ","].intercalate (a' :: args)) ++ _)).map
        _).map _ = _
      rw [ih (by simp) hrest, Option.map_some, Option.map_some, foldr_push a rfl, List.append_nil]
      rfl

end Arguments

lemma opening_gap {gap : List Token} (h : ∀ x ∈ gap, x.isSpace = true) (q : List Pending) :
    opening (Pending.ofTokens gap ++ .token (.punct "(") :: q) = .paren [] q := by
  induction gap with
  | nil => rfl
  | cons x gap ih =>
    obtain ⟨hx, hgap⟩ := List.forall_mem_cons.mp h
    rw [Pending.ofTokens_cons, List.cons_append, opening, if_pos hx, ih hgap]

lemma invocation_call {gap : List Token} (hgap : ∀ x ∈ gap, x.isSpace = true)
    {args : List (List Token)} (hargs : args ≠ []) (h : ∀ a ∈ args, Balanced false a)
    (q : List Pending) :
    invocation (Pending.ofTokens (gap ++ .punct "(" :: ([.punct ","].intercalate args ++
      [.punct ")"])) ++ q) =
      .arguments ⟨args.map Token.trim, [], q⟩ := by
  have hcollect := Arguments.collect_arguments hargs h q
  rw [Pending.ofTokens_append, Pending.ofTokens_cons, Pending.ofTokens_append, List.append_assoc,
    List.cons_append, List.append_assoc, invocation, opening_gap hgap]
  simp only [Pending.ofTokens, List.map_cons, List.map_nil, List.singleton_append] at hcollect ⊢
  rw [hcollect]
  rfl

lemma trim_eq_nil_iff {ts : List Token} : Token.trim ts = [] ↔ ∀ x ∈ ts, x.isSpace = true := by
  simp only [Token.trim, Token.trimEnd, Token.trimStart, List.reverse_eq_nil_iff,
    List.dropWhile_eq_nil_iff, List.mem_reverse]
  constructor
  · intro h
    cases hd : ts.dropWhile Token.isSpace with
    | nil => exact List.dropWhile_eq_nil_iff.mp hd
    | cons x rest =>
      have hx : x.isSpace = true := h x (by simp [hd])
      have hn := List.head_dropWhile_not Token.isSpace (l := ts) (by simp [hd])
      simp [hd, hx] at hn
  · exact fun h x hx => h x ((List.dropWhile_sublist _).subset hx)

def Takes (params : List String) (args : List (List Token)) : Prop :=
  args.length = params.length ∨ params = [] ∧ ∃ a, args = [a] ∧ ∀ x ∈ a, x.isSpace = true

lemma fits_trim_iff {params : List String} {args : List (List Token)} :
    fits params (args.map Token.trim) = true ↔ Takes params args := by
  have hblank : args.map Token.trim = [[]] ↔ ∃ a, args = [a] ∧ ∀ x ∈ a, x.isSpace = true := by
    simp only [← trim_eq_nil_iff, List.map_eq_singleton_iff]
  simp [fits, Takes, hblank]

structure Fills (params : List String) (args : List (List Token)) (piece : Token → List Token) :
    Prop where
  parameter : ∀ i (hp : i < params.length) (ha : i < args.length) (x : Token),
    x.isIdent params[i] → piece x = Token.trim args[i]
  other : ∀ x : Token, (∀ p ∈ params, ¬ x.isIdent p) → piece x = [x]

lemma lookup_zip {params : List String} (h : params.Nodup) {args : List (List Token)} {i : Nat}
    (hp : i < params.length) (ha : i < args.length) :
    (params.zip args).lookup params[i] = some args[i] := by
  induction params generalizing args i with
  | nil => exact absurd hp (Nat.not_lt_zero i)
  | cons p params ih =>
    obtain ⟨hmem, hrest⟩ := List.nodup_cons.mp h
    obtain ⟨a, args, rfl⟩ := List.exists_cons_of_length_pos (Nat.zero_lt_of_lt ha)
    cases i with
    | zero => simp
    | succ i =>
      have hi : i < params.length := Nat.lt_of_succ_lt_succ hp
      have hne : params[i] ≠ p := fun he => hmem (he ▸ List.getElem_mem hi)
      have hbeq : (params[i] == p) = false := beq_eq_false_iff_ne.mpr hne
      simp only [List.zip_cons_cons, List.getElem_cons_succ, List.lookup_cons, hbeq]
      exact ih hrest hi (Nat.lt_of_succ_lt_succ ha)

lemma exists_fills {params : List String} (h : params.Nodup) (args : List (List Token)) :
    ∃ piece, Fills params args piece ∧
      ∀ body, substitute body params (args.map Token.trim) = body.flatMap piece := by
  refine ⟨_, ⟨?_, ?_⟩, fun _ => rfl⟩
  · intro i hp ha x hx
    obtain ⟨hk, hx⟩ : x.kind = .ident ∧ x.text = params[i] := by simpa [Token.isIdent] using hx
    have htrim : i < (args.map Token.trim).length := by simpa using ha
    have hl := lookup_zip h hp htrim
    rw [if_pos hk, hx, hl, Option.getD_some, List.getElem_map]
  · intro x hx
    split
    · rename_i hk
      have hnone : (params.zip (args.map Token.trim)).lookup x.text = none := by
        rw [List.lookup_eq_none_iff]
        intro p hp
        have hne : x.text ≠ p.1 :=
          fun he => hx p.1 (List.of_mem_zip hp).1 (by simp [Token.isIdent, hk, he])
        simpa using hne
      rw [hnone, Option.getD_none]
    · rfl

namespace Table

variable {t : Table} {b : Builtins} {o : Bool} {d : List String} {q : List Pending}

lemma inert_of_fills {params : List String} {args : List (List Token)} {piece : Token → List Token}
    {body : List Token} (h : Fills params args piece) (htakes : Takes params args)
    (hbody : ∀ x ∈ body, t.Inert b x ∨ ∃ p ∈ params, x.isIdent p) (hinert : ∀ a ∈ args, ∀ x ∈ a,
      t.Inert b x) :
    ∀ x ∈ body.flatMap piece, t.Inert b x := by
  intro x hx
  obtain ⟨y, hy, hx⟩ := List.mem_flatMap.mp hx
  by_cases hparam : ∃ p ∈ params, y.isIdent p = true
  · obtain ⟨p, hp, hyp⟩ := hparam
    obtain ⟨i, hi, rfl⟩ := List.getElem_of_mem hp
    have hlength : args.length = params.length := by
      rcases htakes with hlength | ⟨rfl, -⟩
      · exact hlength
      · cases hp
    rw [h.parameter i hi (by omega) y hyp] at hx
    exact hinert _ (List.getElem_mem _) x (Token.mem_of_mem_trim hx)
  · rw [h.other y (by simpa using hparam)] at hx
    rw [List.mem_singleton.mp hx]
    exact (hbody y hy).resolve_right hparam

lemma rescan_inert_append {ts : List Token} (h : ∀ x ∈ ts, t.Inert b x) :
    t.rescan b o (Pending.ofTokens ts ++ q) d = (t.rescan b o q d).map (.prepend ts) :=
  rescan_append (rescan_of_inert h) rfl o q

lemma replaceArguments_of_inert {args : List (List Token)} (h : ∀ a ∈ args, ∀ x ∈ a, t.Inert b x) :
    t.replaceArguments b d args = .ok args := by
  induction args with
  | nil => rfl
  | cons a args ih =>
    obtain ⟨ha, hargs⟩ := List.forall_mem_cons.mp h
    have hrest := ih hargs
    rw [replaceArguments] at hrest ⊢
    rw [List.mapM_cons, rescan_of_inert ha, hrest]
    rfl

theorem call_replaced {name : String} {params : List String} {body : List Token}
    (hname : t.find? name = some (.function params body)) (hvalue : b.value? name = none)
    (hparams : params.Nodup) (hbody : ∀ x ∈ body, t.Inert b x ∨ ∃ p ∈ params, x.isIdent p)
    {args : List (List Token)} (hargs : args ≠ [])
    (hbalanced : ∀ a ∈ args, Balanced false a) (hinert : ∀ a ∈ args, ∀ x ∈ a, t.Inert b x)
    {gap : List Token}
    (hgap : ∀ x ∈ gap, x.isSpace = true) (rest : List Token) :
    (Takes params args → ∃ piece, Fills params args piece ∧
      t.expand b (call name gap args ++ rest) = (t.expand b rest).map (body.flatMap piece ++ ·)) ∧
    (¬ Takes params args →
      t.expand b (call name gap args ++ rest) =
        .error (.arity name params.length args.length)) := by
  have hinvocation := invocation_call hgap hargs hbalanced (Pending.ofTokens rest)
  have hstart : Pending.ofTokens (call name gap args ++ rest) = .token (.ident name) ::
      (Pending.ofTokens (gap ++ .punct "(" :: ([.punct ","].intercalate args ++ [.punct ")"])) ++
        Pending.ofTokens rest) := by
    rw [call, List.cons_append, Pending.ofTokens_cons, Pending.ofTokens_append]
  generalize Pending.ofTokens (gap ++ .punct "(" :: ([.punct ","].intercalate args ++
    [.punct ")"])) ++
    Pending.ofTokens rest = q at hinvocation hstart
  have henabled : t.enabled? [] name = some (.function params body) := by
    simpa [enabled?] using hname
  have haction : t.action b false [] (.ident name) q =
      if fits params (args.map Token.trim) then
        .invoke (.function params body) params ⟨args.map Token.trim, [], Pending.ofTokens rest⟩
      else .fail (.arity name params.length args.length) := by
    simp [action, Token.ident, hvalue, henabled, Macro.function, hinvocation]
  rw [expand, hstart]
  constructor
  · intro htakes
    rw [if_pos (fits_trim_iff.mpr htakes)] at haction
    obtain ⟨piece, hpiece, hsubstitute⟩ := exists_fills hparams args
    have htrimmed : ∀ a ∈ args.map Token.trim, ∀ x ∈ a, t.Inert b x := by
      rintro _ ha x hx
      obtain ⟨a, hmem, rfl⟩ := List.mem_map.mp ha
      exact hinert a hmem x (Token.mem_of_mem_trim hx)
    have hfilled := inert_of_fills hpiece htakes hbody hinert
    refine ⟨piece, hpiece, ?_⟩
    rw [rescan_invoke haction, replaceArguments_of_inert htrimmed]
    change ((t.rescan b false (Pending.ofTokens (substitute body params (args.map Token.trim)) ++
      .enable name :: [] ++ Pending.ofTokens rest) ([] ++ [name])).map _) = _
    rw [hsubstitute, List.append_assoc, rescan_inert_append hfilled, List.cons_append,
      List.nil_append, rescan_enable, eraseLast_append_self, expand]
    cases t.rescan b false (Pending.ofTokens rest) [] <;> rfl
  · intro htakes
    rw [if_neg (fun hfits => htakes (fits_trim_iff.mp hfits))] at haction
    rw [rescan_fail haction]
    rfl

def swapping : Table :=
  ⟨[("F", .function ["x", "y"] [.ident "y", .punct "-", .ident "x"]), ("N", .object [.number "1"])]⟩

example : swapping.expand ⟨1, 0, 110⟩ (call "F" [] [[.ident "a"]] ++ [.ident "N"]) =
    .error (.arity "F" 2 1) := by
  cbv

def swappedArgs : List (List Token) :=
  [[.blank, .ident "y"], [.punct "(", .number "2", .punct ",", .ident "x", .punct ")"]]

lemma balanced_swappedArgs : ∀ a ∈ swappedArgs, Balanced false a := by
  have hinner : Balanced true [.number "2", .punct ",", .ident "x"] := by
    refine .token (by decide) (by decide) (by decide)
      (.token (by decide) (by decide) (by decide) ?_)
    exact .token (by decide) (by decide) (by decide) .nil
  simp only [swappedArgs, List.forall_mem_cons]
  refine ⟨.token (by decide) (by decide) (by decide) ?_, .group hinner .nil, by simp⟩
  exact .token (by decide) (by decide) (by decide) .nil

theorem call_replaced_of_swapping :
    swapping.expand ⟨1, 0, 110⟩ (call "F" [.blank] swappedArgs ++ [.ident "N"]) =
      .ok [.punct "(", .number "2", .punct ",", .ident "x", .punct ")", .punct "-", .ident "y",
        .number "1"] := by
  have hname :
      swapping.find? "F" = some (.function ["x", "y"] [.ident "y", .punct "-", .ident "x"]) := rfl
  have hbody : ∀ x ∈ [.ident "y", .punct "-", .ident "x"],
      swapping.Inert ⟨1, 0, 110⟩ x ∨ ∃ p ∈ ["x", "y"], x.isIdent p := by
    simp [Inert, Token.isIdent, Token.ident, Token.punct]
  have hinert : ∀ a ∈ swappedArgs, ∀ x ∈ a, swapping.Inert ⟨1, 0, 110⟩ x := by
    simp [swappedArgs, Inert, Token.ident, Token.punct, Token.number, Token.blank, Builtins.value?,
      swapping, find?, List.lookup_cons]
  have hgap : ∀ x ∈ [Token.blank], x.isSpace = true := by decide
  obtain ⟨piece, hpiece, hcall⟩ :=
    (call_replaced hname rfl (by decide) hbody (by decide) balanced_swappedArgs hinert
    hgap [.ident "N"]).1 (.inl rfl)
  have hy : piece (.ident "y") = [.punct "(", .number "2", .punct ",", .ident "x", .punct ")"] :=
    hpiece.parameter 1 (by decide) (by decide) _ rfl
  have hx : piece (.ident "x") = [.ident "y"] := hpiece.parameter 0 (by decide) (by decide) _ rfl
  have hminus : piece (.punct "-") = [.punct "-"] := hpiece.other _ (by decide)
  have hrest : swapping.expand ⟨1, 0, 110⟩ [.ident "N"] = .ok [.number "1"] := by cbv
  rw [hcall, hrest]
  simp [hx, hy, hminus, Except.map]

end Table

end ShaderPipeline.Macro
