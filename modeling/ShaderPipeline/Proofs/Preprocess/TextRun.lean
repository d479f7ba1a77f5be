import Mathlib
import ShaderPipeline.Preprocess
import ShaderPipeline.Proofs.Macro.Append
import ShaderPipeline.Proofs.Macro.Origin

/-! Lines of text, read one by one, come out as if they had been replaced all at once. -/

namespace ShaderPipeline.Preprocess.Reading

open Macro

variable {σ : Type} {inc : Includer σ} {descent : Descent σ}

def IsText (s : String) : Prop :=
  directiveTokens? (Token.tokenize s) = none

def hold (r : Reading σ) (h : Held) : Reading σ :=
  { r with place := { r.place with held := some h } }

lemma line_of_isText {r : Reading σ} {s : String} (hs : IsText s)
    (hr : r.place.isSkipping = false) : r.line inc descent s = r.text (Token.tokenize s) := by
  rw [IsText] at hs
  simp only [line, hs, hr, Bool.false_eq_true, if_false]

inductive TextStep (r : Reading σ) (h : Held) : Reading σ → Prop
  | written (out : List Token) : r.run.table.expandOpen h.builtins h.tokens = .ok (some out) →
      TextStep r h (r.release.writeText out h.lines)
  | held : r.run.table.expandOpen h.builtins h.tokens = .ok none → TextStep r h (r.hold h)
  | failed (e : Macro.Error) : r.run.table.expandOpen h.builtins h.tokens = .error e →
      TextStep r h ((r.release.fault replacementSite (.replacement e)).writeText h.tokens h.lines)

lemma textStep (r : Reading σ) (ts : List Token) : TextStep r (r.extendHeld ts) (r.text ts) := by
  simp only [text]
  split
  · rename_i out h
    exact .written out h
  · rename_i h
    exact .held h
  · rename_i e h
    exact .failed e h

def lineName : String := "__LINE__"

def NoLine (x : Token) : Prop := ¬ x.isIdent lineName = true

lemma value_of_noLine {b b' : Builtins} {x : Token} (hf : b.file = b'.file)
    (hv : b.version = b'.version) (hx : NoLine x) (hk : x.kind = .ident) :
    b.value? x.text = b'.value? x.text := by
  have hn : x.text ≠ "__LINE__" := by
    intro hn
    exact hx (by simp [Token.isIdent, hk, hn, lineName])
  simp only [Builtins.value?]
  split <;> simp_all

lemma noLine_of_value {b : Builtins} (name : String) (v : Token) (h : b.value? name = some v) :
    NoLine v := by
  simp [NoLine, Token.isIdent, kind_of_value h]

lemma expand_congr {t : Table} {b b' : Builtins} {ts : List Token} (hf : b.file = b'.file)
    (hv : b.version = b'.version) (ht : t.Bodies NoLine) (hts : ∀ x ∈ ts, NoLine x) :
    t.expand b ts = t.expand b' ts ∧ t.expandOpen b ts = t.expandOpen b' ts := by
  have hq := Table.tokens_ofTokens.mpr hts
  have he : ∀ o, t.rescan b o (Pending.ofTokens ts) [] = t.rescan b' o (Pending.ofTokens ts) [] :=
    fun o =>
    Table.rescan_congr (fun x hx hk => ⟨value_of_noLine hf hv hx hk, rfl⟩) noLine_of_value
      ht.carries hq
  exact ⟨congrArg _ (he false), congrArg _ (he true)⟩

def segments (r : Reading σ) (ss : List String) : List (List Token) :=
  (r.place.held.map (·.tokens)).toList ++ ss.map Token.tokenize

def joinLines (tss : List (List Token)) : List Token :=
  [Token.blank].intercalate tss

lemma joinLines_cons (ts : List Token) {tss : List (List Token)} (h : tss ≠ []) :
    joinLines (ts :: tss) = ts ++ .blank :: joinLines tss := by
  obtain ⟨us, tss, rfl⟩ := List.exists_cons_of_ne_nil h
  simp [joinLines, List.intercalate]

lemma joinLines_merge (ts us : List Token) (tss : List (List Token)) :
    joinLines ((ts ++ .blank :: us) :: tss) = joinLines (ts :: us :: tss) := by
  cases tss <;> simp [joinLines, List.intercalate]

lemma joinLines_segments (r : Reading σ) (s : String) (ss : List String) :
    joinLines (r.segments (s :: ss)) =
      joinLines ((r.extendHeld (Token.tokenize s)).tokens :: ss.map Token.tokenize) := by
  simp only [segments, extendHeld, List.map_cons]
  cases r.place.held with
  | none => rfl
  | some h => exact (joinLines_merge _ _ _).symm

lemma expand_blank_cons (t : Table) (b : Builtins) (ts : List Token) :
    t.expand b (.blank :: ts) = (t.expand b ts).map (.blank :: ·) := by
  have ha : t.action b false [] .blank (Pending.ofTokens ts) = .write .blank := rfl
  have hr := Table.rescan_write ha
  simp only [Table.expand, Pending.ofTokens, List.map_cons] at hr ⊢
  rw [hr]
  cases t.rescan b false (ts.map .token) [] <;> rfl

lemma expand_joinLines_cons {t : Table} {b : Builtins} {ts out out' : List Token}
    {tss : List (List Token)} (h : t.expandOpen b ts = .ok (some out))
    (h' : t.expand b (joinLines tss) = .ok out') :
    ∃ us, t.expand b (joinLines (ts :: tss)) = .ok us ∧
    Token.solid us = Token.solid out ++ Token.solid out' := by
  by_cases hn : tss = []
  · subst hn
    rw [show joinLines [] = [] from rfl, Table.expand_nil] at h'
    obtain rfl := Except.ok.inj h'
    refine ⟨out, ?_, by simp [Token.solid]⟩
    rw [show joinLines [ts] = ts by simp [joinLines, List.intercalate]]
    exact Table.expand_of_expandOpen h
  · refine ⟨out ++ .blank :: out', ?_, by simp [Token.solid, Token.isSpace, Token.blank]⟩
    rw [joinLines_cons ts hn, Table.expand_append h, expand_blank_cons, h']
    rfl

def HeldHere (r : Reading σ) : Prop :=
  ∀ h, r.place.held = some h →
    h.builtins.file = r.place.file ∧ h.builtins.version = r.run.version.number ∧
    ∀ x ∈ h.tokens, NoLine x

lemma HeldHere.extend {r : Reading σ} (h : r.HeldHere) {ts : List Token}
    (hts : ∀ x ∈ ts, NoLine x) :
    (r.extendHeld ts).builtins.file = r.place.file ∧
      (r.extendHeld ts).builtins.version = r.run.version.number ∧
      ∀ x ∈ (r.extendHeld ts).tokens, NoLine x := by
  simp only [extendHeld]
  cases hh : r.place.held with
  | none => exact ⟨rfl, rfl, hts⟩
  | some held =>
    obtain ⟨hf, hv, ht⟩ := h held hh
    refine ⟨hf, hv, fun x hx => ?_⟩
    rcases List.mem_append.mp hx with hx | hx
    · exact ht x hx
    · rcases List.mem_cons.mp hx with rfl | hx
      · simp [NoLine, Token.isIdent, Token.blank]
      · exact hts x hx

lemma faults_text (r : Reading σ) (ts : List Token) : r.run.faults <+: (r.text ts).run.faults := by
  have h := textStep r ts
  generalize r.text ts = r' at h
  cases h with
  | written out h => exact List.prefix_rfl
  | held h => exact List.prefix_rfl
  | failed e h => exact List.prefix_append _ _

lemma faults_flush (r : Reading σ) : r.run.faults <+: r.flush.run.faults := by
  simp only [flush]
  split
  · exact List.prefix_rfl
  split
  · exact List.prefix_rfl
  · exact List.prefix_append _ _

lemma isSkipping_text (r : Reading σ) (ts : List Token) :
    (r.text ts).place.isSkipping = r.place.isSkipping := by
  have h := textStep r ts
  generalize r.text ts = r' at h
  cases h <;> rfl

lemma faults_lines {r : Reading σ} {ss : List String} (hs : ∀ s ∈ ss, IsText s)
    (hr : r.place.isSkipping = false) :
    r.run.faults <+: (r.lines inc descent ss).flush.run.faults := by
  induction ss generalizing r with
  | nil => exact faults_flush r
  | cons s ss ih =>
    have hl : r.line inc descent s = r.text (Token.tokenize s) := line_of_isText (hs s (by simp)) hr
    have hr' : (r.text (Token.tokenize s)).advance.place.isSkipping = false :=
      (isSkipping_text r _).trans hr
    apply (faults_text r (Token.tokenize s)).trans
    change _ <+: ((r.line inc descent s).advance.lines inc descent ss).flush.run.faults
    rw [hl]
    exact ih (fun s' h => hs s' (by simp [h])) hr'

def textItem (c : List Token × Nat) : Item :=
  .text c.1 c.2

theorem items_of_lines {r : Reading σ} {ss : List String} {b : Builtins}
    (hr : r.place.isSkipping = false) (hs : ∀ s ∈ ss, IsText s)
    (hn : ∀ s ∈ ss, ∀ x ∈ Token.tokenize s, NoLine x) (ht : r.run.table.Bodies NoLine)
    (hh : r.HeldHere)
    (hb : b.file = r.place.file ∧ b.version = r.run.version.number)
    (hf : (r.lines inc descent ss).flush.run.faults = r.run.faults) :
    ∃ (chunks : List (List Token × Nat)) (out : List Token),
      (r.lines inc descent ss).flush.run.items.toList = r.run.items.toList ++ chunks.map textItem ∧
      r.run.table.expand b (joinLines (r.segments ss)) = .ok out ∧
      Token.solid (chunks.flatMap (·.1)) = Token.solid out := by
  induction ss generalizing r with
  | nil =>
    change (r.flush).run.faults = _ at hf
    change ∃ (chunks : List (List Token × Nat)) (out : List Token), r.flush.run.items.toList = _ ∧
      _ ∧ _
    cases hheld : r.place.held with
    | none =>
      refine ⟨[], [], ?_, ?_, rfl⟩
      · simp [flush, hheld]
      · simp [segments, hheld, joinLines, List.intercalate, Table.expand_nil]
    | some h =>
      obtain ⟨hfile, hversion, hts⟩ := hh h hheld
      have he := (expand_congr (hfile.trans hb.1.symm) (hversion.trans hb.2.symm) ht hts).1
      cases hout : r.run.table.expand h.builtins h.tokens with
      | error e =>
        simp only [flush, hheld, hout] at hf
        have hlen := congrArg List.length hf
        simp only [release, fault, writeText, emit, Run.emit, List.length_append,
          List.length_singleton] at hlen
        omega
      | ok out =>
        refine ⟨[(out, h.lines)], out, ?_, ?_, by simp⟩
        · simp [flush, hheld, hout, release, writeText, emit, Run.emit, textItem]
        · simpa [segments, hheld, joinLines, List.intercalate, ← he] using hout
  | cons s ss ih =>
    have hl : r.line inc descent s = r.text (Token.tokenize s) := line_of_isText (hs s (by simp)) hr
    have hs' : ∀ s ∈ ss, IsText s := fun s' h => hs s' (by simp [h])
    have hn' : ∀ s ∈ ss, ∀ x ∈ Token.tokenize s, NoLine x := fun s' h => hn s' (by simp [h])
    obtain ⟨hfile, hversion, hts⟩ := hh.extend (hn s (by simp))
    have hopen := (expand_congr (hfile.trans hb.1.symm) (hversion.trans hb.2.symm) ht hts).2
    change ((r.line inc descent s).advance.lines inc descent ss).flush.run.faults = _ at hf
    change ∃ (chunks : List (List Token × Nat)) (out : List Token),
      ((r.line inc descent s).advance.lines inc descent ss).flush.run.items.toList = _ ∧ _ ∧ _
    rw [hl] at hf ⊢
    rw [joinLines_segments]
    generalize hheld : r.extendHeld (Token.tokenize s) = h at hopen hts hfile hversion
    have hstep := textStep r (Token.tokenize s)
    rw [hheld] at hstep
    generalize hr₁ : r.text (Token.tokenize s) = r₁ at hstep hf
    cases hstep with
    | written out ho =>
      rw [hopen] at ho
      obtain ⟨chunks, out', hi, he, hsolid⟩ :=
        ih (r := (r.release.writeText out h.lines).advance) hr hs' hn' ht (by rintro h' ⟨⟩) hb hf
      obtain ⟨us, hus, hsus⟩ := expand_joinLines_cons ho he
      refine ⟨(out, h.lines) :: chunks, us, ?_, hus, ?_⟩
      · simpa [writeText, emit, Run.emit, release, advance, textItem] using hi
      · rw [hsus, ← hsolid]
        simp [Token.solid]
    | held ho =>
      obtain ⟨chunks, out', hi, he, hsolid⟩ :=
        ih (r := (r.hold h).advance) hr hs' hn' ht
          (by rintro h' ⟨⟩; exact ⟨hfile, hversion, hts⟩) hb hf
      exact ⟨chunks, out', hi, he, hsolid⟩
    | failed e ho =>
      have hp : _ <+: _ := @faults_lines _ inc descent _ _ hs'
        (show (((r.release.fault replacementSite (.replacement e)).writeText h.tokens
          h.lines).advance).place.isSkipping =
          false from hr)
      rw [hf] at hp
      have hlen := hp.length_le
      simp only [advance, release, fault, writeText, emit, Run.emit, List.length_append,
        List.length_singleton] at hlen
      omega

/-- Tokens whose invocations are all decided are replaced apart from what follows them. So text is
replaced line by line as if its lines, with a space between them, were one. -/
theorem replaced_as_one_text (inc : Includer σ) (descent : Descent σ) :
    (∀ (t : Table) (b : Builtins) (ts us out : List Token), t.expandOpen b ts = .ok (some out) →
      t.expand b ts = .ok out ∧
      t.expandOpen b (ts ++ us) = (t.expandOpen b us).map (·.map (out ++ ·)) ∧
      t.expand b (ts ++ us) = (t.expand b us).map (out ++ ·)) ∧
    ∀ (r : Reading σ) (ss : List String), r.place.held = none → r.place.isSkipping = false →
      (∀ s ∈ ss, IsText s) → (∀ s ∈ ss, ∀ x ∈ Token.tokenize s, NoLine x) →
        r.run.table.Bodies NoLine →
      (r.lines inc descent ss).flush.run.faults = r.run.faults →
      ∃ (chunks : List (List Token × Nat)) (out : List Token),
        (r.lines inc descent ss).flush.run.items.toList =
          r.run.items.toList ++ chunks.map textItem ∧
        r.run.table.expand r.builtins (joinLines (ss.map Token.tokenize)) = .ok out ∧
        Token.solid (chunks.flatMap (·.1)) = Token.solid out := by
  constructor
  · intro t b ts us out h
    exact ⟨Table.expand_of_expandOpen h, Table.expandOpen_append h us, Table.expand_append h us⟩
  · intro r ss hheld hr hs hn ht hf
    have hh : r.HeldHere := by
      intro h hsome
      rw [hheld] at hsome
      cases hsome
    have hi := items_of_lines (b := r.builtins) hr hs hn ht hh ⟨rfl, rfl⟩ hf
    simpa only [segments, hheld, Option.map_none, Option.toList_none, List.nil_append] using hi

def callOverTwoLines : Reading Unit :=
  { place := { name := "t", depth := 0, file := 0 }
    run := { Run.start .default false () with table := ⟨[("F", .function ["x"] [.ident "x"])]⟩ } }

theorem replaced_as_one_text_of_call :
    (callOverTwoLines.run.table.expand callOverTwoLines.builtins (Token.tokenize "F(1)a") =
      .ok [.number "1", .ident "a"]) ∧
    ∃ (chunks : List (List Token × Nat)) (out : List Token),
      (callOverTwoLines.lines Includer.null none ["F(", "1) a"]).flush.run.items.toList =
        chunks.map textItem ∧
      callOverTwoLines.run.table.expand callOverTwoLines.builtins
        (joinLines (["F(", "1) a"].map Token.tokenize)) = .ok out ∧
      Token.solid (chunks.flatMap (·.1)) = Token.solid out := by
  have h := replaced_as_one_text Includer.null none
  constructor
  · exact (h.1 _ _ _ [] _ (by cbv)).1
  · apply h.2 callOverTwoLines ["F(", "1) a"] rfl rfl
    · simp only [List.forall_mem_cons]
      exact ⟨by cbv, by cbv, by simp⟩
    · have h₁ : Token.tokenize "F(" = [.ident "F", .punct "("] := by cbv
      have h₂ : Token.tokenize "1) a" = [.number "1", .punct ")", .blank, .ident "a"] := by cbv
      simp [h₁, h₂, NoLine, Token.isIdent, Token.ident, Token.number, Token.punct,
        Token.blank, lineName]
    · intro name m hm x hx
      simp only [callOverTwoLines, Table.find?, List.lookup] at hm
      split at hm <;> cases hm
      simp [Macro.function] at hx
      simp [hx, NoLine, Token.isIdent, Token.ident, lineName]
    · cbv

end ShaderPipeline.Preprocess.Reading
