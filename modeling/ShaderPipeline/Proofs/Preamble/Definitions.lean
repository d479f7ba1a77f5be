import ShaderPipeline.Proofs.Preamble.Items
import ShaderPipeline.Proofs.Token.Canonical

namespace ShaderPipeline

namespace Token

def IsName (s : String) : Prop :=
  ∃ c cs, s.toList = c :: cs ∧ isIdentStart c = true ∧ ∀ d ∈ cs, isIdentChar d = true

variable {s : String} {t : Token} {ts : List Token}

lemma notBlank_of_isIdentStart {c : Char} (h : isIdentStart c = true) : Text.isBlank c = false :=
  Text.notBlank_of (by decide) h

lemma IsName.plain (h : IsName s) : Preamble.Plain s := by
  have hchar : ∀ d, isIdentChar d = true → d ≠ '\n' ∧ d ≠ '\\' ∧ d ≠ '/' := by
    intro d hd
    refine ⟨?_, ?_, ?_⟩ <;> (rintro rfl; cases hd)
  obtain ⟨c, cs, hs, hc, hcs⟩ := h
  have hstart : isIdentChar c = true := by
    simp only [isIdentStart, Bool.or_eq_true, beq_iff_eq] at hc
    rcases hc with hc | rfl
    · simp [isIdentChar, Char.isAlphanum, hc]
    · rfl
  intro d hd
  rw [hs] at hd
  rcases List.mem_cons.mp hd with rfl | hd
  · exact hchar d hstart
  · exact hchar d (hcs d hd)

lemma IsName.isLexeme (h : IsName s) : (ident s).IsLexeme := by
  obtain ⟨c, cs, hs, hc, hcs⟩ := h
  apply isLexeme_iff.mpr
  apply head_scan_iff.mpr
  have hall : cs.takeWhile isIdentChar = cs := List.takeWhile_eq_self_iff.mpr hcs
  have hnone : cs.dropWhile isIdentChar = [] := List.dropWhile_eq_nil_iff.mpr hcs
  refine ⟨c, cs, hs, ?_⟩
  rw [List.append_nil, munch, if_neg (by simp [notBlank_of_isIdentStart hc]), if_pos hc, hall,
    hnone, ident]

lemma IsName.scan_append (h : IsName s) (cs : List Char) :
    scan (s.toList ++ ' ' :: cs) = ident s :: scan (' ' :: cs) := by
  apply @scan_of_head (' ' :: cs) (ident s)
  apply (head_scan_append_iff h.isLexeme rfl _).mpr
  rintro d ⟨⟩
  rfl

lemma text_of_isPunct (h : t.isPunct s = true) : t.text = s := by
  simp only [isPunct, decide_eq_true_eq] at h
  exact h.2

lemma infix_of_mem_scan {cs : List Char} (h : t ∈ scan cs) : t.text.toList <:+: cs := by
  obtain ⟨ts, us, hscan⟩ := List.append_of_mem h
  rw [← flatMap_scan cs, hscan]
  exact ⟨ts.flatMap (·.text.toList), us.flatMap (·.text.toList), by simp⟩

end Token

namespace Preamble

structure IsObject (e : String × String) : Prop where
  name : Token.IsName e.1
  free : Macro.isPredefined e.1 = false
  plain : Plain e.2
  noPasting : ¬ "##".toList <:+: e.2.toList

def object (value : String) : Macro :=
  .object (Token.trim (Token.tokenize value))

def defineAll (t : Macro.Table) (es : List (String × String)) : Macro.Table :=
  es.foldl (fun t e => t.insert e.1 (object e.2)) t

def defineLine (e : String × String) : String :=
  .ofList ("#define ".toList ++ (e.1.toList ++ ' ' :: e.2.toList))

lemma find_defineAll (t : Macro.Table) {es : List (String × String)} (hes : es.Pairwise (·.1 < ·.1))
    (n : String) : (defineAll t es).find? n = ((es.lookup n).map object).or (t.find? n) := by
  induction es generalizing t with
  | nil => rfl
  | cons e es ih =>
    obtain ⟨he, hes⟩ := List.pairwise_cons.mp hes
    change (defineAll (t.insert e.1 (object e.2)) es).find? n = _
    rw [ih _ hes, Macro.Table.find_insert, Macro.Table.lookup_cons_eq]
    split
    · rename_i hn
      have hnone : es.lookup n = none := List.lookup_eq_none_iff.mpr fun x hx => by
        simpa [hn] using (String.ne_of_lt (he x hx))
      rw [hnone]
      rfl
    · rfl

end Preamble

namespace Preprocess

open Token

lemma directiveTokens_define {e : String × String} (h : IsName e.1) :
    ∃ args, directiveTokens? (tokenize (Preamble.defineLine e)) = some (ident "define" :: args) ∧
      trim args = ident e.1 :: (scan (' ' :: e.2.toList)).rdropWhile isSpace := by
  have hscan : trim (scan (' ' :: (e.1.toList ++ ' ' :: e.2.toList))) =
      trim (ident e.1 :: scan (' ' :: e.2.toList)) := by
    rw [trim_scan_blank, h.scan_append]
  have hline :=
    @directiveTokens_of_solid (ident "define") rfl (scan (' ' :: (e.1.toList ++ ' ' :: e.2.toList)))
  rw [← tokenize_define] at hline
  refine ⟨_, hline, ?_⟩
  rw [trim_rdropWhile, hscan]
  exact @trim_solid_append (ident e.1) [] rfl (by rintro u ⟨⟩; rfl) _

lemma macro_of_blank {ts : List Token} (h : ∀ t, ts.head? = some t → t.isSpace = true) :
    macro? ts = some (.object (trim ts)) := by
  cases ts with
  | nil => rfl
  | cons t ts =>
    have ht : t.isPunct "(" = false := by
      have hs := h t rfl
      simp only [isSpace, decide_eq_true_eq] at hs
      simp [isPunct, hs]
    simp [macro?, ht]

lemma define_object (t : Macro.Table) {e : String × String} (he : Preamble.IsObject e)
    (hnone : t.find? e.1 = none) :
    t.define e.1 (Preamble.object e.2) = .ok (t.insert e.1 (Preamble.object e.2)) := by
  have hpasting : (Preamble.object e.2).body.any (·.isPunct "##") = false := by
    rw [List.any_eq_false]
    intro x hx hp
    exact he.noPasting (text_of_isPunct hp ▸ infix_of_mem_scan (mem_of_mem_trim hx))
  rw [Macro.Table.define, he.free, hpasting, hnone]
  rfl

namespace Reading

variable {σ : Type} {inc : Includer σ} {descent : Descent σ}

def defineObject (r : Reading σ) (e : String × String) : Reading σ :=
  r.newline.setTable (r.run.table.insert e.1 (Preamble.object e.2))

lemma line_object {r : Reading σ} (hheld : r.place.held = none) (hgroups : r.place.groups = [])
    {e : String × String} (he : Preamble.IsObject e) (hnone : r.run.table.find? e.1 = none) :
    r.line inc descent (Preamble.defineLine e) = r.defineObject e := by
  obtain ⟨args, hline, hargs⟩ := directiveTokens_define he.name
  obtain ⟨hline, hskip⟩ := @line_of_directive _ inc descent r hheld hgroups _ _ _ hline
  have hd : r.directive inc descent (Token.ident "define").text (trim args) =
      if r.place.isSkipping then r.newline else r.define (trim args) := rfl
  have hblank :
      ∀ t, ((scan (' ' :: e.2.toList)).rdropWhile isSpace).head? = some t → t.isSpace = true := by
    intro t ht
    obtain ⟨ts, hts⟩ := List.head?_eq_some_iff.mp ht
    obtain ⟨us, hus⟩ := List.rdropWhile_prefix isSpace (scan (' ' :: e.2.toList))
    rw [hts, List.cons_append, scan_cons] at hus
    have hkind : (munch ' ' e.2.toList).1 = .space := kind_munch_iff.mpr rfl
    rw [(List.cons.inj hus).1, hkind]
    rfl
  have hname : ∀ ts, name? (ident e.1 :: ts) = some e.1 := fun _ => rfl
  have hmacro :
      macro? ((scan (' ' :: e.2.toList)).rdropWhile isSpace) = some (Preamble.object e.2) := by
    rw [macro_of_blank hblank, trim_rdropWhile, trim_scan_blank]
    rfl
  have hdefine := define_object r.newline.run.table he hnone
  rw [hline, hd, hskip, hargs]
  simp only [Bool.false_eq_true, if_false, define, hname, List.tail_cons, hmacro, hdefine]
  rfl

lemma lines_objects {r : Reading σ} (hheld : r.place.held = none) (hgroups : r.place.groups = [])
    {es : List (String × String)} (hes : ∀ e ∈ es, Preamble.IsObject e)
    (hsorted : es.Pairwise (·.1 < ·.1)) (hnone : ∀ e ∈ es, r.run.table.find? e.1 = none) :
    let r' := r.lines inc descent (es.map Preamble.defineLine)
    r'.place.held = none ∧ r'.place.groups = [] ∧ r'.run = { r.run with
      table := Preamble.defineAll r.run.table es
      items := r.run.items ++ (List.replicate es.length Item.blank).toArray } := by
  induction es generalizing r with
  | nil => exact ⟨hheld, hgroups, by simp [lines, Preamble.defineAll]⟩
  | cons e es ih =>
    obtain ⟨he, hes⟩ := List.forall_mem_cons.mp hes
    obtain ⟨hlt, hsorted⟩ := List.pairwise_cons.mp hsorted
    obtain ⟨hfree, hnone⟩ := List.forall_mem_cons.mp hnone
    let r' := (r.defineObject e).advance
    have hnone' : ∀ x ∈ es, r'.run.table.find? x.1 = none := by
      intro x hx
      change (r.run.table.insert e.1 _).find? x.1 = none
      rw [Macro.Table.find_insert, if_neg (String.ne_of_lt (hlt x hx)).symm]
      exact hnone x hx
    have hlines : r.lines inc descent ((e :: es).map Preamble.defineLine) =
        r'.lines inc descent (es.map Preamble.defineLine) := by
      rw [List.map_cons, lines, List.foldl_cons, line_object hheld hgroups he hfree]
      rfl
    have hitems : r.run.items.push .blank ++ (List.replicate es.length Item.blank).toArray =
        r.run.items ++ (List.replicate (es.length + 1) Item.blank).toArray := by
      rw [← Array.toList_inj]
      simp [List.replicate_succ]
    obtain ⟨h₁, h₂, h₃⟩ := @ih r' hheld hgroups hes hsorted hnone'
    rw [hlines]
    refine ⟨h₁, h₂, h₃.trans ?_⟩
    change { r.run with
      table := Preamble.defineAll r.run.table (e :: es)
      items := r.run.items.push .blank ++ (List.replicate es.length Item.blank).toArray } = _
    rw [hitems]
    rfl

end Reading

variable {σ : Type} {inc : Includer σ} {ds : Definitions}

namespace Run

def prepared (ds : Definitions) (version : Version) (forced : Bool) (includer : σ) : Run σ :=
  { start version forced includer with
    table := Preamble.defineAll (start version forced includer).table ds.entries
    includeEnabled := true }

lemma find_start {name : String} (h : Macro.isPredefined name = false) (version : Version)
    (forced : Bool) (includer : σ) : (start version forced includer).table.find? name = none := by
  have hes : name ≠ esName := by
    rintro rfl
    cases h
  simp only [start, setVersion]
  split
  · rw [Macro.Table.find_insert, if_neg hes]
    rfl
  · rw [Macro.Table.find_erase, if_neg hes]
    rfl

lemma unit_preamble (h : ∀ e ∈ ds.entries, Preamble.IsObject e) (levels : Nat) (tag : String)
    (version : Version) (forced : Bool) (includer : σ) :
    unit inc levels ⟨tag, Preamble.text ds⟩ 0 (start version forced includer) =
      (prepared ds version forced includer).after (preambleItems ds.entries.length) [] := by
  have hplain : ∀ e ∈ ds.entries, Text.Contained (Preamble.defineRow e.1 e.2) ∧
      Preamble.definition e.1 e.2 = e.1.toList ++ ' ' :: e.2.toList := fun e he =>
    (h e he).name.plain.contained (h e he).plain
  have hnone : ∀ e ∈ ds.entries, (start version forced includer).table.find? e.1 = none :=
    fun e he =>
    find_start (h e he).free version forced includer
  obtain ⟨descent, depth, hread⟩ :=
    exists_readUnit inc levels ⟨tag, Preamble.text ds⟩ 0 (start version forced includer)
  have hobjects := @Reading.lines_objects _ inc descent ⟨{ name := tag, depth, file := 0 },
    start version forced includer⟩
    rfl rfl ds.entries h ds.sorted hnone
  have hlines : defineLines ds = ds.entries.map Preamble.defineLine := by
    rw [defineLines, List.map_map]
    exact List.map_congr_left fun e he =>
      congrArg (fun cs => String.ofList ("#define ".toList ++ cs)) (hplain e he).2
  generalize hr : Reading.lines _ _ _ _ = r at hobjects
  obtain ⟨hheld, hgroups, hrun⟩ := hobjects
  have hitems : ((start version forced includer).items ++
      (List.replicate ds.entries.length Item.blank).toArray).push
        (.extension Preamble.includeExtension .enable) =
      (preambleItems ds.entries.length).toArray ++ (start version forced includer).items := by
    rw [items_start, ← Array.toList_inj]
    simp [preambleItems]
  rw [hread, readUnit_text (fun e he => (hplain e he).1) descent tag depth 0 _ (hlines ▸ hr)
    hheld hgroups]
  change { r.run with
    includeEnabled := true
    items := r.run.items.push (.extension Preamble.includeExtension .enable) } = _
  rw [hrun, hitems]
  rfl

end Run

lemma ofList_newlines (n : Nat) :
    String.ofList (List.replicate n '\n') = String.join (List.replicate n "\n") := by
  rw [← String.toList_inj, String.toList_join, String.toList_ofList]
  induction n with
  | zero => rfl
  | succ n ih => rw [List.replicate_succ, List.replicate_succ, List.flatMap_cons, ← ih]; rfl

open Preamble in
/-- A source behind a preamble of object-like macros is read as if these were defined and includes
were enabled. Removing the preamble gives the text of the source alone. -/
theorem preprocess_preamble (h : ∀ e ∈ ds.entries, IsObject e) (inc : Includer σ)
    (tag source : String) (version : Version) (forced : Bool) (includer : σ) :
    let prepared := Run.prepared ds version forced includer
    let run := Run.unit inc maxIncludeDepth ⟨tag, source⟩ 0 prepared
    let front := String.ofList (List.replicate ds.entries.length '\n') ++ endLine
    preprocess inc ⟨tag, source, text ds, version, forced⟩ includer =
        (⟨run.faults.isEmpty, front ++ run.out, run.log⟩, run.includer) ∧
      (∀ name, prepared.table.find? name =
        ((ds.entries.lookup name).map object).or
          ((Run.start version forced includer).table.find? name)) ∧
      ∀ (body tag : String) (nextLine : Bool),
        remove (front ++ body) tag endLine 0 nextLine = .ok body := by
  intro prepared run front
  have hfront : front = String.join (List.replicate ds.entries.length "\n") ++ endLine :=
    congrArg (· ++ endLine) (ofList_newlines ds.entries.length)
  have hrun : finalRun inc ⟨tag, source, text ds, version, forced⟩ includer =
      run.after (preambleItems ds.entries.length) [] := by
    rw [finalRun, Run.unit_preamble h, Run.unit_after]
  clear_value front
  subst hfront
  refine ⟨?_, find_defineAll _ ds.sorted, fun body tag nextLine =>
    remove_body (blankLine_replicate _) body tag nextLine⟩
  clear_value run
  unfold preprocess
  rw [hrun]
  dsimp only
  rw [Run.out_after, Run.log_after, renderAll_preambleItems]
  rfl

def oneDefinition : Definitions :=
  .ofList [("N", "4 - 1")]

lemma isObject_oneDefinition : ∀ e ∈ oneDefinition.entries, Preamble.IsObject e := by
  intro e he
  obtain rfl : e = ("N", "4 - 1") := List.mem_singleton.mp he
  refine ⟨⟨'N', [], rfl, rfl, by simp⟩, rfl, ?_, by decide⟩
  simp [Preamble.Plain]

theorem preprocess_preamble_of_value :
    (preprocess Includer.null ⟨"t", "int x = N;\n", Preamble.text oneDefinition, .default,
      false⟩ ()).1 =
      ⟨true, "\n#extension GL_GOOGLE_include_directive : enable\nint x = 4 - 1;\n", ""⟩ := by
  obtain ⟨hresult, -, -⟩ :=
    preprocess_preamble isObject_oneDefinition Includer.null "t" "int x = N;\n" .default false ()
  rw [hresult]
  cbv

end Preprocess

end ShaderPipeline
