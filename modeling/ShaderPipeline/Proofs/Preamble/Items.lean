import ShaderPipeline.Preprocess
import ShaderPipeline.Proofs.Preamble.Removal
import ShaderPipeline.Proofs.Preprocess.After
import ShaderPipeline.Proofs.Text.Clean

namespace ShaderPipeline

namespace Preamble

open Preprocess

def defineRow (name value : String) : List Char :=
  "#define ".toList ++ name.toList ++ " ".toList ++ value.toList

lemma toList_define (name value : String) :
    (s!"#define {name} {value}\n").toList = defineRow name value ++ ['\n'] := by
  change _ = "#define ".toList ++ name.toList ++ " ".toList ++ value.toList ++ ['\n']
  simp only [String.toList_append, Item.toString_string, List.append_assoc]
  rfl

lemma toList_directives (ds : Definitions) :
    ds.directives.toList = Text.unlines (ds.entries.map fun e => defineRow e.1 e.2) := by
  rw [Definitions.directives, String.toList_join, List.flatMap_map, Text.unlines, List.flatMap_map]
  simp only [toList_define]

def rows (ds : Definitions) : List (List Char) :=
  (ds.entries.map fun e => defineRow e.1 e.2) ++ [endRow]

lemma toList_text (ds : Definitions) : (text ds).toList = Text.unlines (rows ds) := by
  have he : endLine.toList = Text.unlines [endRow] := by
    rw [toList_endLine, Text.unlines, List.flatMap_singleton]
  rw [text, String.toList_append, toList_directives, he, rows, Text.unlines_append]

def Plain (s : String) : Prop :=
  ∀ c ∈ s.toList, c ≠ '\n' ∧ c ≠ '\\' ∧ c ≠ '/'

def definition (name value : String) : List Char :=
  Text.cleanRow (name.toList ++ ' ' :: value.toList)

lemma defineRow_eq (name value : String) :
    defineRow name value = "#define ".toList ++ (name.toList ++ ' ' :: value.toList) := by
  change "#define ".toList ++ name.toList ++ " ".toList ++ value.toList = _
  simp only [List.append_assoc]
  rfl

lemma cleanRow_defineRow (name value : String) :
    Text.cleanRow (defineRow name value) = "#define ".toList ++ definition name value := by
  have hplain : ("#define ".toList.all fun c => c != '\\' && c != '/') = true := by decide
  rw [defineRow_eq, Text.cleanRow_plain_append _ (by decide), definition]
  intro c hc
  simpa [Text.IsPlain] using List.all_eq_true.mp hplain c hc

lemma contained_endRow : Text.Contained endRow ∧ Text.cleanRow endRow = endRow := by
  have hplain : (endRow.all fun c => c != '\\' && c != '/') = true := by decide
  apply Text.contained_of_plain
  · intro c hc
    simpa [Text.IsPlain] using List.all_eq_true.mp hplain c hc
  · decide

lemma Plain.contained {name value : String} (hname : Plain name) (hvalue : Plain value) :
    Text.Contained (defineRow name value) ∧
      definition name value = name.toList ++ ' ' :: value.toList := by
  have hplain : ∀ c ∈ name.toList ++ ' ' :: value.toList, c ≠ '\n' ∧ Text.IsPlain c := by
    intro c hc
    rcases List.mem_append.mp hc with hc | hc
    · exact hname c hc
    rcases List.mem_cons.mp hc with rfl | hc
    · exact ⟨by decide, by decide, by decide⟩
    · exact hvalue c hc
  have hprefix : ("#define ".toList.all fun c => c != '\n' && c != '\\' && c != '/') = true := by
    decide
  have hrow : ∀ c ∈ defineRow name value, c ≠ '\n' ∧ Text.IsPlain c := by
    intro c hc
    rw [defineRow_eq] at hc
    rcases List.mem_append.mp hc with hc | hc
    · simpa [Text.IsPlain, and_assoc] using List.all_eq_true.mp hprefix c hc
    · exact hplain c hc
  constructor
  · exact (Text.contained_of_plain (fun c hc => (hrow c hc).2) fun hn => (hrow _ hn).1 rfl).1
  · exact (Text.contained_of_plain (fun c hc => (hplain c hc).2) fun hn => (hplain _ hn).1 rfl).2

variable {ds : Definitions}

lemma lines_text (h : ∀ e ∈ ds.entries, Text.Contained (defineRow e.1 e.2)) :
    Text.lines (Text.clean (text ds)) =
      (ds.entries.map fun e => .ofList ("#define ".toList ++ definition e.1 e.2)) ++
        [.ofList endRow] := by
  have hrows : ∀ row ∈ rows ds, Text.Contained row := by
    intro row hrow
    rcases List.mem_append.mp hrow with hrow | hrow
    · obtain ⟨e, he, rfl⟩ := List.mem_map.mp hrow
      exact h e he
    · obtain rfl := List.mem_singleton.mp hrow
      exact contained_endRow.1
  rw [Text.lines_clean_of_contained (toList_text ds) hrows, rows, List.map_append, List.map_append,
    List.map_map, List.map_map, List.map_singleton, List.map_singleton, contained_endRow.2]
  simp only [Function.comp_def, cleanRow_defineRow]

end Preamble

namespace Preprocess

lemma Run.exists_readUnit {σ : Type} (inc : Includer σ) (levels : Nat) (source : Included)
    (file : Nat) (run : Run σ) :
    ∃ descent depth, unit inc levels source file run =
      run.readUnit inc descent depth source file := by
  obtain ⟨descent, depth, -, hread⟩ := exists_readUnit_goesAfter run inc levels source file
  exact ⟨descent, depth, hread⟩

lemma Run.items_start {σ : Type} (version : Version) (forced : Bool) (includer : σ) :
    (start version forced includer).items = #[] :=
  rfl

lemma directiveTokens_of_solid {t : Token} (ht : t.isSpace = false) (ts : List Token) :
    directiveTokens? (.punct "#" :: t :: ts) = some (t :: ts.rdropWhile Token.isSpace) := by
  have hs : ∀ us, Token.trim (t :: us) = t :: us.rdropWhile Token.isSpace := by
    intro us
    have hd : List.dropWhile Token.isSpace (t :: us) = t :: us :=
      List.dropWhile_cons_of_neg (by simp [ht])
    rw [Token.trim, Token.trimStart, hd]
    exact Text.rdropWhile_append [t] (by simpa using ht) us
  have hh :
      Token.trim (.punct "#" :: t :: ts) = .punct "#" :: t :: ts.rdropWhile Token.isSpace := by
    have hd : List.dropWhile Token.isSpace (.punct "#" :: t :: ts) = .punct "#" :: t :: ts :=
      List.dropWhile_cons_of_neg (by decide)
    rw [Token.trim, Token.trimStart, hd]
    exact Text.rdropWhile_append [.punct "#", t] (by simpa using ht) ts
  have hrest := hs (ts.rdropWhile Token.isSpace)
  rw [List.rdropWhile_idempotent] at hrest
  rw [directiveTokens?, hh]
  exact congrArg some hrest

lemma tokenize_directive {c : Char} {name : List Char} (hc : Token.isIdentStart c = true)
    (hname : ∀ d ∈ name, Token.isIdentChar d = true) (cs : List Char) :
    Token.tokenize (.ofList ('#' :: c :: (name ++ ' ' :: cs))) =
      .punct "#" :: .ident (.ofList (c :: name)) :: Token.scan (' ' :: cs) := by
  have hpunct : ('#', c) ∉ Token.digraphs := by
    have hne : c ≠ '#' := by
      rintro rfl
      cases hc
    simp [Token.digraphs, hne]
  have hh :
      Token.munch '#' (c :: (name ++ ' ' :: cs)) = (.punct, [], c :: (name ++ ' ' :: cs)) := by
    change (Token.Kind.punct, Token.spanPunct '#' _) = _
    rw [Token.spanPunct, if_neg hpunct]
  have hblank : Text.isBlank c = false := Text.notBlank_of (by decide) hc
  have hd : Token.munch c (name ++ ' ' :: cs) = (.ident, name, ' ' :: cs) := by
    rw [Token.munch, if_neg (by simp [hblank]), if_pos hc, List.takeWhile_append_of_pos hname,
      List.dropWhile_append_of_pos hname, List.takeWhile_cons_of_neg (by decide),
      List.dropWhile_cons_of_neg (by decide),
      List.append_nil]
  rw [Token.tokenize, String.toList_ofList, Token.scan_cons, hh, Token.scan_cons, hd]
  rfl

lemma tokenize_define (cs : List Char) : Token.tokenize (.ofList ("#define ".toList ++ cs)) =
    .punct "#" :: .ident "define" :: Token.scan (' ' :: cs) :=
  @tokenize_directive 'd' "efine".toList rfl (List.all_eq_true.mp (by decide)) cs

namespace Reading

variable {σ : Type} {inc : Includer σ} {descent : Descent σ} {r : Reading σ}

lemma define_eq (args : List Token) :
    (r.define args).place = r.place ∧ (r.define args).run.items = r.run.items.push .blank := by
  simp only [define]
  split
  · exact ⟨rfl, rfl⟩
  split
  · exact ⟨rfl, rfl⟩
  split <;> exact ⟨rfl, rfl⟩

lemma line_of_directive (hheld : r.place.held = none) (hgroups : r.place.groups = [])
    {s : String} {t : Token} {args : List Token}
    (h : directiveTokens? (Token.tokenize s) = some (t :: args)) :
    r.line inc descent s = r.directive inc descent t.text (Token.trim args) ∧
    r.place.isSkipping = false := by
  have hflush : r.flush = r := by simp only [flush, hheld]
  constructor
  · simp only [line, h, hflush]
  · simp [Place.isSkipping, hgroups]

lemma line_define (hheld : r.place.held = none) (hgroups : r.place.groups = []) (cs : List Char) :
    (r.line inc descent (.ofList ("#define ".toList ++ cs))).place = r.place ∧
      (r.line inc descent (.ofList ("#define ".toList ++ cs))).run.items =
        r.run.items.push .blank := by
  have hargs := @directiveTokens_of_solid (.ident "define") rfl (Token.scan (' ' :: cs))
  rw [← tokenize_define] at hargs
  obtain ⟨hline, hskip⟩ := @line_of_directive _ inc descent r hheld hgroups _ _ _ hargs
  have hd : ∀ args, r.directive inc descent (Token.ident "define").text args =
      if r.place.isSkipping then r.newline else r.define args := fun _ => rfl
  rw [hline, hd, hskip]
  exact define_eq _

lemma line_end (hheld : r.place.held = none) (hgroups : r.place.groups = []) :
    r.line inc descent (.ofList Preamble.endRow) =
      (r.setIncludes true).emit (.extension Preamble.includeExtension .enable) := by
  have hargs : directiveTokens? (Token.tokenize (.ofList Preamble.endRow)) =
      some [.ident "extension", .blank, .ident "GL_GOOGLE_include_directive", .blank,
        .punct ":", .blank, .ident "enable"] := by cbv
  obtain ⟨hline, hskip⟩ := @line_of_directive _ inc descent r hheld hgroups _ _ _ hargs
  have hset :
      extensionSetting (Token.trim [.blank, .ident "GL_GOOGLE_include_directive", .blank,
        .punct ":", .blank,
      .ident "enable"]) = .ok (Preamble.includeExtension, .enable) := by decide
  have hd : ∀ args, r.directive inc descent (Token.ident "extension").text args =
      if r.place.isSkipping then r.newline else r.extension args := fun _ => rfl
  rw [hline, hd, hskip]
  simp only [Bool.false_eq_true, if_false, extension, hset]
  rfl

lemma lines_defines (hheld : r.place.held = none) (hgroups : r.place.groups = [])
    (css : List (List Char)) :
    (r.lines inc descent (css.map fun cs => .ofList ("#define ".toList ++ cs))).place.held = none ∧
      (r.lines inc descent (css.map fun cs => .ofList ("#define ".toList ++ cs))).place.groups =
        [] ∧
      (r.lines inc descent (css.map fun cs => .ofList ("#define ".toList ++ cs))).run.items.toList =
        r.run.items.toList ++ List.replicate css.length .blank := by
  induction css generalizing r with
  | nil => exact ⟨hheld, hgroups, (List.append_nil _).symm⟩
  | cons cs css ih =>
    have hline := @line_define _ inc descent _ hheld hgroups cs
    generalize hr : r.line inc descent (.ofList ("#define ".toList ++ cs)) = r' at hline
    obtain ⟨hplace, hitems⟩ := hline
    have hheld' : r'.advance.place.held = none := by
      change r'.place.held = none
      rw [hplace, hheld]
    have hgroups' : r'.advance.place.groups = [] := by
      change r'.place.groups = []
      rw [hplace, hgroups]
    obtain ⟨h₁, h₂, h₃⟩ := ih hheld' hgroups'
    have hlines :
        r.lines inc descent ((cs :: css).map fun cs => .ofList ("#define ".toList ++ cs)) =
        r'.advance.lines inc descent (css.map fun cs => .ofList ("#define ".toList ++ cs)) := by
      rw [← hr]
      rfl
    rw [hlines]
    refine ⟨h₁, h₂, ?_⟩
    rw [h₃, show r'.advance.run.items = r'.run.items from rfl, hitems, Array.toList_push,
      List.append_assoc]
    rfl

end Reading

def preambleItems (n : Nat) : List Item :=
  List.replicate n .blank ++ [.extension Preamble.includeExtension .enable]

lemma renderAll_preambleItems (n : Nat) :
    Item.renderAll (preambleItems n) = String.join (List.replicate n "\n") ++ Preamble.endLine := by
  have hend : Item.renderAll [.extension Preamble.includeExtension .enable] = Preamble.endLine := by
    decide
  rw [preambleItems, renderAll_append, hend, Item.renderAll, List.map_replicate]
  rfl

lemma blankLine_replicate (n : Nat) : ∀ b ∈ List.replicate n "\n", Preamble.BlankLine b := by
  intro b hb
  obtain rfl := List.eq_of_mem_replicate hb
  exact ⟨⟨[], List.not_mem_nil, rfl⟩, List.all_eq_true.mp (by decide)⟩

variable {σ : Type} {inc : Includer σ} {ds : Definitions}

def defineLines (ds : Definitions) : List String :=
  (ds.entries.map fun e => Preamble.definition e.1 e.2).map fun cs =>
    .ofList ("#define ".toList ++ cs)

lemma readUnit_text (h : ∀ e ∈ ds.entries, Text.Contained (Preamble.defineRow e.1 e.2))
    (descent : Descent σ) (tag : String) (depth file : Nat) (run : Run σ) {r : Reading σ}
    (hr : Reading.lines ⟨{ name := tag, depth, file }, run⟩ inc descent (defineLines ds) = r)
    (hheld : r.place.held = none) (hgroups : r.place.groups = []) :
    run.readUnit inc descent depth ⟨tag, Preamble.text ds⟩ file =
      ((r.setIncludes true).emit (.extension Preamble.includeExtension .enable)).run := by
  let start : Reading σ := ⟨{ name := tag, depth, file }, run⟩
  have hlines : start.lines inc descent (Text.lines (Text.clean (Preamble.text ds))) =
      (r.line inc descent (.ofList Preamble.endRow)).advance := by
    rw [Preamble.lines_text h, ← hr, defineLines, List.map_map, Reading.lines_append]
    rfl
  have hread : run.readUnit inc descent depth ⟨tag, Preamble.text ds⟩ file =
      (start.lines inc descent (Text.lines (Text.clean (Preamble.text ds)))).close.run := rfl
  rw [hread, hlines, Reading.line_end hheld hgroups]
  generalize he : (r.setIncludes true).emit (.extension Preamble.includeExtension .enable) = r'
  have hh : r'.advance.place.held = none := by
    rw [← he]
    exact hheld
  have hg : r'.advance.place.groups = [] := by
    rw [← he]
    exact hgroups
  simp only [Reading.close, Reading.flush, hh, hg]
  rfl

lemma items_readUnit (h : ∀ e ∈ ds.entries, Text.Contained (Preamble.defineRow e.1 e.2))
    (descent : Descent σ) (tag : String) (depth file : Nat) (run : Run σ) :
    (run.readUnit inc descent depth ⟨tag, Preamble.text ds⟩ file).items.toList =
      run.items.toList ++ preambleItems ds.entries.length := by
  have hdefines := @Reading.lines_defines _ inc descent ⟨{ name := tag, depth, file }, run⟩ rfl rfl
    (ds.entries.map fun e => Preamble.definition e.1 e.2)
  generalize hr : Reading.lines _ _ _ _ = r at hdefines
  obtain ⟨hheld, hgroups, hitems⟩ := hdefines
  rw [readUnit_text h descent tag depth file run hr hheld hgroups]
  change (r.run.items.push _).toList = _
  rw [Array.toList_push, hitems, List.length_map, List.append_assoc]
  rfl

theorem items_of_contained (h : ∀ e ∈ ds.entries, Text.Contained (Preamble.defineRow e.1 e.2))
    (levels : Nat) (tag : String) (run : Run σ) :
    (Run.unit inc levels ⟨tag, Preamble.text ds⟩ 0 run).items.toList =
      run.items.toList ++ preambleItems ds.entries.length := by
  obtain ⟨descent, depth, hread⟩ := Run.exists_readUnit inc levels ⟨tag, Preamble.text ds⟩ 0 run
  rw [hread, items_readUnit h]

lemma items_preamble (h : ∀ e ∈ ds.entries, Preamble.Plain e.1 ∧ Preamble.Plain e.2) (levels : Nat)
    (tag : String) (run : Run σ) :
    (Run.unit inc levels ⟨tag, Preamble.text ds⟩ 0 run).items.toList =
      run.items.toList ++ preambleItems ds.entries.length :=
  items_of_contained (fun e he => ((h e he).1.contained (h e he).2).1) levels tag run

end Preprocess

end ShaderPipeline
