import ShaderPipeline.Proofs.Preamble.Definitions
import ShaderPipeline.Proofs.Preprocess.Nesting
import ShaderPipeline.Proofs.Text.Comments

/-! What an include directive with a quoted path asks for. Comments are removed before strings are
known. -/

namespace ShaderPipeline.Preprocess

open Token

variable {σ : Type} {inc : Includer σ}

def quotedInclude (path : String) : String :=
  "#include \"" ++ path ++ "\""

lemma directiveTokens_include (cs : List Char) :
    ∃ args rest, directiveTokens? (tokenize (.ofList ("#include \"".toList ++ cs))) =
      some (ident "include" :: args) ∧
      trim args = ⟨.str, .ofList ('"' :: (spanString cs).1)⟩ :: rest := by
  have htokens : tokenize (.ofList ("#include \"".toList ++ cs)) =
      punct "#" :: ident "include" :: scan (' ' :: '"' :: cs) :=
    @tokenize_directive 'i' "nclude".toList rfl (List.all_eq_true.mp (by decide)) ('"' :: cs)
  have hquote :
      scan ('"' :: cs) = ⟨.str, .ofList ('"' :: (spanString cs).1)⟩ :: scan (spanString cs).2 :=
    scan_cons '"' cs
  have hline := @directiveTokens_of_solid (ident "include") rfl (scan (' ' :: '"' :: cs))
  rw [← htokens] at hline
  refine ⟨_, (scan (spanString cs).2).rdropWhile isSpace, hline, ?_⟩
  rw [trim_rdropWhile, trim_scan_blank, hquote]
  exact @trim_solid_append ⟨.str, .ofList ('"' :: (spanString cs).1)⟩ [] rfl (by rintro u ⟨⟩; rfl) _

lemma includeTarget_str {path : String} (hpath : path ≠ "") (cs : List Char) (rest : List Token) :
    includeTarget (⟨.str, .ofList ('"' :: cs)⟩ :: rest) = .ok (path, .relative) ↔
      cs = path.toList ++ ['"'] := by
  constructor
  · intro h
    by_cases hlast : cs.getLast? = some '"'
    · obtain ⟨body, rfl⟩ := List.getLast?_eq_some_iff.mp hlast
      by_cases hbody : String.ofList body = ""
      · simp [includeTarget, hbody] at h
      · have hname : String.ofList body = path := by simpa [includeTarget, hbody] using h
        rw [← hname, String.toList_ofList]
    · simp [includeTarget, hlast] at h
  · rintro rfl
    simp [includeTarget, hpath]

namespace Reading

lemma asks_quoted_iff {r : Reading σ} (hreading : r.place.isSkipping = false)
    (henabled : r.run.includeEnabled = true) (hdepth : r.place.depth < maxIncludeDepth)
    {path : String} (hpath : path ≠ "") (cs : List Char) :
    r.asks? (.ofList ("#include \"".toList ++ cs)) = some (r.request path .relative) ↔
      (spanString cs).1 = path.toList ++ ['"'] := by
  obtain ⟨args, rest, hs, hargs⟩ := directiveTokens_include cs
  rw [← includeTarget_str hpath _ rest, ← hargs, asks?, hs]
  simp only [ident, hreading, henabled, hdepth, and_self, if_true]
  split
  · rename_i target kind htarget
    rw [htarget]
    simp [request]
  · rename_i cause htarget
    rw [htarget]
    simp

end Reading

lemma spanString_cleanQuoted_iff {path : List Char} (hquote : '"' ∉ path) (hn : '\n' ∉ path) :
    (spanString (Text.cleanQuoted path)).1 = path ++ ['"'] ↔ ¬ Text.OpensComment path := by
  constructor
  · intro h hopens
    have hlt := Text.length_cleanQuoted_lt hn hopens
    have hall := congrArg List.length (spanString_append (Text.cleanQuoted path))
    simp only [List.length_append, h, List.length_singleton] at hall
    omega
  · intro h
    have hspan := (@spanString_iff (path ++ ['"']) []).mpr (.inl ⟨path, hquote, rfl⟩)
    rw [List.append_nil] at hspan
    rw [Text.cleanQuoted_of_not_opensComment hn h, hspan]

namespace Reading

variable {r mid last : Reading σ}

lemma Evaluates.append {ss ts : List String} {es fs : List (Inclusion σ)}
    (h : Evaluates inc r ss es mid) (h' : Evaluates inc mid ts fs last) :
    Evaluates inc r (ss ++ ts) (es ++ fs) last := by
  induction h with
  | done => exact h'
  | line hsilent _ ih => exact .line hsilent (ih h')
  | refused hq he hafter _ ih => exact .refused hq he hafter (ih h')
  | file hq hf hfirst hread hafter _ _ ih =>
    rw [List.cons_append, List.cons_append, List.append_assoc]
    exact .file hq hf hfirst hread hafter (ih h')

lemma Evaluates.head_request {s : String} {es : List (Inclusion σ)}
    (h : Evaluates inc r [s] es last) : es.head?.map Inclusion.request = r.asks? s := by
  cases h with
  | line hsilent h =>
    cases h
    exact hsilent.symm
  | refused hq => exact hq.symm
  | file hq => exact hq.symm

end Reading

/-- Behind the rows `above` the unit comes to `mid`, where it evaluates the next row with the
inclusions `es`. -/
def Run.EvaluatesRow (inc : Includer σ) (depth : Nat) (source : Included) (file : Nat) (run : Run σ)
    (above : List String) (mid : Reading σ) (row : String) (es : List (Inclusion σ))
    (run' : Run σ) : Prop :=
  ∃ below fs hs next last, Text.lines (Text.clean source.content) = above ++ row :: below ∧
    Reading.Evaluates inc ⟨{ name := source.name, depth, file }, run⟩ above fs mid ∧
    Reading.Evaluates inc mid [row] es next ∧ Reading.Evaluates inc next below hs last ∧
    last.close.run = run'

namespace Run

variable {depth levels file : Nat} {source : Included} {run run' : Run σ} {above : List String}
  {row : String}

lemma EvaluatesRow.evaluates {mid : Reading σ} {es : List (Inclusion σ)}
    (h : Run.EvaluatesRow inc depth source file run above mid row es run') :
    ∃ fs hs, Run.Evaluates inc depth source file run (fs ++ (es ++ hs)) run' := by
  obtain ⟨below, fs, hs, next, last, hrows, habove, hrow, hbelow, hclose⟩ := h
  refine ⟨fs, hs, last, ?_, hclose⟩
  rw [hrows]
  exact habove.append (hrow.append hbelow)

lemma exists_evaluatesRow (inc : Includer σ) (hlevels : levels + 1 ≤ maxIncludeDepth)
    {below : List String} (hrows : Text.lines (Text.clean source.content) = above ++ row :: below)
    (file : Nat) (run : Run σ) :
    ∃ es, Run.EvaluatesRow inc (maxIncludeDepth - (levels + 1)) source file run above
      (Reading.lines ⟨{ name := source.name, depth := maxIncludeDepth - (levels + 1), file }, run⟩
        inc
        (some (Run.unit inc levels)) above) row es (Run.unit inc (levels + 1) source file run) := by
  have hdepth : maxIncludeDepth - (levels + 1) < maxIncludeDepth := by omega
  have hbelow : maxIncludeDepth - (levels + 1) + 1 = maxIncludeDepth - levels := by omega
  have hunit := @exists_evaluates σ inc levels (by omega)
  rw [← hbelow] at hunit
  let read (r : Reading σ) (rows : List String) := r.lines inc (some (Run.unit inc levels)) rows
  have hread : ∀ {r : Reading σ}, r.place.depth = maxIncludeDepth - (levels + 1) → ∀ rows,
      ∃ es, Reading.Evaluates inc r rows es (read r rows) :=
    Reading.exists_evaluates_above inc hdepth hunit
  have hkeeps : ∀ (r : Reading σ) rows, (read r rows).place.depth = r.place.depth := fun r rows =>
    Reading.depth_acts (Reading.acts_lines r rows)
  let first : Reading σ :=
    ⟨{ name := source.name, depth := maxIncludeDepth - (levels + 1), file }, run⟩
  let mid := read first above
  have hmid : mid.place.depth = maxIncludeDepth - (levels + 1) := hkeeps first above
  obtain ⟨fs, hfs⟩ := @hread first rfl above
  obtain ⟨es, hes⟩ := hread hmid [row]
  obtain ⟨hs, hhs⟩ := hread ((hkeeps mid [row]).trans hmid) below
  have hwhole :
      read (read mid [row]) below = read first (Text.lines (Text.clean source.content)) := by
    have happend : read first (above ++ row :: below) = read mid (row :: below) :=
      Reading.lines_append _ _ _
    rw [hrows, happend]
    rfl
  refine ⟨es, below, fs, hs, _, _, hrows, hfs, hes, hhs, ?_⟩
  rw [hwhole]
  rfl

theorem requests_quoted_iff (inc : Includer σ) (hlevels : levels + 1 ≤ maxIncludeDepth)
    {name before path after : String} (hbefore : Text.AtLineStart before.toList)
    (hafter : Text.IsBehindLine after.toList) (hpath : path ≠ "") (hquote : '"' ∉ path.toList)
    (hn : '\n' ∉ path.toList) (file : Nat) (run : Run σ) {mid : Reading σ}
    (hmid : mid = Reading.lines ⟨{ name, depth := maxIncludeDepth - (levels + 1), file }, run⟩ inc
      (some (Run.unit inc levels)) (Text.lines (Text.clean before)))
    (hreading : mid.place.isSkipping = false) (henabled : mid.run.includeEnabled = true) :
    let source : Included := ⟨name, before ++ quotedInclude path ++ after⟩
    let run' := Run.unit inc (levels + 1) source file run
    ∃ row fs es hs,
      Run.Evaluates inc (maxIncludeDepth - (levels + 1)) source file run (fs ++ (es ++ hs)) run' ∧
      Run.EvaluatesRow inc (maxIncludeDepth - (levels + 1)) source file run
        (Text.lines (Text.clean before)) mid row es run' ∧
      (es.head?.map Inclusion.request = some ⟨path, .relative, name,
        maxIncludeDepth - (levels + 1) + 1⟩ ↔
        ¬ Text.OpensComment path.toList) := by
  intro source run'
  let front := "#include \"".toList
  have hall : (front.all fun c => c != '\n' && c != '\\' && c != '/') = true := by decide
  have hplain : ∀ c ∈ front, c ≠ '\n' ∧ Text.IsPlain c := fun c hc => by
    simpa [Text.IsPlain, and_assoc] using List.all_eq_true.mp hall c hc
  have hinclude : quotedInclude path = .ofList (front ++ (path.toList ++ ['"'])) := by
    simp [quotedInclude, front, ← String.toList_inj]
  obtain ⟨below, hrows⟩ := Text.lines_clean_quoted hbefore (fun c hc => (hplain c hc).2)
    (fun hc => (hplain _ hc).1 rfl) (by decide) hn hafter
  rw [← hinclude] at hrows
  obtain ⟨es, hes⟩ := @exists_evaluatesRow σ levels ⟨name, _⟩ _ _ inc hlevels _ hrows file run
  rw [← hmid] at hes
  obtain ⟨fs, hs, hunit⟩ := hes.evaluates
  refine ⟨_, fs, es, hs, hunit, hes, ?_⟩
  obtain ⟨-, -, -, next, -, -, -, hrow, -⟩ := hes
  have horigin : mid.place.origin = ⟨name, maxIncludeDepth - (levels + 1), file⟩ := by
    rw [hmid]
    exact Reading.origin_acts (Reading.acts_lines _ _)
  obtain ⟨hname, hdepth, -⟩ := Origin.mk.inj horigin
  have hasks :=
    Reading.asks_quoted_iff hreading henabled (by omega) hpath (Text.cleanQuoted path.toList)
  rw [Reading.request, hname, hdepth] at hasks
  rw [hrow.head_request, hasks, spanString_cleanQuoted_iff hquote hn]

end Run

def keepingRequests : Includer (List IncludeRequest) where
  resolve asked q := (.ok ⟨q.requested, ""⟩, asked ++ [q])
  count := List.length
  reset _ := []

theorem requests_quoted_of_brackets :
    let path := "a b<c>.glsl"
    let start := Run.start .default false []
    let mid := Reading.lines ⟨{ name := "t", depth := 0, file := 0 }, start⟩ keepingRequests
      (some (Run.unit keepingRequests 99)) (Text.lines (Text.clean Preamble.endLine))
    mid.place.isSkipping = false ∧ mid.run.includeEnabled = true ∧ ∃ row es,
      Run.EvaluatesRow keepingRequests 0
        ⟨"t", Preamble.endLine ++ quotedInclude path ++ "\n"⟩ 0 start
        (Text.lines (Text.clean Preamble.endLine)) mid row es
        (Run.unit keepingRequests 100
          ⟨"t", Preamble.endLine ++ quotedInclude path ++ "\n"⟩ 0 start) ∧
      es.head?.map Inclusion.request = some ⟨path, .relative, "t", 1⟩ := by
  intro path start mid
  have hactive : ∀ descent : Descent (List IncludeRequest),
      let r := Reading.lines ⟨{ name := "t", depth := 0, file := 0 }, start⟩ keepingRequests descent
        (Text.lines (Text.clean Preamble.endLine))
      r.place.isSkipping = false ∧ r.run.includeEnabled = true := fun descent => ⟨by cbv, by cbv⟩
  obtain ⟨hreading, henabled⟩ : mid.place.isSkipping = false ∧ mid.run.includeEnabled = true :=
    hactive _
  have hbefore : Text.AtLineStart Preamble.endLine.toList :=
    Preamble.toList_endLine ▸ Preamble.contained_endRow.1.atLineStart
  have hafter : Text.IsBehindLine "\n".toList := by
    rintro c ⟨⟩
    rfl
  have hpath : path ≠ "" ∧ '"' ∉ path.toList ∧ '\n' ∉ path.toList := by decide
  have hplain : ¬ Text.OpensComment path.toList := by
    unfold Text.OpensComment
    decide
  obtain ⟨row, -, es, -, -, hrow, hes⟩ :=
    Run.requests_quoted_iff keepingRequests (by decide) hbefore hafter hpath.1 hpath.2.1
    hpath.2.2 0 start (rfl : mid = _) hreading henabled
  exact ⟨hreading, henabled, row, es, hrow, hes.mpr hplain⟩

theorem commented_path_not_requested :
    let run :=
  Run.unit keepingRequests maxIncludeDepth ⟨"t", Preamble.endLine⟩ 0 (Run.start .default false [])
    run.includeEnabled = true ∧
      (Run.unit keepingRequests maxIncludeDepth ⟨"t", quotedInclude "lib//a.glsl"⟩ 0 run).includer =
        [] := by
  intro run
  obtain ⟨descent, depth, hrun⟩ :=
    Run.exists_readUnit keepingRequests maxIncludeDepth ⟨"t", Preamble.endLine⟩ 0
    (Run.start .default false [])
  obtain ⟨descent', depth', hread⟩ := Run.exists_readUnit keepingRequests maxIncludeDepth
    ⟨"t", quotedInclude "lib//a.glsl"⟩ 0 run
  rw [hread]
  subst run
  rw [hrun]
  exact ⟨by cbv, by cbv⟩

end ShaderPipeline.Preprocess
