import ShaderPipeline.Proofs.LineNumber
import ShaderPipeline.Proofs.Preprocess.Effect
import ShaderPipeline.Proofs.Preprocess.TextRun

namespace ShaderPipeline

namespace Includer

variable {σ : Type}

inductive Answered (inc : Includer σ) : σ → List Included → σ → Prop
  | nil {s : σ} : Answered inc s [] s
  | found {s s' : σ} {fs : List Included} {request : IncludeRequest} {f : Included} :
      Answered inc s fs s' → (inc.resolve s' request).1 = .ok f →
      Answered inc s (fs ++ [f]) (inc.resolve s' request).2
  | missed {s s' : σ} {fs : List Included} {request : IncludeRequest} {e : IncludeError} :
      Answered inc s fs s' → (inc.resolve s' request).1 = .error e →
      Answered inc s fs (inc.resolve s' request).2

lemma Answered.trans {inc : Includer σ} {s s' s'' : σ} {fs gs : List Included}
    (h : inc.Answered s fs s') (h' : inc.Answered s' gs s'') : inc.Answered s (fs ++ gs) s'' := by
  induction h' with
  | nil => simpa using h
  | found _ hf ih =>
    rw [← List.append_assoc]
    exact ih.found hf
  | missed _ he ih => exact ih.missed he

def OneLine (inc : Includer σ) : Prop :=
  ∀ s request f, (inc.resolve s request).1 = .ok f → '\n' ∉ f.name.toList

end Includer

namespace Preprocess

variable {σ : Type} {inc : Includer σ} {descent : Descent σ}

structure Run.Reads (inc : Includer σ) (source : Included) (run run' : Run σ) : Prop where
  bodies : run'.table.Bodies Token.OneLine
  written : ∃ xs l, run'.items.toList = run.items.toList ++ xs ∧
    Written source.name 1 xs (Text.lineCount source.content) l ∧
    inc.Answered run.includer (entered xs) run'.includer

def Descent.Reads (inc : Includer σ) (descent : Descent σ) : Prop :=
  ∀ descend, descent = some descend → ∀ source file run,
    run.table.Bodies Token.OneLine → Run.Reads inc source run (descend source file run)

namespace Reading

def heldLines (r : Reading σ) : Nat :=
  r.place.held.elim 0 (·.lines)

def behind (held : Option Held) (l : LineNumber) : LineNumber :=
  held.elim l (l.advance ·.lines)

structure Progress (inc : Includer σ) (run : Run σ) (name : String) (n : Nat) (r : Reading σ) :
    Prop where
  unit : r.place.name = name
  renumber : r.place.renumber = none
  bodies : r.run.table.Bodies Token.OneLine
  held : ∀ h, r.place.held = some h → 0 < h.lines ∧ ∀ t ∈ h.tokens, t.OneLine
  skipping : r.place.isSkipping = true → r.place.held = none
  written : ∃ xs l k, r.run.items.toList = run.items.toList ++ xs ∧ Written name 1 xs k l ∧
    k + r.heldLines = n ∧ r.place.line = behind r.place.held l ∧
    inc.Answered run.includer (entered xs) r.run.includer

variable {r r' : Reading σ} {run : Run σ} {name : String} {n : Nat}

lemma lines_extendHeld (r : Reading σ) (ts : List Token) :
    (r.extendHeld ts).lines = r.heldLines + 1 := by
  simp only [extendHeld, heldLines]
  cases r.place.held <;> rfl

lemma advance_behind {l : LineNumber} (h : r.place.line = behind r.place.held l) (ts : List Token) :
    r.place.line.advance 1 = l.advance (r.extendHeld ts).lines := by
  rw [lines_extendHeld, h]
  simp only [behind, heldLines]
  cases r.place.held with
  | none => rfl
  | some held => exact LineNumber.advance_advance l held.lines 1

namespace Progress

lemma extendHeld (h : Progress inc run name n r) {ts : List Token} (hts : ∀ t ∈ ts, t.OneLine) :
    ∀ t ∈ (r.extendHeld ts).tokens, t.OneLine := by
  intro t ht
  simp only [Reading.extendHeld] at ht
  split at ht
  · exact hts t ht
  · rename_i held hh
    rcases List.mem_append.mp ht with ht | ht
    · exact (h.held held hh).2 t ht
    rcases List.mem_cons.mp ht with rfl | ht
    · simp [Token.OneLine, Token.blank]
    · exact hts t ht

lemma write (h : Progress inc run name n r) {m k : Nat} {out : List Token} (hk : 0 < k)
    (ho : ∀ t ∈ out, t.OneLine) (hunit : r'.place.name = r.place.name)
    (hren : r'.place.renumber = none) (hheld : r'.place.held = none)
    (hrun : r'.run.table = r.run.table) (hinc : r'.run.includer = r.run.includer)
    (hi : r'.run.items = r.run.items.push (.text out k)) (hm : n + k = m + r.heldLines)
    (hline : ∀ l, r.place.line = behind r.place.held l → r'.place.line = l.advance k) :
    Progress inc run name m r' := by
  obtain ⟨xs, l, j, hitems, hw, hn, hl, ha⟩ := h.written
  have hw' : Written name 1 (xs ++ [.text out k]) (j + k) (l.advance k) :=
    .item (x := .text out k) hw trivial ⟨hk, ho⟩
  refine ⟨hunit.trans h.unit, hren, hrun ▸ h.bodies, by
    simp [hheld], fun _ => hheld, xs ++ [.text out k], _, _, ?_, hw', ?_, ?_, ?_⟩
  · rw [hi, Array.toList_push, hitems, List.append_assoc]
  · simp only [heldLines, hheld, Option.elim_none]
    omega
  · rw [hheld]
    exact hline l hl
  · rw [hinc, entered_append, show entered [.text out k] = [] from rfl, List.append_nil]
    exact ha

lemma text (h : Progress inc run name n r) {ts : List Token} (hts : ∀ t ∈ ts, t.OneLine)
    (hs : r.place.isSkipping = false) : Progress inc run name (n + 1) (r.text ts).advance := by
  have hlines := lines_extendHeld r ts
  have htokens := h.extendHeld hts
  have hadvance := fun l hl => advance_behind (r := r) (l := l) hl ts
  have hren : r.place.renumber = none := h.renumber
  have hstep := textStep r ts
  generalize r.text ts = r' at hstep
  cases hstep with
  | written out hout =>
    have ho := Macro.oneLine_of_expandOpen h.bodies htokens hout
    refine h.write (k := (r.extendHeld ts).lines) (by omega) ho rfl rfl rfl rfl rfl rfl (by omega)
      fun l hl => ?_
    rw [← hadvance l hl]
    simp [advance, Place.advance, writeText, emit, release, hren]
  | failed e he =>
    refine h.write (k := (r.extendHeld ts).lines) (by omega) htokens rfl rfl rfl rfl rfl rfl
      (by omega) fun l hl => ?_
    rw [← hadvance l hl]
    simp [advance, Place.advance, writeText, emit, release, fault, hren]
  | held hnone =>
    obtain ⟨xs, l, j, hitems, hw, hn, hl, ha⟩ := h.written
    refine ⟨h.unit, rfl, h.bodies, ?_, fun hskip => ?_, xs, l, j, hitems, hw, ?_, ?_, ha⟩
    · intro held hh
      obtain rfl := Option.some.inj hh
      exact ⟨by omega, htokens⟩
    · rw [show (r.hold (r.extendHeld ts)).advance.place.isSkipping = r.place.isSkipping from rfl,
        hs] at hskip
      cases hskip
    · change j + (r.extendHeld ts).lines = n + 1
      omega
    · change r.place.renumber.getD (r.place.line.advance 1) = l.advance (r.extendHeld ts).lines
      rw [hren, ← hadvance l hl]
      rfl

lemma flush (h : Progress inc run name n r) :
    Progress inc run name n r.flush ∧ r.flush.place.held = none := by
  simp only [Reading.flush]
  split
  · exact ⟨h, by assumption⟩
  · rename_i held hh
    obtain ⟨hlines, htokens⟩ := h.held held hh
    have hheld : r.heldLines = held.lines := by simp [heldLines, hh]
    have hline :
        ∀ l, r.place.line = behind r.place.held l → r.place.line = l.advance held.lines := by
      intro l hl
      rw [hl, hh]
      rfl
    split
    · rename_i out hout
      have ho := Macro.oneLine_of_expand h.bodies htokens hout
      exact ⟨h.write hlines ho rfl h.renumber rfl rfl rfl rfl (by omega) hline, rfl⟩
    · exact ⟨h.write hlines htokens rfl h.renumber rfl rfl rfl rfl (by omega) hline, rfl⟩

lemma item (h : Progress inc run name n r) (hheld : r.place.held = none) {x : Item}
    (hs : Stays r r') (hx : x.Stands r.place.line) (hi : r'.run.items = r.run.items.push x)
    (hr : r'.place.renumber = x.renumber?.or r.place.renumber)
    (ha' : ∀ fs, inc.Answered run.includer fs r.run.includer →
      inc.Answered run.includer fs r'.run.includer) :
    Progress inc run name (n + 1) r'.advance := by
  obtain ⟨xs, l, j, hitems, hw, hn, hl, ha⟩ := h.written
  have hl : r.place.line = l := by simpa [behind, hheld] using hl
  have hn : j = n := by simpa [heldLines, hheld] using hn
  rw [hl] at hx
  have hheld' : r'.place.held = none := hs.held.trans hheld
  have hw' := hw.item hx.fits hx.valid
  rw [hx.height, hx.next, hn] at hw'
  refine ⟨hs.name.trans h.unit, rfl, hs.bodies h.bodies, by simp [advance, Place.advance, hheld'],
    fun _ => hheld', xs ++ [x], _, _, ?_, hw', ?_, ?_, ?_⟩
  · change r'.run.items.toList = _
    rw [hi, Array.toList_push, hitems, List.append_assoc]
  · simp [heldLines, advance, Place.advance, hheld']
  · change r'.place.renumber.getD (r'.place.line.advance 1) = behind r'.place.held _
    rw [hr, h.renumber, Option.or_none, hs.line, hl, hheld']
    rfl
  · have he : entered [x] = [] := by simp [entered, Item.entered_of_fits hx.fits]
    rw [entered_append, he, List.append_nil]
    exact ha' _ ha

lemma file (h : Progress inc run name n r) (hheld : r.place.held = none) (hinc : inc.OneLine)
    {descend : Included → Nat → Run σ → Run σ} (hd : Descent.Reads inc (some descend))
    {request : IncludeRequest} {found : Included}
    (hf : (inc.resolve r.run.includer request).1 = .ok found) :
    Progress inc run name (n + 1) (Reading.advance
      ({ r with run := { r.run with includer := (inc.resolve r.run.includer request).2 } }.enter
        descend found)) := by
  obtain ⟨xs, l, j, hitems, hw, hn, hl, ha⟩ := h.written
  have hl : r.place.line = l := by simpa [behind, hheld] using hl
  have hn : j = n := by simpa [heldLines, hheld] using hn
  have hname := hinc _ _ _ hf
  have hren : r.place.renumber = none := h.renumber
  -- the run as it goes into the file, and `final` as it comes back
  let start : Run σ := Run.emit
    { r.run with includer := (inc.resolve r.run.includer request).2, files := r.run.files + 1 }
    (.enter r.run.nextLine found)
  have hstart : start.items.toList = r.run.items.toList ++ [.enter r.run.nextLine found] :=
    Array.toList_push
  obtain ⟨hbodies, ys, l', hys, hyw, hya⟩ := hd descend rfl found start.files start h.bodies
  change Progress inc run name (n + 1)
    (Reading.advance ⟨r.place, (descend found start.files start).emit
    (.leave (descend found start.files start).nextLine r.place.line r.place.name)⟩)
  generalize descend found start.files start = final at hbodies hys hya
  refine ⟨h.unit, rfl, hbodies, h.held, fun _ => hheld,
    xs ++ .enter r.run.nextLine found :: (ys ++ [.leave final.nextLine l name]), _, _, ?_,
    hw.file hyw hname, ?_, ?_, ?_⟩
  · change (final.items.push _).toList = _
    rw [Array.toList_push, hys, hstart, hitems, hl, h.unit]
    simp
  · simpa [heldLines, advance, Place.advance, hheld] using hn
  · change r.place.renumber.getD (r.place.line.advance 1) = behind r.place.held _
    rw [hren, hl, hheld]
    rfl
  · have he :
        entered (xs ++ .enter r.run.nextLine found :: (ys ++ [.leave final.nextLine l name])) =
        entered xs ++ [found] ++ entered ys := by
      simp [entered, Item.entered?]
    rw [he]
    exact (ha.found hf).trans hya

lemma directive (h : Progress inc run name n r) (hheld : r.place.held = none)
    (hinc : inc.OneLine) (hd : descent.Reads inc) (he : Effect inc descent r r') :
    Progress inc run name (n + 1) r'.advance := by
  cases he with
  | wrote hs hx hi hr hi' => exact h.item hheld hs hx hi hr fun fs ha => hi' ▸ ha
  | missed hs he hi hr hi' =>
    exact h.item hheld hs Item.stands_blank hi (by simpa [Item.renumber?] using hr) fun fs ha =>
      hi' ▸ ha.missed he
  | entered hd' hf => exact h.file hheld hinc (hd' ▸ hd) hf

lemma line (h : Progress inc run name n r) (hinc : inc.OneLine) (hd : descent.Reads inc)
    {s : String} (hs : '\n' ∉ s.toList) :
    Progress inc run name (n + 1) (r.line inc descent s).advance := by
  have hts := Token.oneLine_of_tokenize hs
  obtain ⟨hflush, hheld⟩ := h.flush
  simp only [Reading.line]
  split
  · exact hflush.directive hheld hinc hd (effect_blank (.refl _))
  · rename_i t args hargs
    have ha : ∀ x ∈ Token.trim args, x.OneLine := by
      intro x hx
      have hx := Token.mem_of_mem_trim hx
      simp only [directiveTokens?] at hargs
      split at hargs
      · rename_i t' rest htrim
        split at hargs
        · have hrest : Token.trim rest = t :: args := Option.some.inj hargs
          have hx' : x ∈ rest := Token.mem_of_mem_trim (hrest ▸ .tail _ hx)
          exact hts x (Token.mem_of_mem_trim (htrim ▸ .tail _ hx'))
        · cases hargs
      · cases hargs
    exact hflush.directive hheld hinc hd (effect_directive _ ha hflush.bodies)
  · split
    · rename_i hskip
      exact h.directive (h.skipping hskip) hinc hd (effect_blank (.refl _))
    · rename_i hskip
      exact h.text hts (by simpa using hskip)

lemma lines (h : Progress inc run name n r) (hinc : inc.OneLine) (hd : descent.Reads inc)
    {ss : List String} (hs : ∀ s ∈ ss, '\n' ∉ s.toList) :
    Progress inc run name (n + ss.length) (r.lines inc descent ss) := by
  induction ss generalizing r n with
  | nil => exact h
  | cons s ss ih =>
    obtain ⟨hs, hss⟩ := List.forall_mem_cons.mp hs
    have hl := ih (h.line hinc hd hs) hss
    rw [Nat.add_assoc, Nat.add_comm 1] at hl
    exact hl

end Progress

end Reading

namespace Run

lemma Reads.close {source : Included} {run : Run σ} {r : Reading σ}
    (h : Run.Reads inc source run r.flush.run) : Run.Reads inc source run r.close.run := by
  simp only [Reading.close]
  split
  · exact h
  · exact ⟨h.bodies, h.written⟩

lemma reads_readUnit {run : Run σ} {source : Included} {depth file : Nat}
    (ht : run.table.Bodies Token.OneLine) (hinc : inc.OneLine) (hd : descent.Reads inc) :
    Run.Reads inc source run (run.readUnit inc descent depth source file) := by
  have hstart :
      Reading.Progress inc run source.name 0 ⟨{ name := source.name, depth, file }, run⟩ :=
    ⟨rfl, rfl, ht, by simp, fun _ => rfl, [], 1, 0, (List.append_nil _).symm, .nil, rfl, rfl, .nil⟩
  have hs : ∀ s ∈ Text.lines (Text.clean source.content), '\n' ∉ s.toList := by
    intro s hs
    obtain ⟨l, hl, rfl⟩ := List.mem_map.mp hs
    rw [String.toList_ofList]
    exact Text.newline_notMem_bareLines hl
  obtain ⟨hflush, hheld⟩ := (hstart.lines hinc hd hs).flush
  have hr : Run.Reads inc source run (Reading.flush (Reading.lines
      ⟨{ name := source.name, depth, file }, run⟩ inc descent
        (Text.lines (Text.clean source.content)))).run := by
    obtain ⟨xs, l, k, hitems, hw, hk, -, ha⟩ := hflush.written
    have hk : k = Text.lineCount source.content := by
      simpa [Reading.heldLines, hheld, Text.lineCount] using hk
    exact ⟨hflush.bodies, xs, l, hitems, hk ▸ hw, ha⟩
  exact hr.close

theorem reads_unit (hinc : inc.OneLine) (levels : Nat) :
    Descent.Reads inc (some (Run.unit inc levels)) := by
  induction levels with
  | zero =>
    intro descend hdescend source file run ht
    obtain rfl := Option.some.inj hdescend
    exact reads_readUnit ht hinc (by rintro descend ⟨⟩)
  | succ levels ih =>
    intro descend hdescend source file run ht
    obtain rfl := Option.some.inj hdescend
    exact reads_readUnit ht hinc ih

end Run

def singleFile (found : Included) : Includer Unit :=
  ⟨fun _ _ => (.ok found, ()), fun _ => 1, id⟩

lemma bodies_start (version : Version) (forced : Bool) (includer : σ) :
    (Run.start version forced includer).table.Bodies Token.OneLine :=
  Reading.bodies_setVersion (by intro name m h; cases h) version

theorem written_finalRun (hinc : inc.OneLine) (request : Request) (includer : σ) :
    ∃ xs ys l l', (finalRun inc request includer).items.toList = xs ++ ys ∧
      Written request.tag 1 xs (Text.lineCount request.preamble) l ∧
      Written request.tag 1 ys (Text.lineCount request.source) l' ∧
      inc.Answered includer (entered (xs ++ ys)) (finalRun inc request includer).includer := by
  simp only [finalRun]
  generalize maxIncludeDepth = levels
  have hread := Run.reads_unit hinc levels _ rfl
  obtain ⟨ht, xs, l, hxs, hx, hax⟩ := hread ⟨request.tag, request.preamble⟩ 0 _
    (bodies_start request.version request.forced includer)
  obtain ⟨-, ys, l', hys, hy, hay⟩ := hread ⟨request.tag, request.source⟩ 0 _ ht
  refine ⟨xs, ys, l, l', hys.trans (congrArg (· ++ ys) hxs), hx, hy, ?_⟩
  rw [entered_append]
  exact hax.trans hay

/-- No line gets lost or is added: an output has the lines of the preamble, of the source and of
every included file, which takes one line more than it has. -/
theorem lines_preserved (inc : Includer σ) (hinc : inc.OneLine) (request : Request) (includer : σ)
    (htag : '\n' ∉ request.tag.toList) :
    let run := finalRun inc request includer
    let text := (preprocess inc request includer).1.text
    inc.Answered includer (entered run.items.toList) run.includer ∧
    text.toList.count '\n' = Text.lineCount request.preamble + Text.lineCount request.source +
      ((entered run.items.toList).map fun f => Text.lineCount f.content + 1).sum ∧
    (∀ s : String, Text.IsClosed s.toList → Text.lineCount s = s.toList.count '\n') ∧
    (entered run.items.toList = [] → Text.IsClosed request.preamble.toList →
      Text.IsClosed request.source.toList →
      (Text.lines text).length =
        (Text.lines request.preamble).length + (Text.lines request.source).length) := by
  obtain ⟨xs, ys, l, l', hitems, hx, hy, ha⟩ := written_finalRun hinc request includer
  simp only [preprocess, Run.out]
  generalize finalRun inc request includer = run at hitems ha
  rw [hitems]
  have hv : ∀ x ∈ xs ++ ys, x.Valid := by
    intro x hm
    rcases List.mem_append.mp hm with hm | hm
    · exact hx.valid htag x hm
    · exact hy.valid htag x hm
  have htext := toList_renderAll hv
  have hrows := newline_notMem_allRows hv
  have hlength : ((xs ++ ys).flatMap Item.rows).length = Text.lineCount request.preamble +
      Text.lineCount request.source + ((entered (xs ++ ys)).map fun f =>
        Text.lineCount f.content + 1).sum := by
    rw [List.flatMap_append, List.length_append, hx.length_rows, hy.length_rows, entered_append,
      List.map_append, List.sum_append]
    omega
  refine ⟨ha, ?_, fun s hs => Text.lineCount_of_isClosed hs, fun hnone hp hs => ?_⟩
  · rw [htext, Text.count_unlines hrows, hlength]
  · have hcount :
        ∀ s : String, Text.IsClosed s.toList → (Text.lines s).length = Text.lineCount s := by
      intro s hs
      rw [Text.lineCount_of_isClosed hs, Text.lines, List.length_map, Text.length_bareLines hs]
    rw [Text.lines, List.length_map, htext, Text.bareLines_unlines hrows, hlength, hcount _ hp,
      hcount _ hs, hnone, List.map_nil, List.sum_nil, Nat.add_zero]

theorem lines_preserved_of_include :
    let inc := singleFile ⟨"f", "int x;\n"⟩
    let request : Request :=
      ⟨"t", "#include \"f\"\nvoid main() {}\n", Preamble.endLine, .default, false⟩
    (preprocess inc request ()).1.text.toList.count '\n' =
      Text.lineCount request.preamble + Text.lineCount request.source +
        ((entered (finalRun inc request ()).items.toList).map fun f =>
          Text.lineCount f.content + 1).sum := by
  intro inc request
  have hinc : inc.OneLine := by
    intro s q f hf
    obtain rfl := Except.ok.inj hf
    decide
  exact (lines_preserved inc hinc request () (by decide)).2.1

end Preprocess

end ShaderPipeline
