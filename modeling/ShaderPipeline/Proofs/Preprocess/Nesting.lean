import ShaderPipeline.Proofs.Preprocess.History

/-! How the files that a run reads stand inside one another: what they are asked for, how they are
numbered, and between which line directives they are written. -/

namespace ShaderPipeline.Preprocess

variable {σ : Type} {inc : Includer σ}

inductive Calls (inc : Includer σ) : σ → List (Inclusion σ) → σ → Prop
  | nil (s : σ) : Calls inc s [] s
  | cons {s s' : σ} {e : Inclusion σ} {es : List (Inclusion σ)} :
      (inc.resolve s e.request).1 = e.answer.map Visit.found →
        Calls inc (inc.resolve s e.request).2 es s' →
      Calls inc s (e :: es) s'

def Item.IsBracket : Item → Prop
  | .enter .. | .leave .. => True
  | _ => False

def lineRow (n : Int) (name : String) : String :=
  "#line " ++ toString n ++ " \"" ++ name ++ "\"\n"

/-- What a unit writes, as items and as text, and which calls it makes. What an included file writes
stands between a line directive for the file and one for the unit. Each says what the version that
is in force there takes for the number of the line behind it, or else for its own. -/
inductive Bracketed : Origin → List Item → String → List (Inclusion σ) → Prop
  | nil (u : Origin) : Bracketed u [] "" []
  | item {u : Origin} {xs : List Item} {out : String} {es : List (Inclusion σ)} {x : Item} :
      Bracketed u xs out es → ¬ x.IsBracket → Bracketed u (xs ++ [x]) (out ++ x.render) es
  | refused {u : Origin} {xs : List Item} {out : String} {es : List (Inclusion σ)}
      {e : Inclusion σ} {error : IncludeError} : Bracketed u xs out es →
      e.before.place.origin = u → e.answer = .error error → Bracketed u xs out (es ++ [e])
  | file {u : Origin} {xs ys : List Item} {out inner : String} {es fs : List (Inclusion σ)}
      {e : Inclusion σ} {v : Visit σ} : Bracketed u xs out es →
      e.before.place.origin = u → e.answer = .ok v → Bracketed v.first.place.origin ys inner fs →
      Bracketed u
        (xs ++ .enter e.before.run.nextLine v.found ::
          (ys ++ [.leave v.last.run.nextLine e.before.place.line u.name]))
        (out ++ (lineRow (if e.before.run.nextLine then 1 else 0) v.found.name ++ (inner ++
          lineRow (min (e.before.place.line + if v.last.run.nextLine then 1 else 0) (2 ^ 63 - 1))
            u.name)))
        (es ++ e :: fs)

lemma render_enter (nextLine : Bool) (found : Included) :
    (Item.enter nextLine found).render = lineRow (if nextLine then 1 else 0) found.name := by
  have hnumber : LineNumber.advance 0 (if nextLine then 1 else 0) = if nextLine then 1 else 0 := by
    cases nextLine <;> rfl
  rw [Item.render, LineNumber.resume, hnumber, lineRow]
  simp [LineNumber.directive, Item.toString_string]

lemma render_leave (nextLine : Bool) (line : LineNumber) (name : String) :
    (Item.leave nextLine line name).render =
      lineRow (min (line + if nextLine then 1 else 0) (2 ^ 63 - 1)) name := by
  have hnumber : line.advance (if nextLine then 1 else 0) =
      min (line + if nextLine then 1 else 0) (2 ^ 63 - 1) := by
    cases nextLine <;> rfl
  rw [Item.render, LineNumber.resume, hnumber, lineRow]
  simp [LineNumber.directive, Item.toString_string]

structure Visit.Below (v : Visit σ) (p : Place) : Prop where
  first : v.first.place = { name := v.found.name, depth := p.depth + 1, file := v.first.place.file }
  last : v.last.place.origin = v.first.place.origin

namespace Inclusion

def file? (e : Inclusion σ) : Option Nat :=
  match e.answer with
  | .ok v => some v.first.place.file
  | .error _ => none

/-- The request names the unit that makes it and counts one level more. The place is the same behind
the include, only that no text is held there. -/
structure Sound (e : Inclusion σ) : Prop where
  requesting : e.request.requesting = e.before.place.name
  depth : e.request.depth = e.before.place.depth + 1
  positive : 1 ≤ e.request.depth
  bounded : e.request.depth ≤ maxIncludeDepth
  below : ∀ v, e.answer = .ok v → v.Below e.before.place
  resumed : e.after.place = { e.before.place with held := none }

lemma Sound.origin {e : Inclusion σ} (h : e.Sound) :
    e.after.place.origin = e.before.place.origin := by
  rw [h.resumed]
  rfl

lemma sound_of_asks {e : Inclusion σ} {s : String} (hq : e.before.asks? s = some e.request)
    (hbelow : ∀ v, e.answer = .ok v → v.Below e.before.place)
    (hafter : e.after.place = e.before.flush.place) : e.Sound := by
  obtain ⟨_, _, target, kind, -, -, -, -, hdepth, -, hrequest⟩ := Reading.asks_eq_some hq
  have hname : e.request.requesting = e.before.place.name := by rw [← hrequest, Reading.request]
  have hlevel : e.request.depth = e.before.place.depth + 1 := by rw [← hrequest, Reading.request]
  refine ⟨hname, hlevel, ?_, ?_, hbelow, hafter.trans (Reading.place_flush _)⟩
  · rw [hlevel]
    exact Nat.le_add_left 1 _
  · rw [hlevel]
    exact hdepth

end Inclusion

namespace Reading

structure Local (r r' : Reading σ) : Prop where
  origin : r'.place.origin = r.place.origin
  includer : r'.run.includer = r.run.includer
  files : r'.run.files = r.run.files
  items : ∃ xs, r'.run.items.toList = r.run.items.toList ++ xs ∧ ∀ x ∈ xs, ¬ x.IsBracket

namespace Local

variable {r r' r'' : Reading σ}

lemma of_items (horigin : r'.place.origin = r.place.origin)
    (hincluder : r'.run.includer = r.run.includer) (hfiles : r'.run.files = r.run.files)
    (hitems : r'.run.items = r.run.items) : Local r r' :=
  ⟨horigin, hincluder, hfiles, [], by rw [hitems, List.append_nil], nofun⟩

lemma refl (r : Reading σ) : Local r r :=
  of_items rfl rfl rfl rfl

lemma trans (h : Local r r') (h' : Local r' r'') : Local r r'' := by
  obtain ⟨xs, hxs, hown⟩ := h.items
  obtain ⟨ys, hys, hown'⟩ := h'.items
  refine ⟨h'.origin.trans h.origin, h'.includer.trans h.includer, h'.files.trans h.files,
    xs ++ ys, ?_, List.forall_mem_append.mpr ⟨hown, hown'⟩⟩
  rw [hys, hxs, List.append_assoc]

lemma emit (r : Reading σ) {x : Item} (hx : ¬ x.IsBracket) : Local r (r.emit x) :=
  ⟨rfl, rfl, rfl, [x], Array.toList_push, List.forall_mem_singleton.mpr hx⟩

lemma declareVersion (r : Reading σ) (args : List Token) : Local r (r.declareVersion args) := by
  simp only [Reading.declareVersion]
  split
  · exact .refl r
  split
  · exact of_items rfl rfl rfl rfl
  split
  · exact of_items rfl rfl rfl rfl
  · exact of_items rfl rfl rfl rfl

lemma act {V : List Token → Prop} (hinc : ∀ s q, (inc.resolve s q).2 = s)
    (h : Act inc none V r r') : Local r r' := by
  cases h with
  | blank => exact emit r id
  | version args => exact (emit r id).trans (declareVersion _ _)
  | extension => exact emit r id
  | pragma => exact emit r id
  | renumber args => exact (of_items rfl rfl rfl rfl : Local r (r.continueAt _)).trans (emit _ id)
  | write out => exact (of_items rfl rfl rfl rfl : Local r r.release).trans (emit _ id)
  | missed =>
    exact (of_items rfl (hinc _ _) rfl rfl : Local r ((r.ask inc _).fault _ _)).trans (emit _ id)
  | entered hdescent => cases hdescent
  | _ => exact of_items rfl rfl rfl rfl

lemma acts {V : List Token → Prop} (hinc : ∀ s q, (inc.resolve s q).2 = s)
    (h : Acts inc none V r r') : Local r r' := by
  induction h with
  | refl => exact .refl r
  | tail _ hact ih => exact ih.trans (act hinc hact)

end Local

def unasked (σ : Type) : Includer σ :=
  ⟨fun s q => (.error (.notFound q.requested q.requesting), s), fun _ => 0, id⟩

lemma local_line (inc : Includer σ) (r : Reading σ) (s : String) :
    Local r (r.line inc none s).advance := by
  -- with no way down any includer does
  have hunasked : r.line inc none s = r.line (unasked σ) none s := rfl
  have hacts : Acts (unasked σ) none (fun _ => True) r (r.line (unasked σ) none s) :=
    acts_line r s fun _ _ => trivial
  rw [hunasked]
  exact Local.acts (fun _ _ => rfl) (hacts.tail (.advance _))

lemma local_flush (r : Reading σ) : Local r r.flush := by
  have hacts : Acts (unasked σ) none (fun _ => True) r r.flush := acts_flush r
  exact Local.acts (fun _ _ => rfl) hacts

lemma local_close (r : Reading σ) : Local r r.close := by
  rw [close]
  dsimp only
  split
  · exact local_flush r
  · exact (local_flush r).trans (.of_items rfl rfl rfl rfl)

lemma nextLine_flush (r : Reading σ) : r.flush.run.nextLine = r.run.nextLine := by
  rw [flush]
  rcases r.place.held with _ | h
  · rfl
  dsimp only
  cases r.run.table.expand h.builtins h.tokens <;> rfl

lemma nextLine_close (r : Reading σ) : r.close.run.nextLine = r.run.nextLine := by
  rw [close]
  dsimp only
  split
  · exact nextLine_flush r
  · exact nextLine_flush r

lemma place_opened (inc : Includer σ) (r : Reading σ) (q : IncludeRequest) (found : Included) :
    ((r.flush.ask inc q).opened found).place =
      { name := found.name, depth := r.place.depth + 1, file := r.flush.run.files + 1 } := by
  have hdepth : (r.flush.ask inc q).place.depth = r.place.depth := by
    change r.flush.place.depth = _
    rw [place_flush]
  rw [opened, hdepth]
  rfl

lemma items_opened (inc : Includer σ) (r : Reading σ) (q : IncludeRequest) (found : Included) :
    ((r.flush.ask inc q).opened found).run.items.toList =
      r.flush.run.items.toList ++ [.enter r.run.nextLine found] := by
  rw [← nextLine_flush r]
  exact Array.toList_push

lemma items_resumed (inc : Includer σ) (r last : Reading σ) (q : IncludeRequest) :
    ((r.flush.ask inc q).resumed last.close.run).run.items.toList =
      last.close.run.items.toList ++ [.leave last.run.nextLine r.place.line r.place.name] := by
  have hline : r.flush.place.line = r.place.line := by rw [place_flush]
  have hname : r.flush.place.name = r.place.name := by rw [place_flush]
  rw [← hline, ← hname, ← nextLine_close last]
  exact Array.toList_push

end Reading

lemma Calls.append {s s' s'' : σ} {es fs : List (Inclusion σ)} (h : Calls inc s es s')
    (h' : Calls inc s' fs s'') : Calls inc s (es ++ fs) s'' := by
  induction h with
  | nil => exact h'
  | cons hanswer _ ih => exact .cons hanswer (ih h')

namespace Bracketed

variable {u : Origin} {xs ys : List Item} {out more : String} {es fs : List (Inclusion σ)}

lemma append (h : Bracketed u xs out es) (h' : Bracketed u ys more fs) :
    Bracketed u (xs ++ ys) (out ++ more) (es ++ fs) := by
  induction h' with
  | nil => simpa using h
  | item _ hx ih => simpa [String.append_assoc] using (ih h).item hx
  | refused _ hu he ih => simpa using (ih h).refused hu he
  | file _ hu he hread ih _ => simpa [String.append_assoc] using (ih h).file hu he hread

lemma of_items (hxs : ∀ x ∈ xs, ¬ x.IsBracket) :
    Bracketed u xs (Item.renderAll xs) ([] : List (Inclusion σ)) := by
  induction xs using List.reverseRecOn with
  | nil => exact .nil u
  | append_singleton xs x ih =>
    obtain ⟨hxs, hx⟩ := List.forall_mem_append.mp hxs
    rw [renderAll_append, renderAll_singleton]
    exact (ih hxs).item (hx x (List.mem_singleton_self x))

end Bracketed

structure Includes (inc : Includer σ) (u : Origin) (run : Run σ) (es : List (Inclusion σ))
    (run' : Run σ) : Prop where
  sound : ∀ e ∈ es, e.Sound
  calls : Calls inc run.includer es run'.includer
  files : ∃ k, run'.files = run.files + k ∧
    es.filterMap Inclusion.file? = List.range' (run.files + 1) k
  items : ∃ xs, run'.items.toList = run.items.toList ++ xs ∧ Bracketed u xs (Item.renderAll xs) es

namespace Includes

variable {u : Origin} {run run' run'' : Run σ} {es fs : List (Inclusion σ)}

lemma of_local {r r' : Reading σ} (h : r.Local r') : Includes inc u r.run [] r'.run := by
  obtain ⟨xs, hxs, hown⟩ := h.items
  refine ⟨List.forall_mem_nil _, ?_, ⟨0, h.files, rfl⟩, xs, hxs, .of_items hown⟩
  rw [h.includer]
  exact .nil _

lemma append (h : Includes inc u run es run') (h' : Includes inc u run' fs run'') :
    Includes inc u run (es ++ fs) run'' := by
  obtain ⟨k, hk, hfiles⟩ := h.files
  obtain ⟨l, hl, hfiles'⟩ := h'.files
  obtain ⟨xs, hxs, hnested⟩ := h.items
  obtain ⟨ys, hys, hnested'⟩ := h'.items
  refine ⟨List.forall_mem_append.mpr ⟨h.sound, h'.sound⟩, h.calls.append h'.calls,
    ⟨k + l, ?_, ?_⟩, xs ++ ys, ?_, renderAll_append xs ys ▸ hnested.append hnested'⟩
  · rw [hl, hk, Nat.add_assoc]
  · have hnext : run.files + k + 1 = run.files + 1 + k := by omega
    rw [List.filterMap_append, hfiles, hfiles', hk, hnext, List.range'_append_1]
  · rw [hys, hxs, List.append_assoc]

variable {e : Inclusion σ} {s : String}

lemma refused {error : IncludeError} (hq : e.before.asks? s = some e.request)
    (hanswer : e.answer = .error error)
    (he : (inc.resolve e.before.flush.run.includer e.request).1 = .error error)
    (hafter :
      ((e.before.flush.ask inc e.request).fault "#include" (.inclusion error)).newline = e.after) :
    Includes inc e.before.place.origin e.before.flush.run [e] e.after.run := by
  have hbelow : ∀ v, e.answer = .ok v → v.Below e.before.place := by
    rw [hanswer]
    rintro v ⟨⟩
  have hsound : e.Sound := Inclusion.sound_of_asks hq hbelow (by rw [← hafter]; rfl)
  have hfile : e.file? = none := by rw [Inclusion.file?, hanswer]
  have hnested : Bracketed e.before.place.origin [.blank] (Item.renderAll [.blank]) [e] :=
    ((Bracketed.nil _).refused rfl hanswer).item id
  rw [← hafter]
  refine ⟨List.forall_mem_singleton.mpr hsound, .cons ?_ (.nil _), ⟨0, rfl, ?_⟩, [.blank],
    Array.toList_push, hnested⟩
  · rw [he, hanswer]
    rfl
  · rw [List.filterMap_cons_none hfile]
    rfl

lemma file {v : Visit σ} (hq : e.before.asks? s = some e.request) (hanswer : e.answer = .ok v)
    (hf : (inc.resolve e.before.flush.run.includer e.request).1 = .ok v.found)
    (hfirst : (e.before.flush.ask inc e.request).opened v.found = v.first)
    (hlast : v.last.place.origin = v.first.place.origin)
    (h : Includes inc v.first.place.origin v.first.run fs v.last.close.run)
    (hafter : (e.before.flush.ask inc e.request).resumed v.last.close.run = e.after) :
    Includes inc e.before.place.origin e.before.flush.run (e :: fs) e.after.run := by
  have hplace := Reading.place_opened inc e.before e.request v.found
  have hentered := Reading.items_opened inc e.before e.request v.found
  have hcounted : v.first.run.files = e.before.flush.run.files + 1 :=
    congrArg (·.run.files) hfirst.symm
  have hcalled : v.first.run.includer = (inc.resolve e.before.flush.run.includer e.request).2 :=
    congrArg (·.run.includer) hfirst.symm
  rw [hfirst] at hplace hentered
  have hbelow : ∀ v, e.answer = .ok v → v.Below e.before.place := by
    rw [hanswer]
    rintro v ⟨⟩
    exact ⟨by rw [hplace], hlast⟩
  have hsound : e.Sound := Inclusion.sound_of_asks hq hbelow (by rw [← hafter]; rfl)
  have hfile : e.file? = some (e.before.flush.run.files + 1) := by
    rw [Inclusion.file?, hanswer]
    exact congrArg (fun p => some p.file) hplace
  obtain ⟨k, hk, hfiles⟩ := h.files
  obtain ⟨xs, hxs, hnested⟩ := h.items
  let opening := Item.enter e.before.run.nextLine v.found
  let closing := Item.leave v.last.run.nextLine e.before.place.line e.before.place.name
  have htext : Item.renderAll (opening :: (xs ++ [closing])) =
      "" ++ (opening.render ++ (Item.renderAll xs ++ closing.render)) := by
    rw [← List.singleton_append, renderAll_append, renderAll_append, renderAll_singleton,
      renderAll_singleton, String.empty_append]
  have hbracketed : Bracketed e.before.place.origin (opening :: (xs ++ [closing]))
      (Item.renderAll (opening :: (xs ++ [closing]))) (e :: fs) := by
    rw [htext, render_enter, render_leave]
    exact (Bracketed.nil _).file rfl hanswer hnested
  have hcalls := h.calls
  rw [hcalled] at hcalls
  rw [hcounted] at hk hfiles
  rw [← hafter]
  refine ⟨List.forall_mem_cons.mpr ⟨hsound, h.sound⟩, .cons ?_ hcalls, ⟨k + 1, ?_, ?_⟩, _,
    ?_, hbracketed⟩
  · rw [hf, hanswer]
    rfl
  · change v.last.close.run.files = _
    omega
  · rw [List.filterMap_cons_some hfile, hfiles, List.range'_succ]
  · rw [Reading.items_resumed, hxs, hentered]
    simp [opening, closing]

end Includes

namespace Reading

theorem Evaluates.includes {r last : Reading σ} {ss : List String} {es : List (Inclusion σ)}
    (h : Evaluates inc r ss es last) :
    last.place.origin = r.place.origin ∧ Includes inc r.place.origin r.run es last.run := by
  -- an include comes behind the text that was held, and in front of what the rest of the unit
  -- includes
  induction h with
  | done r => exact ⟨rfl, .of_local (.refl r)⟩
  | @line r last s ss es hsilent _ ih =>
    obtain ⟨horigin, hincludes⟩ := ih
    have hline := local_line inc r s
    rw [hline.origin] at horigin hincludes
    exact ⟨horigin, (Includes.of_local hline).append hincludes⟩
  | @refused r after last s ss es q error hq he hafter _ ih =>
    obtain ⟨horigin, hincludes⟩ := ih
    have hcall := Includes.refused (e := ⟨r, q, .error error, after⟩) hq rfl he hafter
    have hback : after.advance.place.origin = r.place.origin :=
      (hcall.sound _ (List.mem_singleton_self _)).origin
    rw [hback] at horigin hincludes
    exact ⟨horigin, ((Includes.of_local (local_flush r)).append hcall).append hincludes⟩
  | @file r first end' after last s ss fs es q found hq hf hfirst _ hafter _ ihfile ih =>
    obtain ⟨horigin, hincludes⟩ := ih
    obtain ⟨hend, hinside⟩ := ihfile
    have hclosed := hinside.append (.of_local (local_close end'))
    rw [List.append_nil] at hclosed
    have hcall := Includes.file (e := ⟨r, q, .ok ⟨found, first, end'⟩, after⟩) hq rfl hf hfirst hend
      hclosed hafter
    have hback : after.advance.place.origin = r.place.origin :=
      (hcall.sound _ List.mem_cons_self).origin
    rw [hback] at horigin hincludes
    exact ⟨horigin, ((Includes.of_local (local_flush r)).append hcall).append hincludes⟩

end Reading

lemma Run.Evaluates.includes {depth file : Nat} {source : Included} {run run' : Run σ}
    {es : List (Inclusion σ)} (h : Run.Evaluates inc depth source file run es run') :
    Includes inc ⟨source.name, depth, file⟩ run es run' := by
  obtain ⟨last, hread, rfl⟩ := h
  have hclosed := hread.includes.2.append (.of_local (Reading.local_close last))
  rw [List.append_nil] at hclosed
  exact hclosed

/-- Preprocessing is one history of the run, with each file inside the line that includes it, and
the output is what this history writes. No file is asked for from a unit at the greatest depth. -/
theorem inclusions_nest (inc : Includer σ) (request : Request) (includer : σ) :
    ∃ (es : List (Inclusion σ)) (run : Run σ),
      (∀ es' run', Preprocesses inc request includer es' run' ↔ es' = es ∧ run' = run) ∧
      preprocess inc request includer = (⟨run.faults.isEmpty, run.out, run.log⟩, run.includer) ∧
      (∀ e ∈ es, e.Sound) ∧
      Calls inc includer es run.includer ∧
      es.filterMap Inclusion.file? = List.range' 1 run.files ∧
      Bracketed ⟨request.tag, 0, 0⟩ run.items.toList run.out es := by
  have hresult : preprocess inc request includer =
      let run := finalRun inc request includer
      (⟨run.faults.isEmpty, run.out, run.log⟩, run.includer) := rfl
  obtain ⟨es, h⟩ := exists_preprocesses inc request includer
  generalize finalRun inc request includer = run at h hresult
  refine ⟨es, run, fun es' run' => ⟨h.unique, ?_⟩, hresult, ?_⟩
  · rintro ⟨rfl, rfl⟩
    exact h
  obtain ⟨fs, gs, middle, hpreamble, hsource, rfl⟩ := h
  have hincludes := hpreamble.includes.append hsource.includes
  obtain ⟨k, hk, hfiles⟩ := hincludes.files
  obtain ⟨xs, hxs, hbracketed⟩ := hincludes.items
  have hfresh : (Run.start request.version request.forced includer).files = 0 := rfl
  have hblank : (Run.start request.version request.forced includer).items.toList = [] := rfl
  rw [hfresh, Nat.zero_add] at hk hfiles
  rw [hblank, List.nil_append] at hxs
  rw [hk, Run.out, hxs]
  exact ⟨hincludes.sound, hincludes.calls, hfiles, hbracketed⟩

end ShaderPipeline.Preprocess
