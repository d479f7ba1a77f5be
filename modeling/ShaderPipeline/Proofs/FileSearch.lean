import Mathlib
import ShaderPipeline.Include

/-! What a search for included files answers after any history of it. -/

namespace ShaderPipeline.FileSearch

inductive Operation
  | addSearchPath (path : String)
  | resolve (q : IncludeRequest)
  | reset
  | replaceFiles (read : String → Except SystemError String)

def perform (s : FileSearch) : Operation → FileSearch
  | .addSearchPath path => s.addSearchPath path
  | .resolve q => (includer.resolve s q).2
  | .reset => includer.reset s
  | .replaceFiles read => { s with read }

def after (s : FileSearch) (ops : List Operation) : FileSearch :=
  ops.foldl perform s

namespace Operation

def addedPath? : Operation → Option String
  | .addSearchPath path => some path
  | _ => none

def isReset : Operation → Bool
  | .reset => true
  | _ => false

def files? : Operation → Option (String → Except SystemError String)
  | .replaceFiles read => some read
  | _ => none

def answer? (s : FileSearch) : Operation → Option (Except IncludeError Included)
  | .resolve q => some (includer.resolve s q).1
  | _ => none

end Operation

def answers (s : FileSearch) : List Operation → List (Except IncludeError Included)
  | [] => []
  | op :: ops => (op.answer? s).toList ++ (s.perform op).answers ops

inductive LooksAt (searchPaths : List String) (q : IncludeRequest) : List String → Prop
  | absolute : Text.startsWith q.requested "/" = true → LooksAt searchPaths q [q.requested]
  | beside {dir : String} : Text.startsWith q.requested "/" = false → q.kind = .relative →
      PathName.parent? q.requesting = some dir →
      LooksAt searchPaths q (PathName.join dir q.requested ::
        searchPaths.map (PathName.join · q.requested))
  | alone : Text.startsWith q.requested "/" = false → q.kind = .relative →
      PathName.parent? q.requesting = none →
      LooksAt searchPaths q (q.requested :: searchPaths.map (PathName.join · q.requested))
  | standard : Text.startsWith q.requested "/" = false → q.kind = .standard →
      LooksAt searchPaths q (searchPaths.map (PathName.join · q.requested))

inductive Settles (read : String → Except SystemError String) (q : IncludeRequest) :
    List String → Except IncludeError Included → Prop
  | found {before rest : List String} {path content : String} :
      (∀ p ∈ before, read p = .error .notFound) →
      read path = .ok content → Settles read q (before ++ path :: rest) (.ok ⟨path, content⟩)
  | unreadable {before rest : List String} {path : String} {e : SystemError} :
      (∀ p ∈ before, read p = .error .notFound) → read path = .error e → e ≠ .notFound →
      Settles read q (before ++ path :: rest) (.error (.unreadable path e))
  | missing {paths : List String} : (∀ p ∈ paths, read p = .error .notFound) →
      Settles read q paths (.error (.notFound q.requested q.requesting))

variable {s : FileSearch} {q : IncludeRequest} {read : String → Except SystemError String}
  {before paths : List String} {r : Except IncludeError Included}

lemma count_includer (a : FileSearch) : includer.count a = a.resolved :=
  rfl

lemma resolve_ok {a : FileSearch} {request : IncludeRequest} {found : Included}
    (h : (includer.resolve a request).1 = .ok found) :
    (includer.resolve a request).2 = { a with resolved := a.resolved + 1 } := by
  revert h
  simp only [includer, resolve]
  split
  · exact fun _ => rfl
  · rintro ⟨⟩

lemma resolve_error {a : FileSearch} {request : IncludeRequest} {e : IncludeError}
    (h : (includer.resolve a request).1 = .error e) : (includer.resolve a request).2 = a := by
  revert h
  simp only [includer, resolve]
  split
  · rintro ⟨⟩
  · exact fun _ => rfl

lemma resolve_eq (s : FileSearch) (q : IncludeRequest) :
    (includer.resolve s q).1 = firstReadable s.read q (s.candidates q) := by
  simp only [includer, resolve]
  split <;> simp_all

lemma looksAt_candidates (s : FileSearch) (q : IncludeRequest) :
    LooksAt s.searchPaths q (s.candidates q) := by
  rw [candidates]
  cases habs : Text.startsWith q.requested "/" with
  | true => exact .absolute habs
  | false =>
    cases hkind : q.kind with
    | standard => exact .standard habs hkind
    | relative =>
      cases hdir : PathName.parent? q.requesting with
      | none =>
        have h : LooksAt s.searchPaths q _ := .alone habs hkind hdir
        simpa [besidePath, hdir] using h
      | some dir =>
        have h : LooksAt s.searchPaths q _ := .beside habs hkind hdir
        simpa [besidePath, hdir] using h

lemma firstReadable_append (h : ∀ p ∈ before, read p = .error .notFound) (rest : List String) :
    firstReadable read q (before ++ rest) = firstReadable read q rest := by
  induction before with
  | nil => rfl
  | cons p before ih =>
    obtain ⟨hp, hbefore⟩ := List.forall_mem_cons.mp h
    rw [List.cons_append, firstReadable, hp, ← ih hbefore]

lemma Settles.cons {p : String} (hp : read p = .error .notFound) (h : Settles read q paths r) :
    Settles read q (p :: paths) r := by
  cases h with
  | found hbefore hpath => exact .found (List.forall_mem_cons.mpr ⟨hp, hbefore⟩) hpath
  | unreadable hbefore hpath he =>
    exact .unreadable (List.forall_mem_cons.mpr ⟨hp, hbefore⟩) hpath he
  | missing hpaths => exact .missing (List.forall_mem_cons.mpr ⟨hp, hpaths⟩)

lemma settles_firstReadable (read : String → Except SystemError String) (q : IncludeRequest)
    (paths : List String) : Settles read q paths (firstReadable read q paths) := by
  induction paths with
  | nil => exact .missing (List.forall_mem_nil _)
  | cons p paths ih =>
    rw [firstReadable]
    split
    · have h : Settles read q ([] ++ p :: paths) _ := .found (List.forall_mem_nil _) ‹_›
      exact h
    · exact ih.cons ‹_›
    · have h : Settles read q ([] ++ p :: paths) _ := .unreadable (List.forall_mem_nil _) ‹_› ‹_›
      exact h

lemma settles_iff : Settles read q paths r ↔ firstReadable read q paths = r := by
  constructor
  · intro h
    cases h with
    | found hbefore hpath => rw [firstReadable_append hbefore, firstReadable, hpath]
    | unreadable hbefore hpath he =>
      rw [firstReadable_append hbefore, firstReadable, hpath]
      split <;> simp_all
    | missing hpaths =>
      rw [← List.append_nil paths, firstReadable_append hpaths, firstReadable]
  · rintro rfl
    exact settles_firstReadable read q paths

lemma settles_of_agree {path : String} {rest : List String}
    {read' : String → Except SystemError String} (hbefore : ∀ p ∈ before, read p = .error .notFound)
    (hpath : read path ≠ .error .notFound) (hagree : ∀ p ∈ before ++ [path], read' p = read p)
    (h : Settles read q (before ++ path :: rest) r) :
    Settles read' q (before ++ path :: rest) r := by
  obtain ⟨hbefore', hpath'⟩ : (∀ p ∈ before, read' p = read p) ∧ read' path = read path := by
    simpa [or_imp, forall_and] using hagree
  have hmissing : ∀ p ∈ before, read' p = .error .notFound :=
    fun p hp => (hbefore' p hp).trans (hbefore p hp)
  rw [settles_iff, firstReadable_append hmissing, firstReadable, hpath']
  rw [settles_iff, firstReadable_append hbefore, firstReadable] at h
  split at h <;> simp_all

lemma resolve_state (s : FileSearch) (q : IncludeRequest) : (includer.resolve s q).2 =
    { s with resolved := s.resolved + [(includer.resolve s q).1].countP Except.isOk } := by
  cases h : (includer.resolve s q).1 with
  | ok => exact resolve_ok h
  | error => exact resolve_error h

lemma searchPaths_perform (s : FileSearch) (op : Operation) :
    (s.perform op).searchPaths = s.searchPaths ++ op.addedPath?.toList := by
  cases op with
  | addSearchPath => rfl
  | reset | replaceFiles => exact (List.append_nil _).symm
  | resolve q =>
    rw [perform, resolve_state]
    exact (List.append_nil _).symm

lemma read_perform (s : FileSearch) (op : Operation) :
    (s.perform op).read = op.files?.getD s.read := by
  cases op with
  | addSearchPath | reset | replaceFiles => rfl
  | resolve q =>
    rw [perform, resolve_state]
    rfl

lemma count_perform (s : FileSearch) (op : Operation) : includer.count (s.perform op) =
    if op.isReset then 0 else includer.count s + (op.answer? s).toList.countP Except.isOk := by
  cases op with
  | addSearchPath | replaceFiles | reset => rfl
  | resolve q =>
    rw [perform, resolve_state]
    rfl

lemma after_cons (s : FileSearch) (op : Operation) (ops : List Operation) :
    s.after (op :: ops) = (s.perform op).after ops :=
  rfl

lemma after_append (s : FileSearch) (ops ops' : List Operation) :
    s.after (ops ++ ops') = (s.after ops).after ops' :=
  List.foldl_append

lemma searchPaths_after (s : FileSearch) (ops : List Operation) :
    (s.after ops).searchPaths = s.searchPaths ++ ops.filterMap Operation.addedPath? := by
  induction ops generalizing s with
  | nil => exact (List.append_nil _).symm
  | cons op ops ih =>
    rw [after_cons, ih, searchPaths_perform, List.append_assoc, List.filterMap_cons]
    cases op.addedPath? <;> rfl

lemma read_after (s : FileSearch) (ops : List Operation) :
    (s.after ops).read = (ops.filterMap Operation.files?).getLastD s.read := by
  induction ops generalizing s with
  | nil => rfl
  | cons op ops ih =>
    rw [after_cons, ih, read_perform, List.filterMap_cons]
    cases op.files? with
    | none => rfl
    | some read => exact (List.getLastD_cons ..).symm

lemma count_after (s : FileSearch) {ops : List Operation} (hops : ∀ op ∈ ops, op.isReset = false) :
    includer.count (s.after ops) = includer.count s + (s.answers ops).countP Except.isOk := by
  induction ops generalizing s with
  | nil => rfl
  | cons op ops ih =>
    obtain ⟨hop, hops⟩ := List.forall_mem_cons.mp hops
    rw [after_cons, ih _ hops, count_perform, hop, answers, List.countP_append, ← Nat.add_assoc]
    rfl

def beforeReset (ops : List Operation) : List Operation :=
  ops.rdropWhile (!·.isReset)

def sinceReset (ops : List Operation) : List Operation :=
  ops.rtakeWhile (!·.isReset)

lemma count_beforeReset {s : FileSearch} (h : includer.count s = 0) (ops : List Operation) :
    includer.count (s.after (beforeReset ops)) = 0 := by
  by_cases hnil : beforeReset ops = []
  · rw [hnil]
    exact h
  · have hlast : ((beforeReset ops).getLast hnil).isReset = true := by
      simpa [beforeReset] using List.rdropWhile_last_not (fun op : Operation =>
        !op.isReset) ops hnil
    rw [← List.dropLast_append_getLast hnil, after_append]
    exact (count_perform _ _).trans (if_pos hlast)

lemma count_sinceReset {s : FileSearch} (h : includer.count s = 0) (ops : List Operation) :
    includer.count (s.after ops) =
      ((s.after (beforeReset ops)).answers (sinceReset ops)).countP Except.isOk := by
  have hops : ∀ op ∈ sinceReset ops, op.isReset = false :=
    fun op hop => by simpa using List.mem_rtakeWhile_imp hop
  have hall : ops = beforeReset ops ++ sinceReset ops := List.rdropWhile_append_rtakeWhile.symm
  conv_lhs => rw [hall, after_append, count_after _ hops, count_beforeReset h, Nat.zero_add]

theorem search_after (read : String → Except SystemError String) (ops : List Operation) :
    let s := after { read } ops
    s.searchPaths = ops.filterMap Operation.addedPath? ∧
    s.read = (ops.filterMap Operation.files?).getLastD read ∧
    includer.count s =
      ((after { read } (beforeReset ops)).answers (sinceReset ops)).countP Except.isOk ∧
    ∀ q, ∃ paths, LooksAt s.searchPaths q paths ∧
    (∀ r, (includer.resolve s q).1 = r ↔ Settles s.read q paths r) ∧
      ∀ before path rest, paths = before ++ path :: rest →
        (∀ p ∈ before, s.read p = .error .notFound) →
        s.read path ≠ .error .notFound → ∀ read', (∀ p ∈ before ++ [path], read' p = s.read p) →
          (includer.resolve (s.perform (.replaceFiles read')) q).1 = (includer.resolve s q).1 := by
  intro s
  have hcount : includer.count ({ read } : FileSearch) = 0 := rfl
  refine ⟨?_, read_after _ ops, count_sinceReset hcount ops, fun q => ?_⟩
  · exact searchPaths_after _ ops
  refine ⟨s.candidates q, looksAt_candidates s q, fun r => ?_, ?_⟩
  · rw [resolve_eq, settles_iff]
  · intro before path rest hpaths hbefore hpath read' hagree
    have hsettled : Settles s.read q (before ++ path :: rest) (includer.resolve s q).1 := by
      rw [settles_iff, resolve_eq, hpaths]
    have hsame : (s.perform (.replaceFiles read')).candidates q = before ++ path :: rest := hpaths
    rw [resolve_eq, hsame]
    exact settles_iff.mp (settles_of_agree hbefore hpath hagree hsettled)

theorem search_after_of_unreadable :
    let read : String → Except SystemError String := fun path =>
      if path = "shaders/light.glsl" then .ok ""
      else if path = "lib/noise.glsl" then .error .isDirectory
      else .error .notFound
    let ops : List Operation := [.resolve ⟨"light.glsl", .relative, "shaders/a.vert", 0⟩, .reset,
      .addSearchPath "lib", .addSearchPath "/usr/share", .resolve ⟨"light.glsl", .standard,
        "shaders/a.vert", 0⟩]
    let q : IncludeRequest := ⟨"noise.glsl", .relative, "shaders/a.vert", 0⟩
    (after { read } ops).searchPaths = ["lib", "/usr/share"] ∧
      includer.count (after { read } ops) = 0 ∧
      (includer.resolve (after { read } ops) q).1 =
        .error (.unreadable "lib/noise.glsl" .isDirectory) ∧
      Settles read q (["shaders/noise.glsl"] ++ "lib/noise.glsl" :: ["/usr/share/noise.glsl"])
        (.error (.unreadable "lib/noise.glsl" .isDirectory)) := by
  intro read ops q
  obtain ⟨hpaths, hread, hcount, hq⟩ := search_after read ops
  obtain ⟨paths, hlooks, hanswer, -⟩ := hq q
  have hlist : paths = ["shaders/noise.glsl"] ++ "lib/noise.glsl" :: ["/usr/share/noise.glsl"] := by
    rw [show (after { read } ops).searchPaths = ["lib", "/usr/share"] from hpaths] at hlooks
    cases hlooks with
    | absolute habs => exact absurd habs (by decide)
    | standard _ hkind => exact absurd hkind (by decide)
    | alone _ _ hdir => exact absurd hdir (by decide)
    | @beside dir _ _ hdir =>
      obtain rfl : "shaders" = dir :=
        Option.some.inj ((by decide : _ = some "shaders").symm.trans hdir)
      decide
  have hsettled :
      Settles read q (["shaders/noise.glsl"] ++ "lib/noise.glsl" :: ["/usr/share/noise.glsl"])
      (.error (.unreadable "lib/noise.glsl" .isDirectory)) :=
    .unreadable (by decide) rfl (by decide)
  refine ⟨hpaths, hcount.trans (by decide), (hanswer _).mpr ?_, hsettled⟩
  rwa [show (after { read } ops).read = read from hread, hlist]

end ShaderPipeline.FileSearch
