import ShaderPipeline.Proofs.Preprocess.Blocks

/-! Lines that are not read may be exchanged for any others that neither open, divide nor close a
group. -/

namespace ShaderPipeline.Preprocess

inductive Nested : List Group → Prop
  | nil : Nested []
  | cons {g : Group} {gs : List Group} : (g.active = true → g.parentActive = true) →
      (g.parentActive = true → ∀ g' ∈ gs, g'.active = true) → Nested gs → Nested (g :: gs)

namespace Nested

variable {g : Group} {gs : List Group}

lemma tail (h : Nested (g :: gs)) : Nested gs := by
  cases h with
  | cons _ _ htail => exact htail

lemma active_of_parentActive (h : Nested (g :: gs)) (hg : g.parentActive = true) :
    ∀ g' ∈ gs, g'.active = true := by
  cases h with
  | cons _ hparent _ => exact hparent hg

lemma divided (h : Nested (g :: gs)) {g' : Group} (hparent : g'.parentActive = g.parentActive)
    (hactive : g'.active = true → g.parentActive = true) : Nested (g' :: gs) := by
  refine .cons (fun hg' => ?_) (fun hg' => ?_) h.tail
  · rw [hparent]
    exact hactive hg'
  · exact h.active_of_parentActive (hparent ▸ hg')

end Nested

namespace Place

variable {p : Place}

def IsInactive (p : Place) : Prop :=
  ∃ g ∈ p.groups, g.active = false

lemma active_of_reading (h : Nested p.groups) (hp : p.isSkipping = false) :
    ∀ g ∈ p.groups, g.active = true := by
  rw [isSkipping] at hp
  cases hgs : p.groups with
  | nil => exact List.forall_mem_nil _
  | cons g gs =>
    rw [hgs] at h hp
    cases h with
    | cons hactive hparent _ =>
      have hg : g.active = true := by simpa using hp
      exact List.forall_mem_cons.mpr ⟨hg, hparent (hactive hg)⟩

lemma isSkipping_of_isInactive (h : Nested p.groups) (hp : p.IsInactive) : p.isSkipping = true := by
  obtain ⟨g, hg, hinactive⟩ := hp
  by_contra hskip
  have hactive := active_of_reading h (Bool.eq_false_iff.mpr hskip) g hg
  rw [hinactive] at hactive
  cases hactive

/-- What holds at every line of a unit: its groups are nested, and no text is held over a branch
that is not read. -/
structure Settled (p : Place) : Prop where
  nested : Nested p.groups
  held : p.isSkipping = true → p.held = none

end Place

namespace Reading

variable {σ : Type} {inc : Includer σ} {descent : Descent σ} {r : Reading σ}

structure Regroups (r r' : Reading σ) : Prop where
  held : r'.place.held = r.place.held
  nested : Nested r.place.groups → Nested r'.place.groups

lemma regroups_openGroup (r : Reading σ) (opener : Opener) (args : List Token) :
    r.Regroups (r.openGroup opener args) := by
  cases hs : r.place.isSkipping with
  | true =>
    rw [openGroup_of_skipping hs]
    exact ⟨rfl, fun h => .cons nofun nofun h⟩
  | false =>
    have hplace := place_opens r opener args
    simp only [openGroup, hs, Bool.not_false, if_true]
    constructor
    · exact congrArg (·.held) hplace
    · intro h
      refine .cons (fun _ => rfl) (fun _ => ?_) ?_
      · rw [hplace]
        exact Place.active_of_reading h hs
      · rwa [hplace]

lemma regroups_elif (r : Reading σ) (args : List Token) : r.Regroups (r.elif args) := by
  cases hgs : r.place.groups with
  | nil =>
    have hempty : r.newline.place.groups = [] := hgs
    rw [elif, hempty]
    exact ⟨rfl, id⟩
  | cons g gs =>
    have hgroups : r.newline.place.groups = g :: gs := hgs
    simp only [elif, hgroups]
    have hreported : (if g.seenElse then r.newline.fault "#elif" .elifAfterElse
        else r.newline).place = r.place := by
      split <;> rfl
    generalize (if g.seenElse then r.newline.fault "#elif" .elifAfterElse else r.newline) =
      r' at hreported
    -- the condition is asked only where the group around is read, so the new branch can be active
    -- only there
    have hasked : (if g.parentActive && !g.taken then r'.holds "#elif" args
        else (false, r')).2.place = r.place ∧
        ((if g.parentActive && !g.taken then r'.holds "#elif" args else (false, r')).1 = true →
          g.parentActive = true) := by
      split
      · rename_i hopen
        exact ⟨(place_holds r' "#elif" args).trans hreported, fun _ =>
          (Bool.and_eq_true_iff.mp hopen).1⟩
      · exact ⟨hreported, fun htaken => absurd htaken Bool.false_ne_true⟩
    generalize (if g.parentActive && !g.taken then r'.holds "#elif" args else (false, r')) =
      a at hasked
    obtain ⟨hplace, hactive⟩ := hasked
    refine ⟨congrArg (·.held) hplace, fun h => ?_⟩
    rw [hgs] at h
    exact h.divided rfl hactive

lemma regroups_elseBranch (r : Reading σ) : r.Regroups r.elseBranch := by
  cases hgs : r.place.groups with
  | nil =>
    have hempty : r.newline.place.groups = [] := hgs
    rw [elseBranch, hempty]
    exact ⟨rfl, id⟩
  | cons g gs =>
    have hgroups : r.newline.place.groups = g :: gs := hgs
    simp only [elseBranch, hgroups]
    have hclosed : Nested r.place.groups → Nested ({ g with
        active := g.parentActive && !g.taken, taken := true, seenElse := true } :: gs) := by
      intro h
      rw [hgs] at h
      exact h.divided rfl fun hactive => (Bool.and_eq_true_iff.mp hactive).1
    split
    · exact ⟨rfl, hclosed⟩
    · exact ⟨rfl, hclosed⟩

lemma regroups_endif (r : Reading σ) : r.Regroups r.endif := by
  cases hgs : r.place.groups with
  | nil =>
    have hempty : r.newline.place.groups = [] := hgs
    rw [endif, hempty]
    exact ⟨rfl, id⟩
  | cons g gs =>
    have hgroups : r.newline.place.groups = g :: gs := hgs
    rw [endif, hgroups]
    refine ⟨rfl, fun h => ?_⟩
    rw [hgs] at h
    exact h.tail

lemma regroups_divide (r : Reading σ) (role : Role) : r.Regroups (r.divide role) := by
  cases role with
  | plain => exact ⟨rfl, id⟩
  | opens opener args => exact regroups_openGroup r opener args
  | elif args => exact regroups_elif r args
  | otherwise => exact regroups_elseBranch r
  | endif => exact regroups_endif r

lemma line_of_isInactive (h : r.place.Settled) (hi : r.place.IsInactive) {s : String}
    (hs : Role.ofLine s = .plain) : r.line inc descent s = r.newline := by
  have hskip := Place.isSkipping_of_isInactive h.nested hi
  exact line_of_skipping hs hskip (h.held hskip)

lemma settled_line (h : r.place.Settled) (s : String) :
    (r.line inc descent s).advance.place.Settled := by
  by_cases hs : Role.ofLine s = .plain
  · cases hskip : r.place.isSkipping with
    | true =>
      rw [line_of_skipping hs hskip (h.held hskip)]
      exact ⟨h.nested, h.held⟩
    | false =>
      have hline := ignoresGroups_line inc descent hs
      have hgroups : (r.line inc descent s).advance.place.groups = r.place.groups :=
        hline.groups hskip
      have hreading : (r.line inc descent s).advance.place.isSkipping = false :=
        hline.isSkipping hskip
      refine ⟨hgroups ▸ h.nested, fun hnot => ?_⟩
      rw [hreading] at hnot
      cases hnot
  · rw [line_of_role r hs]
    have hdivide := regroups_divide r.flush (Role.ofLine s)
    refine ⟨hdivide.nested ?_, fun _ => hdivide.held.trans (held_flush r)⟩
    rw [groups_flush]
    exact h.nested

theorem settled_lines (h : r.place.Settled) (ss : List String) :
    (r.lines inc descent ss).place.Settled := by
  induction ss generalizing r with
  | nil => exact h
  | cons s ss ih => exact ih (settled_line h s)

structure DifferUnread (inc : Includer σ) (descent : Descent σ) (r : Reading σ)
    (ss ss' : List String) : Prop where
  length : ss'.length = ss.length
  line : ∀ (i : Nat) (s s' : String), ss[i]? = some s → ss'[i]? = some s' → s = s' ∨
    (r.lines inc descent (ss.take i)).place.IsInactive ∧ Role.ofLine s = .plain ∧
    Role.ofLine s' = .plain

lemma DifferUnread.refl (r : Reading σ) (ss : List String) : DifferUnread inc descent r ss ss :=
  ⟨rfl, fun _ _ _ hs hs' => .inl (Option.some.inj (hs.symm.trans hs'))⟩

lemma DifferUnread.tail {s s' : String} {ss ss' : List String}
    (h : DifferUnread inc descent r (s :: ss) (s' :: ss')) :
    DifferUnread inc descent (r.line inc descent s).advance ss ss' :=
  ⟨Nat.succ.inj h.length, fun i => h.line (i + 1)⟩

lemma DifferUnread.cons {s s' : String} {ss ss' : List String}
    (hline : s = s' ∨ r.place.IsInactive ∧ Role.ofLine s = .plain ∧ Role.ofLine s' = .plain)
    (h : DifferUnread inc descent (r.line inc descent s).advance ss ss') :
    DifferUnread inc descent r (s :: ss) (s' :: ss') := by
  refine ⟨congrArg (· + 1) h.length, fun i => ?_⟩
  cases i with
  | zero =>
    rintro _ _ ⟨⟩ ⟨⟩
    exact hline
  | succ i => exact h.line i

lemma lines_of_differUnread (hr : r.place.Settled) {ss ss' : List String}
    (h : DifferUnread inc descent r ss ss') : r.lines inc descent ss' = r.lines inc descent ss := by
  -- one reading comes of both lines, so that equality is all the induction needs
  induction ss generalizing r ss' with
  | nil => rw [List.length_eq_zero_iff.mp h.length]
  | cons s ss ih =>
    obtain ⟨s', ss', rfl⟩ := List.exists_of_length_succ ss' h.length
    have hline : r.line inc descent s' = r.line inc descent s := by
      rcases h.line 0 s s' rfl rfl with rfl | ⟨hi, hs, hs'⟩
      · rfl
      · rw [line_of_isInactive hr hi hs, line_of_isInactive hr hi hs']
    rw [lines_cons, lines_cons, hline]
    exact ih (settled_line hr s) h.tail

end Reading

theorem lines_of_unread {σ : Type} (inc : Includer σ) (descent : Descent σ) (name : String)
    (depth file : Nat) (run : Run σ) (before : List String) {ss ss' : List String} :
    let r : Reading σ := Reading.lines ⟨{ name, depth, file }, run⟩ inc descent before
    Reading.DifferUnread inc descent r ss ss' →
      r.lines inc descent ss' = r.lines inc descent ss ∧
        ∀ source source', Text.lines (Text.clean source) = before ++ ss →
          Text.lines (Text.clean source') = before ++ ss' →
          run.readUnit inc descent depth ⟨name, source'⟩ file =
            run.readUnit inc descent depth ⟨name, source⟩ file := by
  intro r h
  have hstart : ({ name, depth, file } : Place).Settled := ⟨.nil, fun _ => rfl⟩
  have hlines := Reading.lines_of_differUnread (Reading.settled_lines hstart before) h
  refine ⟨hlines, fun source source' hs hs' => ?_⟩
  rw [Run.readUnit, hs', Run.readUnit, hs, Reading.lines_append, Reading.lines_append]
  exact congrArg (·.close.run) hlines

def unreadGroup (first second : String) : List String :=
  ["#if 0", "#ifdef A", first, "#else", second, "#endif", "#endif"]

theorem lines_of_unread_of_group :
    let r : Reading Unit := ⟨{ name := "t", depth := 0, file := 0 }, .start .default false ()⟩
    let ss := unreadGroup "#include \"a\"" "#version 100"
    let ss' := unreadGroup "#error a" "f("
    Reading.DifferUnread Includer.null none r ss ss' ∧
      r.lines Includer.null none ss' = r.lines Includer.null none ss := by
  intro r ss ss'
  let outer : Group := ⟨.condition, 1, true, false, false, false⟩
  have hfirst : (r.lines Includer.null none (ss.take 2)).place.groups =
      [⟨.defined, 2, false, false, false, false⟩, outer] := by cbv
  have hsecond : (r.lines Includer.null none (ss.take 4)).place.groups =
      [⟨.defined, 2, false, true, false, true⟩, outer] := by cbv
  have hinclude : Role.ofLine "#include \"a\"" = .plain := by cbv
  have herror : Role.ofLine "#error a" = .plain := by cbv
  have hversion : Role.ofLine "#version 100" = .plain := by cbv
  have hcall : Role.ofLine "f(" = .plain := by cbv
  have h : Reading.DifferUnread Includer.null none r ss ss' := by
    refine .cons (.inl rfl) (.cons (.inl rfl)
      (.cons ?_ (.cons (.inl rfl) (.cons ?_ (.refl _ ["#endif", "#endif"])))))
    · exact .inr ⟨⟨outer, hfirst ▸ List.mem_cons_of_mem _ List.mem_cons_self, rfl⟩,
        hinclude, herror⟩
    · exact .inr ⟨⟨outer, hsecond ▸ List.mem_cons_of_mem _ List.mem_cons_self, rfl⟩,
        hversion, hcall⟩
  exact ⟨h, (lines_of_unread Includer.null none "t" 0 0 (.start .default false ()) [] h).1⟩

end ShaderPipeline.Preprocess
