import Mathlib.Tactic.Lemma
import ShaderPipeline.CommandLine.Options
import ShaderPipeline.Proofs.Text.Strip

/-! Which faults of a command line are reported, where its parser has no objection. -/

namespace ShaderPipeline.CommandLine

variable {m : Matches Flag} {features : List String} {feature name : String} {e : UsageError}

inductive Selects (m : Matches Flag) : String → Prop
  | own {name : String} : m.value? .shaderStage = some name → Selects m name
  | feature {before : List String} {feature name : String} : m.value? .shaderStage = none →
      m.values .feature = before ++ [feature] →
      feature.toList = "shader-stage=".toList ++ name.toList → Selects m name

inductive Fault (m : Matches Flag) : UsageError → Prop
  | output {path : String} : 1 < m.free.length → m.value? .output = some path → path ≠ "-" →
      Fault m .outputWithManyInputs
  | feature {before : List String} {feature : String} : m.value? .shaderStage = none →
      m.values .feature = before ++ [feature] → ¬ "shader-stage=".toList <+: feature.toList →
      Fault m (.unknownFeature feature)
  | stage {name : String} :
      Selects m name → Stage.ofName? name = none → Fault m (.unknownStage name)
  | version {text : String} : m.value? .standard = some text → Version.ofText? text = none →
      Fault m (.badVersion text)
  | warning {warning : String} :
      warning ∈ m.values .warning → warning ≠ "error" → Fault m (.unknownWarning warning)

lemma stageFeature_of_name (h : feature.toList = "shader-stage=".toList ++ name.toList) :
    stageFeature feature = .ok name := by
  rw [stageFeature, h, Text.afterPrefix_append]
  exact congrArg Except.ok String.ofList_toList

lemma stageFeature_of_unknown (h : ¬ "shader-stage=".toList <+: feature.toList) :
    stageFeature feature = .error (.unknownFeature feature) := by
  rw [stageFeature, Text.afterPrefix_eq_none h]

lemma stageName_own (features : List String) (name : String) :
    stageName? features (some name) = .ok (some name) := by
  simp [stageName?]

lemma stageName_append (before : List String) (feature : String) :
    stageName? (before ++ [feature]) none = (stageFeature feature).map some := by
  simp only [stageName?, List.map_append, List.map_singleton, Option.map_none, Option.toList_none,
    List.append_nil, List.getLast?_concat]
  cases stageFeature feature <;> rfl

lemma stageName_of_selects (h : Selects m name) :
    stageName? (m.values .feature) (m.value? .shaderStage) = .ok (some name) := by
  cases h with
  | own hown => rw [hown, stageName_own]
  | feature hown hlast hfeature =>
    rw [hown, hlast, stageName_append, stageFeature_of_name hfeature]
    rfl

lemma stage_of_selects (h : Selects m name) (hstage : Stage.ofName? name = none) :
    stage? (m.values .feature) (m.value? .shaderStage) = .error (.unknownStage name) := by
  simp only [stage?, stageName_of_selects h, hstage]

lemma stage_of_unknown {before : List String} (hown : m.value? .shaderStage = none)
    (hlast : m.values .feature = before ++ [feature])
    (h : ¬ "shader-stage=".toList <+: feature.toList) :
    stage? (m.values .feature) (m.value? .shaderStage) = .error (.unknownFeature feature) := by
  rw [stage?, hown, hlast, stageName_append, stageFeature_of_unknown h]
  rfl

lemma fault_of_selects (hname : Selects m name)
    (h : stage? (m.values .feature) (m.value? .shaderStage) = .error e) : Fault m e := by
  cases hstage : Stage.ofName? name with
  | some stage => simp [stage?, stageName_of_selects hname, hstage] at h
  | none =>
    obtain rfl : .unknownStage name = e :=
      Except.error.inj ((stage_of_selects hname hstage).symm.trans h)
    exact .stage hname hstage

lemma fault_of_stage (h : stage? (m.values .feature) (m.value? .shaderStage) = .error e) :
    Fault m e := by
  cases hown : m.value? .shaderStage with
  | some name => exact fault_of_selects (.own hown) h
  | none =>
    rcases List.eq_nil_or_concat' (m.values .feature) with hnil | ⟨before, feature, hlast⟩
    · rw [hown, hnil] at h
      cases h
    by_cases hfeature : "shader-stage=".toList <+: feature.toList
    · obtain ⟨cs, hcs⟩ := hfeature
      have hname : feature.toList = "shader-stage=".toList ++ (String.ofList cs).toList :=
        hcs.symm.trans (congrArg ("shader-stage=".toList ++ ·) String.toList_ofList.symm)
      exact fault_of_selects (.feature hown hlast hname) h
    · obtain rfl : .unknownFeature feature = e :=
        Except.error.inj ((stage_of_unknown hown hlast hfeature).symm.trans h)
      exact .feature hown hlast hfeature

lemma fault_of_version (h : version? (m.value? .standard) = .error e) : Fault m e := by
  cases htext : m.value? .standard with
  | none =>
    rw [htext] at h
    cases h
  | some text =>
    rw [htext, version?] at h
    cases hversion : Version.ofText? text with
    | some v =>
      rw [hversion] at h
      cases h
    | none =>
      rw [hversion] at h
      obtain rfl : .badVersion text = e := Except.error.inj h
      exact .version htext hversion

lemma fault_of_warnings (h : checkWarnings (m.values .warning) = .error e) : Fault m e := by
  rw [checkWarnings] at h
  cases hfirst : (m.values .warning).find? (· ≠ "error") with
  | none =>
    rw [hfirst] at h
    cases h
  | some w =>
    rw [hfirst] at h
    obtain rfl : .unknownWarning w = e := Except.error.inj h
    exact .warning (List.mem_of_find?_eq_some hfirst) (by simpa using List.find?_some hfirst)

lemma error_bind {α β : Type} {x : Except UsageError α} {f : α → Except UsageError β}
    (h : ∀ a, x = .ok a → ∃ e, f a = .error e) : ∃ e, x >>= f = .error e := by
  cases x with
  | error e => exact ⟨e, rfl⟩
  | ok a => exact h a rfl

lemma warnings_of_ok {warnings : List String} (h : checkWarnings warnings = .ok ()) :
    ∀ w ∈ warnings, w = "error" := by
  rw [checkWarnings] at h
  cases hfirst : warnings.find? (· ≠ "error") with
  | none => simpa using hfirst
  | some w =>
    rw [hfirst] at h
    cases h

section

variable (hhelp : m.has .help = false) (hfree : m.free ≠ [])
include hhelp hfree

lemma commandOf_eq : commandOf m =
    (if 1 < m.free.length ∧ (m.value? .output).any (· ≠ "-") then .error .outputWithManyInputs
    else do
      let stage ← stage? (m.values .feature) (m.value? .shaderStage)
      let forced ← version? (m.value? .standard)
      checkWarnings (m.values .warning)
      .ok (.compile ⟨m.free, m.value? .output, stage, m.values .includeDir,
        optionsOf m forced⟩)) := by
  rw [commandOf, hhelp, List.isEmpty_eq_false_iff.mpr hfree]
  rfl

lemma fault_of_error (h : commandOf m = .error e) : Fault m e := by
  rw [commandOf_eq hhelp hfree] at h
  split_ifs at h with houtput
  · obtain ⟨path, hpath, hdash⟩ := Option.any_eq_true _ _ |>.mp houtput.2
    obtain rfl : .outputWithManyInputs = e := Except.error.inj h
    exact .output houtput.1 hpath (by simpa using hdash)
  cases hstage : stage? (m.values .feature) (m.value? .shaderStage) with
  | error e' =>
    rw [hstage] at h
    obtain rfl : e' = e := Except.error.inj h
    exact fault_of_stage hstage
  | ok stage =>
    cases hforced : version? (m.value? .standard) with
    | error e' =>
      rw [hstage, hforced] at h
      obtain rfl : e' = e := Except.error.inj h
      exact fault_of_version hforced
    | ok forced =>
      cases hwarnings : checkWarnings (m.values .warning) with
      | error e' =>
        rw [hstage, hforced, hwarnings] at h
        obtain rfl : e' = e := Except.error.inj h
        exact fault_of_warnings hwarnings
      | ok =>
        rw [hstage, hforced, hwarnings] at h
        cases h

lemma error_of_fault (h : Fault m e) : ∃ e', commandOf m = .error e' := by
  rw [commandOf_eq hhelp hfree]
  split_ifs with houtput
  · exact ⟨_, rfl⟩
  cases h with
  | output hmany hpath hdash => exact absurd ⟨hmany, by simp [hpath, hdash]⟩ houtput
  | feature hown hlast hfeature =>
    refine error_bind fun stage hstage => ?_
    cases (stage_of_unknown hown hlast hfeature).symm.trans hstage
  | stage hname hunknown =>
    refine error_bind fun stage hstage => ?_
    cases (stage_of_selects hname hunknown).symm.trans hstage
  | version htext hversion =>
    refine error_bind fun stage _ => error_bind fun forced hforced => ?_
    simp [htext, version?, hversion] at hforced
  | warning hmem hw =>
    refine error_bind fun stage _ => error_bind fun forced _ => error_bind fun _ hwarnings => ?_
    exact absurd (warnings_of_ok hwarnings _ hmem) hw

end

lemma fault_unknownFeature_iff : Fault m (.unknownFeature feature) ↔ m.value? .shaderStage = none ∧
    (m.values .feature).getLast? = some feature ∧ ¬ "shader-stage=".toList <+: feature.toList := by
  constructor
  · rintro (_ | ⟨hown, hlast, hfeature⟩)
    exact ⟨hown, by rw [hlast, List.getLast?_concat], hfeature⟩
  · rintro ⟨hown, hlast, hfeature⟩
    exact .feature hown (List.dropLast_append_getLast? _ hlast).symm hfeature

/-- A line with an input and no request for help is rejected if and only if it has a fault, whatever
parser has read it. An unknown feature is one only where it is the last feature and no stage is
named by the option for it. -/
theorem rejected_iff {parser : List String → Except GrammarError (Matches Flag)}
    {args : List String} (hparse : parser args = .ok m) (hfree : m.free ≠ [])
    (hhelp : m.has .help = false) :
    ((∃ e, parseBy parser args = .error e) ↔ ∃ e, Fault m e) ∧
    (∀ e, parseBy parser args = .error e → Fault m e) ∧
    (∀ warning ∈ m.values .warning, warning ≠ "error" → ∃ e, parseBy parser args = .error e) ∧
    ∀ feature ∈ m.values .feature, ¬ "shader-stage=".toList <+: feature.toList →
      (∀ e, Fault m e → e = .unknownFeature feature) →
        ((∃ e, parseBy parser args = .error e) ↔
          m.value? .shaderStage = none ∧ (m.values .feature).getLast? = some feature) := by
  have hcommand : parseBy parser args = commandOf m := by rw [parseBy, hparse]
  have hfaults : (∃ e, commandOf m = .error e) ↔ ∃ e, Fault m e :=
    ⟨fun ⟨e, he⟩ => ⟨e, fault_of_error hhelp hfree he⟩,
      fun ⟨_, he⟩ => error_of_fault hhelp hfree he⟩
  rw [hcommand]
  refine ⟨hfaults, fun e => fault_of_error hhelp hfree, fun w hmem hw => ?_,
    fun f _ hf hothers => ?_⟩
  · exact error_of_fault hhelp hfree (.warning hmem hw)
  rw [hfaults]
  constructor
  · rintro ⟨e, he⟩
    obtain rfl := hothers e he
    obtain ⟨hown, hlast, -⟩ := fault_unknownFeature_iff.mp he
    exact ⟨hown, hlast⟩
  · rintro ⟨hown, hlast⟩
    exact ⟨_, fault_unknownFeature_iff.mpr ⟨hown, hlast, hf⟩⟩

theorem rejected_of_last_feature :
    ∃ e, parse ["-fshader-stage=vertex", "-fno-fast-math", "-Werror", "a.vert"] = .error e := by
  have hparse : grammar.parse ["-fshader-stage=vertex", "-fno-fast-math", "-Werror", "a.vert"] = .ok
      { given := [(.feature, some "shader-stage=vertex"), (.feature, some "no-fast-math"),
        (.warning, some "error")]
        free := ["a.vert"] } := by decide
  obtain ⟨hrejected, -⟩ := rejected_iff hparse (by decide) (by decide)
  exact hrejected.mpr ⟨.unknownFeature "no-fast-math",
    fault_unknownFeature_iff.mpr ⟨by decide, by decide, by decide⟩⟩

theorem hidden_feature_accepted : ∃ m command,
    grammar.parse ["-E", "-fno-fast-math", "-fshader-stage=vertex", "a.vert"] = .ok m ∧
    m.free ≠ [] ∧ m.has .help = false ∧ "no-fast-math" ∈ m.values .feature ∧
    ¬ "shader-stage=".toList <+: "no-fast-math".toList ∧
    parse ["-E", "-fno-fast-math", "-fshader-stage=vertex", "a.vert"] = .ok command :=
  ⟨_, _, rfl, by decide, by decide, by decide, by decide, rfl⟩

end ShaderPipeline.CommandLine
