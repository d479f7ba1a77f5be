import ShaderPipeline.CommandLine.Matches
import ShaderPipeline.Compile.Options
import ShaderPipeline.Stage

namespace ShaderPipeline.CommandLine

inductive Flag
  | output
  | preprocessOnly
  | disassembly
  | compileOnly
  | define
  | includeDir
  | feature
  | shaderStage
  | standard
  | noWarnings
  | warning
  | debugInfo
  | help
  deriving DecidableEq, Repr

inductive UsageError
  | grammar (e : GrammarError)
  | unknownStage (name : String)
  | badVersion (text : String)
  | unknownFeature (feature : String)
  | unknownWarning (warning : String)
  | outputWithManyInputs
  deriving DecidableEq, Repr

def UsageError.message : UsageError → String
  | .grammar e => e.message
  | .unknownStage name => Stage.unknownMessage name
  | .badVersion text => Version.invalidMessage text
  | .unknownFeature feature => s!"unknown feature: -f{feature}"
  | .unknownWarning warning => s!"unknown warning option: -W{warning}"
  | .outputWithManyInputs => "cannot specify -o with multiple inputs"

structure Invocation where
  inputs : List String
  output : Option String
  stage : Option Stage
  includeDirs : List String
  options : CompilerOptions

inductive Command
  | compile (invocation : Invocation)
  | help

def definition (s : String) : String × String :=
  match Text.splitAt? '=' s.toList with
  | some (name, value) => (.ofList name, .ofList value)
  | none => (s, "")

def definitions (ss : List String) : Definitions :=
  .ofList (ss.map definition)

def stageFeature (feature : String) : Except UsageError String :=
  match Text.afterPrefix? "shader-stage=".toList feature.toList with
  | some name => .ok (.ofList name)
  | none => .error (.unknownFeature feature)

/-- The stage named last, where the option of its own counts as the last. -/
def stageName? (features : List String) (own : Option String) : Except UsageError (Option String) :=
  match (features.map stageFeature ++ (own.map Except.ok).toList).getLast? with
  | none => .ok none
  | some (.ok name) => .ok (some name)
  | some (.error e) => .error e

def stage? (features : List String) (own : Option String) : Except UsageError (Option Stage) :=
  match stageName? features own with
  | .error e => .error e
  | .ok none => .ok none
  | .ok (some name) =>
    match Stage.ofName? name with
    | some stage => .ok (some stage)
    | none => .error (.unknownStage name)

def version? : Option String → Except UsageError (Option Version)
  | none => .ok none
  | some text =>
    match Version.ofText? text with
    | some v => .ok (some v)
    | none => .error (.badVersion text)

def checkWarnings (warnings : List String) : Except UsageError Unit :=
  match warnings.find? (· ≠ "error") with
  | some w => .error (.unknownWarning w)
  | none => .ok ()

def optionsOf (m : Matches Flag) (forced : Option Version) : CompilerOptions :=
  { definitions := definitions (m.values .define)
    version := forced.getD .default
    versionForced := forced.isSome
    disassemble := m.has .disassembly
    preprocessOnly := m.has .preprocessOnly
    warningsAsErrors := m.has .warning
    suppressWarnings := m.has .noWarnings
    debugInfo := m.has .debugInfo }

def commandOf (m : Matches Flag) : Except UsageError Command :=
  if m.has .help then .ok .help
  else if m.free.isEmpty then .error (.grammar (.missingOption "INPUT"))
  else if 1 < m.free.length ∧ (m.value? .output).any (· ≠ "-") then .error .outputWithManyInputs
  else do
    let stage ← stage? (m.values .feature) (m.value? .shaderStage)
    let forced ← version? (m.value? .standard)
    checkWarnings (m.values .warning)
    .ok (.compile ⟨m.free, m.value? .output, stage, m.values .includeDir, optionsOf m forced⟩)

def parseBy (parser : List String → Except GrammarError (Matches Flag)) (args : List String) :
    Except UsageError Command :=
  match parser args with
  | .error e => .error (.grammar e)
  | .ok m => commandOf m

end ShaderPipeline.CommandLine
