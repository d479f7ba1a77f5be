import ShaderPipeline.Compile.Options
import ShaderPipeline.Compile.Services
import ShaderPipeline.Diagnostic.Report
import ShaderPipeline.Preamble.Removal
import ShaderPipeline.Stage.Pragma
import ShaderPipeline.Words
/-! Compilation of a source. A toolchain that was acquired is released whatever happens. -/

namespace ShaderPipeline

inductive Phase
  | start
  | preprocessed
  | stageResolved
  | parsed
  | linked
  | codeGenerated
  | disassembled
  | done
  deriving DecidableEq, Repr

namespace Phase

def label : Phase → String
  | .start => "start"
  | .preprocessed => "preprocessed"
  | .stageResolved => "stage resolved"
  | .parsed => "parsed"
  | .linked => "linked"
  | .codeGenerated => "code generated"
  | .disassembled => "disassembled"
  | .done => "done"

def index : Phase → Nat
  | .start => 0
  | .preprocessed => 1
  | .stageResolved => 2
  | .parsed => 3
  | .linked => 4
  | .codeGenerated => 5
  | .disassembled => 6
  | .done => 7

end Phase

inductive CompileError
  | preprocess (tag : String)
  | preamble (e : Preamble.MissingAnchor)
  | stage (e : StageError)
  | unresolvedStage (tag : String)
  | parse (tag : String)
  | link (tag : String)
  | toolchain (e : ToolchainError)
  | io (e : SystemError)
  deriving DecidableEq, Repr

namespace CompileError

def message : CompileError → String
  | .preprocess tag => s!"failed to preprocess {tag}"
  | .preamble e => e.message
  | .stage e => e.message
  | .unresolvedStage tag => s!"unable to determine the shader stage of {tag}"
  | .parse tag => s!"failed to parse {tag}"
  | .link tag => s!"failed to link {tag}"
  | .toolchain e => e.message
  | .io e => e.message

def describe : CompileError → List Message
  | .preamble e => e.describe
  | .stage e => e.describe
  | .toolchain e => e.describe
  | .unresolvedStage tag =>
    [.global .error tag "unable to determine the shader stage",
      .global .note tag "declare it with '#pragma shader_stage(<stage>)'"]
  | _ => []

def causes : CompileError → List String
  | .preamble e => [e.message]
  | .stage e => [e.message]
  | .toolchain (.io tool e) => [(ToolchainError.io tool e).message, e.message]
  | .toolchain e => [e.message]
  | .io e => [e.message]
  | _ => []

end CompileError

structure CompileFailure where
  tag : String
  phase : Phase
  error : CompileError
  diagnostics : Diagnostics
  deriving DecidableEq, Repr

namespace CompileFailure

def describe (f : CompileFailure) : List Message :=
  let messages := f.diagnostics.messages ++ f.error.describe
  if messages.any (·.isError) then messages else messages ++ [.global .error f.tag f.error.message]

def report (f : CompileFailure) : Report := ⟨f.error.message, f.describe⟩

end CompileFailure

inductive Output
  | binary (words : List UInt32)
  | disassembly (text : String)
  | preprocessed (text : String)
  deriving DecidableEq, Repr

def Output.chunks : Output → List Bytes
  | .binary words => words.map Words.bytesOfWord
  | .disassembly text => [Utf8.encode text]
  | .preprocessed text => [Utf8.encode text]

def Output.bytes (o : Output) : Bytes := o.chunks.flatten

structure Compiled where
  stage : Option Stage
  output : Output
  diagnostics : Diagnostics
  deriving DecidableEq, Repr

structure ShaderSource where
  tag : String
  source : String
  deriving DecidableEq, Repr

namespace Compile

variable {ω υ π : Type}

structure Prepared where
  text : String
  nextLine : Bool
  diagnostics : Diagnostics
  deriving DecidableEq, Repr

def preprocessRequest (o : CompilerOptions) (shader : ShaderSource) : Preprocess.Request :=
  ⟨shader.tag, shader.source, Preamble.text o.definitions, o.version, o.versionForced⟩

def parseRequest (o : CompilerOptions) (shader : ShaderSource) (stage : Stage) : ParseRequest :=
  { tag := shader.tag, source := shader.source, preamble := Preamble.text o.definitions, stage,
    version :=
  o.version, forced := o.versionForced, forwardCompatible := false, debugInfo := o.debugInfo }

def prepare (s : Services ω υ π) (o : CompilerOptions) (shader : ShaderSource) (w : ω) :
    Except CompileFailure Prepared × ω :=
  let (result, w) := s.preprocess (preprocessRequest o shader) w
  let (ok, d) := Log.filter shader.tag o.preprocessPolicy result.log
  if result.success && ok then
    let nextLine := (Version.effective result.text o.version o.versionForced).numbersNextLine
    match Preamble.remove result.text shader.tag Preamble.endLine (s.includeCount w) nextLine with
    | .ok text => (.ok ⟨text, nextLine, d⟩, w)
    | .error e => (.error ⟨shader.tag, .start, .preamble e, d⟩, w)
  else (.error ⟨shader.tag, .start, .preprocess shader.tag, d⟩, w)

def accept {α : Type} (o : CompilerOptions) (tag : String) (d : Diagnostics) (r : WithLog α) :
    Option α × Diagnostics :=
  let (ok, filtered) := Log.filter tag o.warningPolicy r.log
  (if ok then r.output else none, d.extend filtered)

def runStages (s : Services ω υ π) (o : CompilerOptions) (shader : ShaderSource) (stage : Stage)
    (d : Diagnostics) (w : ω) : Except CompileFailure Compiled × ω :=
  match s.parse (parseRequest o shader stage) w with
  | (.error e, w) => (.error ⟨shader.tag, .stageResolved, .toolchain e, d⟩, w)
  | (.ok parsed, w) =>
    match accept o shader.tag d parsed with
    | (none, d) => (.error ⟨shader.tag, .stageResolved, .parse shader.tag, d⟩, w)
    | (some parsed, d) =>
      match s.link parsed w with
      | (.error e, w) => (.error ⟨shader.tag, .parsed, .toolchain e, d⟩, w)
      | (.ok linked, w) =>
        match accept o shader.tag d linked with
        | (none, d) => (.error ⟨shader.tag, .parsed, .link shader.tag, d⟩, w)
        | (some program, d) =>
          match s.generate program stage w with
          | (.error e, w) => (.error ⟨shader.tag, .linked, .toolchain e, d⟩, w)
          | (.ok words, w) =>
            if o.mode = .disassembly then
              match s.disassemble words w with
              | (.error e, w) => (.error ⟨shader.tag, .codeGenerated, .toolchain e, d⟩, w)
              | (.ok text, w) => (.ok ⟨some stage, .disassembly text, d⟩, w)
            else (.ok ⟨some stage, .binary words, d⟩, w)

def build (s : Services ω υ π) (o : CompilerOptions) (shader : ShaderSource) (stage : Stage)
    (d : Diagnostics) (w : ω) : Except CompileFailure Compiled × ω :=
  match s.acquire w with
  | (.error e, w) => (.error ⟨shader.tag, .stageResolved, .toolchain e, d⟩, w)
  | (.ok (), w) =>
    let (result, w) := runStages s o shader stage d w
    (result, s.release w)

def resolveStage (shader : ShaderSource) (fallback : String → ω → Option Stage × ω)
    (p : Prepared) (w : ω) : Except CompileFailure Stage × ω :=
  match Stage.declared p.text shader.tag p.nextLine with
  | .error e => (.error ⟨shader.tag, .preprocessed, .stage e, p.diagnostics⟩, w)
  | .ok (some stage) => (.ok stage, w)
  | .ok none =>
    match fallback shader.tag w with
    | (some stage, w) => (.ok stage, w)
    | (none, w) =>
      (.error ⟨shader.tag, .preprocessed, .unresolvedStage shader.tag, p.diagnostics⟩, w)

def compile (s : Services ω υ π) (o : CompilerOptions) (shader : ShaderSource)
    (stage : Option Stage) (fallback : String → ω → Option Stage × ω) (w : ω) :
    Except CompileFailure Compiled × ω :=
  let w := s.resetIncludes w
  match o.mode, stage with
  | .preprocessOnly, _ =>
    match prepare s o shader w with
    | (.error f, w) => (.error f, w)
    | (.ok p, w) => (.ok ⟨none, .preprocessed p.text, p.diagnostics⟩, w)
  | _, some stage => build s o shader stage {} w
  | _, none =>
    match prepare s o shader w with
    | (.error f, w) => (.error f, w)
    | (.ok p, w) =>
      match resolveStage shader fallback p w with
      | (.error f, w) => (.error f, w)
      | (.ok stage, w) => build s o shader stage p.diagnostics w

end Compile

/-- A place for bytes. A bounded one takes no more than `room` further bytes and then fails. -/
structure Sink where
  accepted : Bytes := []
  room : Option Nat := none
  refusal : SystemError := .brokenPipe
  deriving DecidableEq, Repr

namespace Sink

def write (k : Sink) (bs : Bytes) : Except SystemError Unit × Sink :=
  match k.room with
  | none => (.ok (), { k with accepted := k.accepted ++ bs })
  | some n =>
    (if bs.length ≤ n then .ok () else .error k.refusal,
      { k with accepted := k.accepted ++ bs.take n, room := some (n - bs.length) })

def writeAll (k : Sink) : List Bytes → Except SystemError Unit × Sink
  | [] => (.ok (), k)
  | bs :: rest =>
    match k.write bs with
    | (.error e, k) => (.error e, k)
    | (.ok (), k) => k.writeAll rest

end Sink

namespace Compile

variable {ω υ π : Type}

def compileTo (s : Services ω υ π) (o : CompilerOptions) (shader : ShaderSource)
    (stage : Option Stage) (fallback : String → ω → Option Stage × ω) (sink : Sink) (w : ω) :
    Except CompileFailure Compiled × Sink × ω :=
  match compile s o shader stage fallback w with
  | (.error f, w) => (.error f, sink, w)
  | (.ok outcome, w) =>
    match sink.writeAll outcome.output.chunks with
    | (.ok (), sink) => (.ok outcome, sink, w)
    | (.error e, sink) => (.error ⟨shader.tag, .done, .io e, outcome.diagnostics⟩, sink, w)

end Compile

end ShaderPipeline
