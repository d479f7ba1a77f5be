import ShaderPipeline.Toolchain
import ShaderPipeline.Toolchain.Host
import ShaderPipeline.Words
/-! The validator runs once to parse a source and again to link it, each time into a file of its
own. -/

namespace ShaderPipeline

structure AcceptedSource where
  args : List String
  source : String
  deriving DecidableEq, Repr

structure ExternalToolchain where
  host : ToolHost
  includeDirs : List String := []
  outputs : Nat := 0

namespace ExternalToolchain

def addIncludeDir (t : ExternalToolchain) (dir : String) : ExternalToolchain :=
  { t with includeDirs := t.includeDirs ++ [dir] }

def header : String := "stdin"

def logOf (r : ToolResponse) : String :=
  String.join <| (Text.linesWithEnds (Utf8.decodeLossy r.stdout ++
    Utf8.decodeLossy r.stderr)).filter
    fun line => Text.strip line ≠ header

def parseArgs (t : ExternalToolchain) (request : ParseRequest) : List String :=
  ["--stdin", "-S", request.stage.fileExtension, "--preamble-text", request.preamble] ++
    t.includeDirs.map ("-I" ++ ·) ++ if request.debugInfo then ["-g"] else []

def run (t : ExternalToolchain) (tool : Tool) (args : List String) (input : Bytes) :
    Except ToolchainError ToolResponse × ExternalToolchain :=
  match t.host.run tool args input with
  | (.ok r, host) => (r.fault.elim (.ok r) fun e => .error (.io tool.name e), { t with host })
  | (.error reason, host) => (.error (.unavailable tool.name reason), { t with host })

def acquire (t : ExternalToolchain) : Except ToolchainError Unit × ExternalToolchain :=
  match t.host.locate .validator with
  | .ok () => (.ok (), t)
  | .error reason => (.error (.unavailable Tool.validator.name reason), t)

def release (t : ExternalToolchain) : ExternalToolchain :=
  { t with host := t.host.removeScratch }

def failedWith (r : ToolResponse) : ToolchainError :=
  .failed Tool.validator.name r.status (logOf r)

def parse (t : ExternalToolchain) (request : ParseRequest) :
    Except ToolchainError (WithLog AcceptedSource) × ExternalToolchain :=
  let args := t.parseArgs request
  match t.run .validator args (Utf8.encode request.source) with
  | (.error e, t) => (.error e, t)
  | (.ok r, t) =>
    match r.status with
    | some 0 => (.ok ⟨some ⟨args, request.source⟩, logOf r⟩, t)
    | some 2 => (.ok ⟨none, logOf r⟩, t)
    | _ => (.error (failedWith r), t)

def outputFile (t : ExternalToolchain) (number : Nat) : String :=
  s!"{t.host.scratchPath}/{number}.spv"

def readOutput (t : ExternalToolchain) (path : String) : Except ToolchainError (List UInt32) :=
  match t.host.readScratch path with
  | .error e => .error (.io Tool.validator.name e)
  | .ok bytes =>
    match Words.decode? bytes with
    | some words => .ok words
    | none =>
      .error (.codeGeneration s!"output of {bytes.length} bytes is not a whole number of words")

def linkOutcome (t : ExternalToolchain) (path : String) (r : ToolResponse) :
    Except ToolchainError (WithLog (List UInt32)) :=
  match r.status with
  | some 0 => (t.readOutput path).map fun words => ⟨some words, logOf r⟩
  | some 2 | some 3 => .ok ⟨none, logOf r⟩
  | _ => .error (failedWith r)

def linkTo (t : ExternalToolchain) (unit : AcceptedSource) (path : String) :
    Except ToolchainError (WithLog (List UInt32)) × ExternalToolchain :=
  match t.run .validator (unit.args ++ ["-V", "-o", path]) (Utf8.encode unit.source) with
  | (.error e, t) => (.error e, t)
  | (.ok r, t) => (t.linkOutcome path r, t)

def link (t : ExternalToolchain) (unit : AcceptedSource) :
    Except ToolchainError (WithLog (List UInt32)) × ExternalToolchain :=
  let t := { t with outputs := t.outputs + 1 }
  match t.host.openScratch with
  | .error e => (.error (.io Tool.validator.name e), t)
  | .ok host => { t with host }.linkTo unit (t.outputFile t.outputs)

def generate (words : List UInt32) (stage : Stage) : Except ToolchainError (List UInt32) :=
  if words.isEmpty then .error (.codeGeneration s!"no binary was produced for the {stage} stage")
  else .ok words

def disassemble (t : ExternalToolchain) (words : List UInt32) :
    Except ToolchainError String × ExternalToolchain :=
  match t.run .disassembler ["-"] (Words.encode words) with
  | (.error e, t) => (.error e, t)
  | (.ok r, t) =>
    if r.status = some 0 then
      match Utf8.decode r.stdout with
      | .ok text => (.ok text, t)
      | .error (index, defect) => (.error (.disassembly (defect.message index)), t)
    else (.error (.disassembly (Utf8.decodeLossy r.stderr)), t)

end ExternalToolchain

end ShaderPipeline
