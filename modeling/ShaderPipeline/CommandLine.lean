import ShaderPipeline.CommandLine.Options
import ShaderPipeline.Compile
import ShaderPipeline.FileSystem
import ShaderPipeline.Toolchain.External
/-! Every input is attempted, one after the other, and the exit status is that of the last one that
failed. -/

namespace ShaderPipeline.CommandLine

inductive ExitCode
  | ok
  | usage
  | dataError
  | noInput
  | unavailable
  | ioError
  deriving DecidableEq, Repr

def ExitCode.code : ExitCode → UInt8
  | .ok => 0
  | .usage => 64
  | .dataError => 65
  | .noInput => 66
  | .unavailable => 69
  | .ioError => 74

def ExitCode.ofError : CompileError → ExitCode
  | .toolchain (.unavailable ..) => .unavailable
  | .toolchain (.io ..) | .io _ => .ioError
  | _ => .dataError

structure World (φ : Type) where
  files : φ
  stdin : Bytes := []
  stdout : Bytes := []
  /-- How many further bytes of outputs the standard output takes, if not all, and why it refuses
  the others. -/
  room : Option Nat := none
  refusal : SystemError := .brokenPipe
  stderr : Bytes := []
  host : ToolHost

namespace World

variable {φ : Type}

def put (w : World φ) (stream : StandardStream) (bytes : Bytes) : World φ :=
  match stream with
  | .input => { w with stdin := w.stdin ++ bytes }
  | .output => { w with stdout := w.stdout ++ bytes }
  | .errors => { w with stderr := w.stderr ++ bytes }

def deliver (w : World φ) (pieces : List Bytes) : Except SystemError Unit × World φ :=
  let (r, sink) := (Sink.mk w.stdout w.room w.refusal).writeAll pieces
  (r, { w with stdout := sink.accepted, room := sink.room })

def print (w : World φ) (s : String) : World φ := w.put .output (Utf8.encode s)
def complain (w : World φ) (s : String) : World φ := w.put .errors (Utf8.encode s)

def readsStdin (fs : FileSystem φ) (w : World φ) (path : String) : Bool :=
  fs.stream? w.files path = some .input

def readText (fs : FileSystem φ) (w : World φ) (path : String) : Except SystemError String :=
  if w.readsStdin fs path then decodeFile (.ok w.stdin) else fs.readText w.files path

def afterReading (fs : FileSystem φ) (w : World φ) (path : String) : World φ :=
  if w.readsStdin fs path then { w with stdin := [] } else w

def includer (fs : FileSystem φ) (searchPaths : List String) : Includer (World φ × Nat) where
  resolve s request :=
    let (r, search) := FileSearch.resolve ⟨s.1.readText fs, searchPaths, s.2⟩ request
    (r, (Includer.pathRead? r).elim s.1 (s.1.afterReading fs), search.resolved)
  count s := s.2
  reset s := (s.1, 0)

def writePath (fs : FileSystem φ) (w : World φ) (path : String) (pieces : List Bytes) :
    Except SystemError Unit × World φ :=
  match fs.stream? w.files path with
  | some .output => w.deliver pieces
  | some stream => (.ok (), w.put stream pieces.flatten)
  | none =>
    let (r, files) := fs.write w.files path pieces.flatten
    (r, { w with files })

end World

def services {σ : Type} (inc : Includer σ) :
    Services (σ × ExternalToolchain) AcceptedSource (List UInt32) where
  preprocess request w :=
    let (result, s) := Preprocess.preprocess inc request w.1
    (result, s, w.2)
  includeCount w := inc.count w.1
  resetIncludes w := (inc.reset w.1, w.2)
  acquire w :=
    let (r, t) := w.2.acquire
    (r, w.1, t)
  parse request w :=
    let (r, t) := w.2.parse request
    (r, w.1, t)
  link unit w :=
    let (r, t) := w.2.link unit
    (r, w.1, t)
  generate program stage w := (ExternalToolchain.generate program stage, w)
  release w := (w.1, w.2.release)
  disassemble words w :=
    let (r, t) := w.2.disassemble words
    (r, w.1, t)

structure Session (φ : Type) where
  world : World φ
  resolved : Nat := 0
  outputs : Nat := 0
  reporter : Reporter := {}

def stdinTag : String := "<stdin>"

def outputPath? (inv : Invocation) (input : String) : Option String :=
  match inv.output with
  | some "-" => none
  | some path => some path
  | none =>
    match inv.options.mode with
    | .preprocessOnly => none
    | .binary => if input = "-" then none else some (input ++ ".spv")
    | .disassembly => if input = "-" then none else some (input ++ ".spvasm")

variable {φ : Type}

namespace Session

def complain (s : Session φ) (text : String) : Session φ :=
  { s with world := s.world.complain text }

def readInput (fs : FileSystem φ) (s : Session φ) (input : String) :
    Except SystemError ShaderSource × Session φ :=
  if input = "-" then
    ((decodeFile (.ok s.world.stdin)).map (⟨stdinTag, ·⟩),
      { s with world := { s.world with stdin := [] } })
  else ((s.world.readText fs input).map (⟨input, ·⟩),
    { s with world := s.world.afterReading fs input })

def writeOutput (fs : FileSystem φ) (s : Session φ) (output : Output) (path : Option String) :
    Except SystemError Unit × Session φ :=
  let (r, world) := path.elim (s.world.deliver output.chunks) (s.world.writePath fs · output.chunks)
  (r, { s with world })

def compileShader (fs : FileSystem φ) (inv : Invocation) (s : Session φ) (input : String)
    (shader : ShaderSource) : Except CompileFailure Compiled × Session φ :=
  let toolchain : ExternalToolchain := ⟨s.world.host, inv.includeDirs, s.outputs⟩
  let (result, (world, resolved), toolchain) :=
    Compile.compile (services (World.includer fs inv.includeDirs)) inv.options shader inv.stage
      (fun _ w => (Stage.ofPath? input, w)) ((s.world, s.resolved), toolchain)
  (result, { s with
    world := { world with host := toolchain.host }, resolved, outputs := toolchain.outputs })

def compileInput (fs : FileSystem φ) (inv : Invocation) (s : Session φ) (input : String) :
    ExitCode × Session φ :=
  match s.readInput fs input with
  | (.error e, s) => (.noInput, s.complain s!"{input}: error: {e.message}\n")
  | (.ok shader, s) =>
    match s.compileShader fs inv input shader with
    | (.error f, s) =>
      (.ofError f.error, { s with reporter := s.reporter.render f.report }.complain f.report.render)
    | (.ok outcome, s) =>
      let s := { s with reporter := s.reporter.record outcome.diagnostics }.complain
        outcome.diagnostics.render
      match s.writeOutput fs outcome.output (outputPath? inv input) with
      | (.ok (), s) => (.ok, s)
      | (.error e, s) =>
        (.ioError, s.complain s!"{shader.tag}: error: unable to write output: {e.message}\n")

def compileInputs (fs : FileSystem φ) (inv : Invocation) (status : ExitCode) (s : Session φ) :
    List String → ExitCode × Session φ
  | [] => (status, s)
  | input :: rest =>
    match s.compileInput fs inv input with
    | (.ok, s) => s.compileInputs fs inv status rest
    | (code, s) => s.compileInputs fs inv code rest

end Session

def execute (fs : FileSystem φ) (inv : Invocation) (w : World φ) : ExitCode × World φ :=
  let (status, s) := Session.compileInputs fs inv .ok { world := w } inv.inputs
  (status, if s.reporter.tally.isEmpty then s.world
    else s.world.complain (s.reporter.tally.summary ++ "\n"))

def usage (program : String) : String :=
  grammar.usage s!"Usage: {program} [OPTIONS] INPUT..."

def run (fs : FileSystem φ) (program : String) (args : List String) (w : World φ) :
    ExitCode × World φ :=
  match parse args with
  | .error e => (.usage, (w.complain (e.message ++ "\n")).print (usage program ++ "\n"))
  | .ok .help => (.ok, w.print (usage program ++ "\n"))
  | .ok (.compile inv) => execute fs inv w

end ShaderPipeline.CommandLine
