import ShaderPipeline.CommandLine
/-! The program. It loads the files that the inputs may include, runs the command line on them and
writes what that has written. -/

namespace ShaderPipeline.CommandLine

structure Draft where
  store : FileStore := {}
  written : List (String × Bytes) := []

namespace Draft

def fileSystem : FileSystem Draft where
  read d := d.store.readBytes
  write d path bytes := (.ok (), ⟨d.store.write path bytes, (path, bytes) :: d.written⟩)

def add (d : Draft) (path : String) (content : Except SystemError Bytes) : Draft :=
  { d with store := ⟨(path, content) :: d.store.entries⟩ }

def has (d : Draft) (path : String) : Bool := d.store.entries.any (·.1 = path)

end Draft

def wantedPaths (includeDirs : List String) (shader : ShaderSource) : List String :=
  let search : FileSearch := ⟨fun _ => .error .notFound, includeDirs, 0⟩
  (Text.lines (Text.clean shader.source)).flatMap fun line =>
    match Preprocess.directiveTokens? (Token.tokenize line) with
    | some (name :: args) =>
      match name.text, Preprocess.includeTarget (Token.trim args) with
      | "include", .ok (requested, kind) => search.candidates ⟨requested, kind, shader.tag, 1⟩
      | _, _ => []
    | _ => []

def systemErrorOf : IO.Error → SystemError
  | .noFileOrDirectory .. => .notFound
  | .permissionDenied .. => .permissionDenied
  | .inappropriateType .. => .isDirectory
  | .resourceExhausted .. => .noSpace
  | e => .other (toString e)

def readPath (path : String) : IO (Except SystemError Bytes) := do
  try
    return .ok (← IO.FS.readBinFile path).toList
  catch e => return .error (systemErrorOf e)

partial def load (includeDirs : List String) (d : Draft) : List String → IO Draft
  | [] => return d
  | path :: rest =>
    if d.has path then load includeDirs d rest
    else do
      let content ← readPath path
      let wanted := match decodeFile content with
        | .ok source => wantedPaths includeDirs ⟨path, source⟩
        | .error _ => []
      load includeDirs (d.add path content) (wanted ++ rest)

def readStdin : IO Bytes := do
  let mut bytes := ByteArray.empty
  let stdin ← IO.getStdin
  repeat
    let chunk ← stdin.read 65536
    if chunk.isEmpty then break
    bytes := bytes ++ chunk
  return bytes.toList

def loadWorld (inv : Invocation) (w : World Draft) : IO (World Draft) := do
  let stdin ← if "-" ∈ inv.inputs then readStdin else pure []
  let fromStdin := match Utf8.decode? stdin with
    | some source => wantedPaths inv.includeDirs ⟨stdinTag, source⟩
    | none => []
  let files ← load inv.includeDirs w.files (inv.inputs.filter (· ≠ "-") ++ fromStdin)
  return { w with files, stdin }

def commit (d : Draft) : IO Bool := do
  let mut ok := true
  for (path, bytes) in d.written.reverse do
    try
      IO.FS.withFile path .write fun h => do
        h.write (ByteArray.mk bytes.toArray)
        h.flush
    catch e =>
      ok := false
      IO.eprintln s!"{path}: error: unable to write output: {(systemErrorOf e).message}"
  return ok

end ShaderPipeline.CommandLine

open ShaderPipeline ShaderPipeline.CommandLine in
def main (args : List String) : IO UInt32 := do
  let w : World Draft :=
    { files := {}, host := { availability := fun _ => .missing, scratchPath := "" } }
  let w ← match parse args with
    | .ok (.compile inv) => loadWorld inv w
    | _ => pure w
  let program := (← IO.appPath).toString
  let (status, w) := run Draft.fileSystem program args w
  let stderr ← IO.getStderr
  stderr.write (ByteArray.mk w.stderr.toArray)
  let stdout ← IO.getStdout
  stdout.write (ByteArray.mk w.stdout.toArray)
  stdout.flush
  let committed ← commit w.files
  return if committed then status.code.toUInt32 else ExitCode.ioError.code.toUInt32
