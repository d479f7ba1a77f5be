import ShaderPipeline.Device
import ShaderPipeline.PathName
/-! A tree of files below a working directory. Paths may lead out of it. -/

namespace ShaderPipeline

structure FileTree where
  files : List (List String × Bytes) := []
  directories : List (List String) := []
  deriving DecidableEq, Repr

namespace FileTree

inductive Node
  | directory (names : List String)
  | file (names : List String) (content : Bytes)
  | absent (names : List String)
  | above
  | system (place : SystemPlace)
  deriving DecidableEq, Repr

def isDirectory (t : FileTree) (names : List String) : Bool :=
  names.isEmpty || t.directories.any (names.isPrefixOf ·) ||
    t.files.any fun f => names.isPrefixOf f.1 && f.1 != names

def node (t : FileTree) (names : List String) : Node :=
  if t.isDirectory names then .directory names
  else match t.files.lookup names with
    | some content => .file names content
    | none => .absent names

def entry (t : FileTree) (directory : Node) (name : String) : Node :=
  match directory with
  | .directory names =>
    if name = ".." then if names.isEmpty then .above else t.node names.dropLast
    else t.node (names ++ [name])
  | .system (.directory names) =>
    if name = ".." then .system (.ofNames names.dropLast) else .system (.ofNames (names ++ [name]))
  | n => if name = ".." then n else .system (.absent false)

def step (t : FileTree) (n : Node) (name : String) : Except SystemError Node :=
  match n with
  | .file .. | .system (.device _) => .error .notDirectory
  | .absent _ | .system (.absent _) => .error .notFound
  | _ =>
    if 255 < name.utf8ByteSize then .error .nameTooLong
    else if name = "." then .ok n
    else .ok (t.entry n name)

def partsOf (path : String) : List String :=
  ((PathName.splitSlashes path.toList).filter (· ≠ [])).map .ofList

def walk (t : FileTree) (path : String) (names : List String) : Except SystemError Node :=
  names.foldlM t.step (if Text.startsWith path "/" then .system .root else .directory [])

def checkPath (path : String) : Except SystemError Unit :=
  if path.toList.contains '\x00' then .error .badName
  else if path.isEmpty then .error .notFound
  else if 4096 ≤ path.utf8ByteSize then .error .nameTooLong
  else .ok ()

def endsInSlash (path : String) : Bool := path.toList.getLast? = some '/'

def locate (t : FileTree) (path : String) : Except SystemError Node := do
  checkPath path
  match ← t.walk path (partsOf path) with
  | .absent _ | .system (.absent _) => .error .notFound
  | .file names content =>
    if endsInSlash path then .error .notDirectory else .ok (.file names content)
  | .system (.device d) =>
    if endsInSlash path then .error .notDirectory else .ok (.system (.device d))
  | directory => .ok directory

def read (t : FileTree) (path : String) : Except SystemError Bytes :=
  match t.locate path with
  | .error e => .error e
  | .ok (.file _ content) => .ok content
  | .ok (.system (.device d)) => d.content
  | .ok _ => .error .isDirectory

def stream? (t : FileTree) (path : String) : Option StandardStream :=
  match t.locate path with
  | .ok (.system (.device d)) => d.stream?
  | _ => none

def setFile (t : FileTree) (names : List String) (content : Bytes) : FileTree :=
  { t with files := (names, content) :: t.files.filter (·.1 != names) }

def writeNode (t : FileTree) (n : Node) (content : Bytes) : Except SystemError FileTree :=
  match n with
  | .file names _ | .absent names => .ok (t.setFile names content)
  | .system (.device d) => (d.accept content).map fun _ => t
  | .system (.absent closed) => if closed then .error .notFound else .ok t
  | _ => .error .isDirectory

def write (t : FileTree) (path : String) (content : Bytes) : Except SystemError FileTree := do
  checkPath path
  match (partsOf path).getLast? with
  | none => .error .isDirectory
  | some name =>
    let directory ← t.walk path (partsOf path).dropLast
    let n ← t.step directory (if endsInSlash path then "." else name)
    t.writeNode n content

def fileSystem : FileSystem FileTree where
  read := read
  write t path content :=
    match t.write path content with
    | .ok t => (.ok (), t)
    | .error e => (.error e, t)
  stream? := stream?

def ofFiles (entries : List (String × Bytes)) : FileTree :=
  entries.foldl (fun t e =>
    if endsInSlash e.1 then { t with directories := partsOf e.1 :: t.directories }
    else t.setFile (partsOf e.1) e.2) {}

def pathOf (names : List String) : String := String.intercalate "/" names

def changedSince (t old : FileTree) : List (String × Bytes) :=
  (t.files.filter fun f => old.files.lookup f.1 ≠ some f.2).map fun f => (pathOf f.1, f.2)

end FileTree

end ShaderPipeline
