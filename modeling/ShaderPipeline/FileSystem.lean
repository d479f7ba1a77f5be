import ShaderPipeline.FileStore

namespace ShaderPipeline

inductive StandardStream
  | input
  | output
  | errors
  deriving DecidableEq, Repr

structure FileSystem (φ : Type) where
  read : φ → String → Except SystemError Bytes
  /-- What is written of a file may stay where the writing fails. -/
  write : φ → String → Bytes → Except SystemError Unit × φ
  stream? : φ → String → Option StandardStream := fun _ _ => none

def FileSystem.readText {φ : Type} (fs : FileSystem φ) (s : φ) (path : String) :
    Except SystemError String :=
  decodeFile (fs.read s path)

namespace FileStore

def write (s : FileStore) (path : String) (bytes : Bytes) : FileStore :=
  ⟨(path, .ok bytes) :: s.entries.filter (·.1 != path)⟩

def fileSystem : FileSystem FileStore where
  read := readBytes
  write s path bytes := (.ok (), s.write path bytes)

end FileStore

end ShaderPipeline
