import ShaderPipeline.SystemError
import ShaderPipeline.Text.Utf8

namespace ShaderPipeline

def decodeFile (content : Except SystemError Bytes) : Except SystemError String :=
  match content with
  | .error e => .error e
  | .ok bytes => (Utf8.decode? bytes).elim (.error .notUtf8) .ok

structure FileStore where
  entries : List (String × Except SystemError Bytes) := []

namespace FileStore

def readBytes (s : FileStore) (path : String) : Except SystemError Bytes :=
  (s.entries.lookup path).getD (.error .notFound)

def read (s : FileStore) (path : String) : Except SystemError String :=
  decodeFile (s.readBytes path)

end FileStore

end ShaderPipeline
