namespace ShaderPipeline

inductive SystemError
  | notFound
  | permissionDenied
  | notDirectory
  | isDirectory
  | nameTooLong
  | brokenPipe
  | noSpace
  | noDevice
  | outOfMemory
  | badName
  | notUtf8
  | other (text : String)
  deriving DecidableEq, Repr

def SystemError.message : SystemError → String
  | .notFound => "No such file or directory (os error 2)"
  | .permissionDenied => "Permission denied (os error 13)"
  | .notDirectory => "Not a directory (os error 20)"
  | .isDirectory => "Is a directory (os error 21)"
  | .nameTooLong => "File name too long (os error 36)"
  | .brokenPipe => "Broken pipe (os error 32)"
  | .noSpace => "No space left on device (os error 28)"
  | .noDevice => "No such device or address (os error 6)"
  | .outOfMemory => "out of memory"
  | .badName => "file name contained an unexpected NUL byte"
  | .notUtf8 => "stream did not contain valid UTF-8"
  | .other text => text

end ShaderPipeline
