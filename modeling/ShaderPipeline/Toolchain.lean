import ShaderPipeline.Diagnostic
import ShaderPipeline.Stage
import ShaderPipeline.SystemError
import ShaderPipeline.Version

namespace ShaderPipeline

structure ParseRequest where
  tag : String
  source : String
  preamble : String
  stage : Stage
  version : Version
  forced : Bool
  forwardCompatible : Bool
  debugInfo : Bool
  deriving DecidableEq, Repr

structure WithLog (α : Type) where
  output : Option α
  log : String
  deriving DecidableEq, Repr

inductive ToolchainError
  | unavailable (tool reason : String)
  | io (tool : String) (e : SystemError)
  | failed (tool : String) (status : Option Int) (output : String)
  | codeGeneration (text : String)
  | disassembly (text : String)
  deriving DecidableEq, Repr

namespace ToolchainError

def message : ToolchainError → String
  | .unavailable tool reason => s!"{tool} is unavailable: {reason}"
  | .io tool e => s!"{tool}: {e.message}"
  | .failed tool (some status) output => s!"{tool} exited with status {status}: {output}"
  | .failed tool none output => s!"{tool} was terminated: {output}"
  | .codeGeneration text => s!"code generation failed: {text}"
  | .disassembly text => s!"disassembly failed: {text}"

def describe : ToolchainError → List Message
  | .unavailable tool reason =>
    [.global .internalError tool reason,
      .global .note tool "the tool must be installed and on the PATH"]
  | _ => []

end ToolchainError

end ShaderPipeline
