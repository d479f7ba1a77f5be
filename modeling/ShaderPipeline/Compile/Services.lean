import ShaderPipeline.Preprocess
import ShaderPipeline.Toolchain
/-! The services that a compiler calls on, with a state on which their answers may depend in any
way. -/

namespace ShaderPipeline

structure Services (ω υ π : Type) where
  preprocess : Preprocess.Request → ω → Preprocess.Result × ω
  includeCount : ω → Nat
  resetIncludes : ω → ω
  acquire : ω → Except ToolchainError Unit × ω
  parse : ParseRequest → ω → Except ToolchainError (WithLog υ) × ω
  link : υ → ω → Except ToolchainError (WithLog π) × ω
  generate : π → Stage → ω → Except ToolchainError (List UInt32) × ω
  release : ω → ω
  disassemble : List UInt32 → ω → Except ToolchainError String × ω

inductive Call (υ π : Type)
  | acquire
  | parse (request : ParseRequest) (includes : Nat)
  | link (unit : υ)
  | generate (program : π) (stage : Stage)
  | disassemble (words : List UInt32)
  | release
  deriving DecidableEq, Repr

namespace Services

variable {ω υ π : Type}

def recording {α : Type} (call : ω → Call υ π) (f : ω → α × ω) (w : ω × List (Call υ π)) :
    α × ω × List (Call υ π) :=
  let (a, next) := f w.1
  (a, next, w.2 ++ [call w.1])

def recorded (s : Services ω υ π) : Services (ω × List (Call υ π)) υ π where
  preprocess request w :=
    let (a, next) := s.preprocess request w.1
    (a, next, w.2)
  includeCount w := s.includeCount w.1
  resetIncludes w := (s.resetIncludes w.1, w.2)
  acquire := recording (fun _ => .acquire) s.acquire
  parse request := recording (fun w => .parse request (s.includeCount w)) (s.parse request)
  link unit := recording (fun _ => .link unit) (s.link unit)
  generate program stage := recording (fun _ => .generate program stage) (s.generate program stage)
  release w := (s.release w.1, w.2 ++ [.release])
  disassemble words := recording (fun _ => .disassemble words) (s.disassemble words)

end Services

end ShaderPipeline
