import ShaderPipeline.SystemError
import ShaderPipeline.Text.Utf8
/-! The programs outside, as they are seen from here. -/

namespace ShaderPipeline

inductive Tool
  | validator
  | disassembler
  deriving DecidableEq, Repr

def Tool.name : Tool → String
  | .validator => "glslangValidator"
  | .disassembler => "spirv-dis"

inductive Availability
  | installed
  | missing
  | broken (reason : SystemError)
  deriving DecidableEq, Repr

structure ToolResponse where
  stdout : Bytes := []
  stderr : Bytes := []
  status : Option Int := some 0
  binary : Option Bytes := none
  readsInput : Bool := true
  fault : Option SystemError := none
  deriving DecidableEq, Repr

structure ToolCall where
  tool : Tool
  args : List String
  input : Bytes
  deriving DecidableEq, Repr

structure ToolHost where
  availability : Tool → Availability
  /-- What the programs started from now on answer, in order. Later ones end at once without a
  word. -/
  responses : List ToolResponse := []
  calls : List ToolCall := []
  scratchPath : String
  scratchFault : Option SystemError := none
  scratch : Option (List (String × Bytes)) := none

namespace ToolHost

def outputPath? : List String → Option String
  | "-o" :: path :: _ => some path
  | _ :: rest => outputPath? rest
  | [] => none

def filesAfter (files : List (String × Bytes)) (args : List String) (r : ToolResponse) :
    List (String × Bytes) :=
  match r.binary, outputPath? args with
  | some binary, some path => (path, binary) :: files
  | _, _ => files

def openScratch (h : ToolHost) : Except SystemError ToolHost :=
  match h.scratch, h.scratchFault with
  | some _, _ => .ok h
  | none, some e => .error e
  | none, none => .ok { h with scratch := some [] }

def removeScratch (h : ToolHost) : ToolHost :=
  { h with scratch := none }

def readScratch (h : ToolHost) (path : String) : Except SystemError Bytes :=
  match (h.scratch.getD []).lookup path with
  | some bytes => .ok bytes
  | none => .error .notFound

def next (h : ToolHost) : ToolResponse := h.responses.headD {}

def respond (h : ToolHost) (tool : Tool) (args : List String) (input : Bytes) : ToolHost :=
  { h with
    responses := h.responses.tail
    calls := h.calls ++ [⟨tool, args, if h.next.readsInput then input else []⟩]
    scratch := h.scratch.map fun files => filesAfter files args h.next }

def locate (h : ToolHost) (tool : Tool) : Except String Unit :=
  match h.availability tool with
  | .missing => .error s!"`{tool.name}` was not found on the PATH"
  | _ => .ok ()

def run (h : ToolHost) (tool : Tool) (args : List String) (input : Bytes) :
    Except String ToolResponse × ToolHost :=
  match h.locate tool with
  | .error reason => (.error reason, h)
  | .ok () =>
    if args.any (·.toList.contains '\x00') then (.error "nul byte found in provided data", h)
    else match h.availability tool with
      | .broken reason => (.error reason.message, h)
      | _ => (.ok h.next, h.respond tool args input)

end ToolHost

end ShaderPipeline
