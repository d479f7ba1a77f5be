import ShaderPipeline.FileSystem

namespace ShaderPipeline

inductive Device
  | null
  | zero
  | full
  | terminal
  | stream (s : StandardStream)
  deriving DecidableEq, Repr

namespace Device

def content : Device → Except SystemError Bytes
  | .null | .stream _ => .ok []
  | .zero | .full => .error .outOfMemory
  | .terminal => .error .noDevice

def accept (d : Device) (bytes : Bytes) : Except SystemError Unit :=
  match d with
  | .full => if bytes.isEmpty then .ok () else .error .noSpace
  | .terminal => .error .noDevice
  | _ => .ok ()

def stream? : Device → Option StandardStream
  | .stream s => some s
  | _ => none

def table : List (List String × Device) :=
  [(["dev", "null"], .null), (["dev", "zero"], .zero), (["dev", "full"], .full),
    (["dev", "tty"], .terminal), (["dev", "stdin"], .stream .input),
    (["dev", "stdout"], .stream .output), (["dev", "stderr"], .stream .errors),
    (["dev", "fd", "0"], .stream .input), (["dev", "fd", "1"], .stream .output),
    (["dev", "fd", "2"], .stream .errors), (["proc", "self", "fd", "0"], .stream .input),
    (["proc", "self", "fd", "1"], .stream .output), (["proc", "self", "fd", "2"], .stream .errors)]

end Device

inductive SystemPlace
  | directory (names : List String)
  | device (d : Device)
  | absent (closed : Bool)
  deriving DecidableEq, Repr

namespace SystemPlace

def root : SystemPlace := .directory []

def directories : List (List String) :=
  (["bin", "boot", "dev", "etc", "home", "lib", "media", "mnt", "opt", "proc", "root", "run",
    "sbin", "srv", "sys", "tmp", "usr", "var"].map ([·])) ++
  [["usr", "bin"], ["usr", "include"], ["usr", "lib"], ["usr", "local"], ["usr", "share"],
    ["var", "tmp"]]

def isClosed (names : List String) : Bool :=
  names.head? = some "proc" || ["dev", "fd"].isPrefixOf names

def ofNames (names : List String) : SystemPlace :=
  match Device.table.lookup names with
  | some d => .device d
  | none =>
    if names.isEmpty || directories.contains names || Device.table.any (names.isPrefixOf ·.1) then
      .directory names
    else .absent (isClosed names)

end SystemPlace

end ShaderPipeline
