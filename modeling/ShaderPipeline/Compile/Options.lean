import ShaderPipeline.Diagnostic.Log
import ShaderPipeline.Preamble
import ShaderPipeline.Version

namespace ShaderPipeline

inductive Mode
  | binary
  | disassembly
  | preprocessOnly
  deriving DecidableEq, Repr

structure CompilerOptions where
  definitions : Definitions := {}
  version : Version := .default
  versionForced : Bool := false
  disassemble : Bool := false
  preprocessOnly : Bool := false
  warningsAsErrors : Bool := false
  suppressWarnings : Bool := false
  debugInfo : Bool := false

namespace CompilerOptions

def define (o : CompilerOptions) (name value : String) : CompilerOptions :=
  { o with definitions := o.definitions.define name value }

def setDefaultVersion (o : CompilerOptions) (v : Version) : CompilerOptions :=
  { o with version := v }

def forceVersion (o : CompilerOptions) (v : Version) : CompilerOptions :=
  { o with version := v, versionForced := true }

def mode (o : CompilerOptions) : Mode :=
  if o.preprocessOnly then .preprocessOnly else if o.disassemble then .disassembly else .binary

def warningPolicy (o : CompilerOptions) : WarningPolicy :=
  ⟨o.warningsAsErrors, o.suppressWarnings⟩

/-- The preprocessor's warnings come again from the parser, so they are dropped unless they are
errors. -/
def preprocessPolicy (o : CompilerOptions) : WarningPolicy :=
  ⟨o.warningsAsErrors, true⟩

end CompilerOptions

end ShaderPipeline
