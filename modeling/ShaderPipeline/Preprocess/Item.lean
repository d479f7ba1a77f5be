import ShaderPipeline.Include
import ShaderPipeline.LineNumber
import ShaderPipeline.Token
import ShaderPipeline.Version
/-! What a run writes, item by item, each with what it knew of its line. -/

namespace ShaderPipeline.Preprocess

inductive Behavior
  | require
  | enable
  | warn
  | disable
  deriving DecidableEq, Repr

namespace Behavior

def keyword : Behavior → String
  | .require => "require"
  | .enable => "enable"
  | .warn => "warn"
  | .disable => "disable"

def ofKeyword? (s : String) : Option Behavior :=
  [require, enable, warn, disable].find? (·.keyword = s)

end Behavior

inductive Item
  | blank
  | text (tokens : List Token) (lines : Nat)
  | version (args : List Token)
  | extension (name : String) (behavior : Behavior)
  | pragma (line : LineNumber) (args : List Token)
  | renumber (nextLine : Bool) (line : LineNumber) (args : List Token)
  | enter (nextLine : Bool) (found : Included)
  | leave (nextLine : Bool) (line : LineNumber) (name : String)
  deriving DecidableEq, Repr

namespace Item

def directiveLine (word : String) (args : List Token) : String :=
  word ++ (if args.isEmpty then "" else " " ++ Token.canonical args) ++ "\n"

def render : Item → String
  | .blank => "\n"
  | .text tokens lines => Token.join tokens ++ .ofList (List.replicate lines '\n')
  | .version args => directiveLine Version.directive args
  | .extension name behavior => s!"#extension {name} : {behavior.keyword}\n"
  | .pragma _ args => directiveLine "#pragma" args
  | .renumber _ _ args => directiveLine LineNumber.directive args
  | .enter nextLine found => LineNumber.resume nextLine 0 found.name
  | .leave nextLine line name => LineNumber.resume nextLine line name

def renderAll (xs : List Item) : String :=
  String.join (xs.map render)

end Item

end ShaderPipeline.Preprocess
