import ShaderPipeline.PathName

namespace ShaderPipeline

inductive Stage
  | vertex
  | tessControl
  | tessEvaluation
  | geometry
  | fragment
  | compute
  deriving DecidableEq, Repr, Inhabited

namespace Stage

def all : List Stage := [.vertex, .tessControl, .tessEvaluation, .geometry, .fragment, .compute]

def name : Stage → String
  | .vertex => "vertex"
  | .tessControl => "tesscontrol"
  | .tessEvaluation => "tesseval"
  | .geometry => "geometry"
  | .fragment => "fragment"
  | .compute => "compute"

def fileExtension : Stage → String
  | .vertex => "vert"
  | .tessControl => "tesc"
  | .tessEvaluation => "tese"
  | .geometry => "geom"
  | .fragment => "frag"
  | .compute => "comp"

def ofName? (name : String) : Option Stage :=
  all.find? (·.name = name)

def ofPath? (path : String) : Option Stage :=
  (PathName.extension? path).bind fun ext => all.find? (·.fileExtension = ext)

def unknownMessage (name : String) : String :=
  s!"unknown shader stage `{name}`"

instance : ToString Stage := ⟨name⟩

end Stage

end ShaderPipeline
