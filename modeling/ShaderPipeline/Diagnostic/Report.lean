import ShaderPipeline.Diagnostic

namespace ShaderPipeline

structure Report where
  headline : String
  messages : List Message
  deriving DecidableEq, Repr

namespace Report

def level (r : Report) : Level :=
  match r.messages.filterMap (·.level) with
  | [] => .error
  | l :: ls => ls.foldl Level.graver l

def render (r : Report) : String :=
  if r.messages.isEmpty then s!"{Level.error.label}: {r.headline}\n"
  else Diagnostics.renderMessages r.messages

def tally (r : Report) : Tally :=
  if r.messages.isEmpty then ⟨0, 1⟩ else .ofMessages r.messages

end Report

structure Reporter where
  tally : Tally := {}
  deriving DecidableEq, Repr

namespace Reporter

def render (reporter : Reporter) (r : Report) : Reporter := ⟨reporter.tally + r.tally⟩
def record (reporter : Reporter) (d : Diagnostics) : Reporter := ⟨reporter.tally + d.tally⟩
def hasErrors (reporter : Reporter) : Bool := 0 < reporter.tally.errors

end Reporter

end ShaderPipeline
