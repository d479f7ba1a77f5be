import ShaderPipeline.LineNumber

namespace ShaderPipeline

inductive Level
  | internalError
  | error
  | warning
  | note
  deriving DecidableEq, Repr

namespace Level

def isError (l : Level) : Bool := l = .internalError ∨ l = .error

def rank : Level → Nat
  | .internalError => 1
  | .error => 2
  | .warning => 3
  | .note => 4

def graver (a b : Level) : Level := if a.rank ≤ b.rank then a else b

def label : Level → String
  | .internalError => "internal error"
  | .error => "error"
  | .warning => "warning"
  | .note => "note"

end Level

structure Message where
  level : Option Level
  tag : String
  line : Option LineNumber
  text : String
  deriving DecidableEq, Repr

namespace Message

def errorAt (tag : String) (line : LineNumber) (text : String) : Message :=
  ⟨some .error, tag, some line, text⟩

def global (level : Level) (tag text : String) : Message :=
  ⟨some level, tag, none, text⟩

def unclassified (tag text : String) : Message :=
  ⟨none, tag, none, text⟩

def isError (m : Message) : Bool := m.level.any Level.isError
def isWarning (m : Message) : Bool := m.level = some .warning

def render (m : Message) : String :=
  m.tag ++ (m.line.elim "" fun n => s!":{n}") ++ (m.level.elim "" fun l => ": " ++ l.label) ++
    ": " ++ m.text

end Message

structure Tally where
  warnings : Nat := 0
  errors : Nat := 0
  deriving DecidableEq, Repr

namespace Tally

def isEmpty (t : Tally) : Bool := t.warnings = 0 ∧ t.errors = 0

def count (t : Tally) (m : Message) : Tally :=
  if m.isError then { t with errors := t.errors + 1 }
  else if m.isWarning then { t with warnings := t.warnings + 1 }
  else t

def ofMessages (ms : List Message) : Tally := ms.foldl count {}

def add (a b : Tally) : Tally := ⟨a.warnings + b.warnings, a.errors + b.errors⟩

instance : Add Tally := ⟨add⟩

def quantity (n : Nat) (noun : String) : String :=
  s!"{n} {noun}" ++ if n > 1 then "s" else ""

def summary (t : Tally) : String :=
  match t.warnings, t.errors with
  | 0, 0 => ""
  | w, 0 => quantity w "warning" ++ " generated."
  | 0, e => quantity e "error" ++ " generated."
  | w, e => quantity w "warning" ++ " and " ++ quantity e "error" ++ " generated."

end Tally

structure Diagnostics where
  tally : Tally := {}
  messages : List Message := []
  deriving DecidableEq, Repr

namespace Diagnostics

def push (d : Diagnostics) (m : Message) : Diagnostics :=
  ⟨d.tally.count m, d.messages ++ [m]⟩

def pushAll (d : Diagnostics) (ms : List Message) : Diagnostics :=
  ms.foldl push d

def extend (d e : Diagnostics) : Diagnostics :=
  d.pushAll e.messages

def ofMessages (ms : List Message) : Diagnostics := pushAll {} ms

def renderMessages (ms : List Message) : String :=
  String.join (ms.map fun m => m.render ++ "\n")

def render (d : Diagnostics) : String := renderMessages d.messages

end Diagnostics

end ShaderPipeline
