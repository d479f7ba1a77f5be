import ShaderPipeline.Preprocess.State

namespace ShaderPipeline.Preprocess.Reading

variable {σ : Type}

def conditionValue (r : Reading σ) (args : List Token) : Except Cause Int64 :=
  match r.run.table.resolveDefined args with
  | .error e => .error (.replacement e)
  | .ok tested =>
    match r.run.table.expand r.builtins tested with
    | .error e => .error (.replacement e)
    | .ok expanded => (Condition.evaluate expanded).mapError .condition

def holds (r : Reading σ) (directive : String) (args : List Token) : Bool × Reading σ :=
  match r.conditionValue args with
  | .ok v => (v != 0, r)
  | .error cause => (false, r.fault directive cause)

def name? : List Token → Option String
  | t :: _ => if t.kind = .ident then some t.text else none
  | [] => none

def isNameDefined (r : Reading σ) (directive : String) (args : List Token) : Bool × Reading σ :=
  match name? args with
  | some name => (r.run.table.isDefined name, r)
  | none => (false, r.fault directive .missingName)

def opens (r : Reading σ) (opener : Opener) (args : List Token) : Bool × Reading σ :=
  match opener with
  | .condition => r.holds opener.directive args
  | .defined => r.isNameDefined opener.directive args
  | .undefined =>
    let (defined, r) := r.isNameDefined opener.directive args
    (!defined, r)

def openGroup (r : Reading σ) (opener : Opener) (args : List Token) : Reading σ :=
  let parentActive := !r.place.isSkipping
  let (active, r) := if parentActive then r.opens opener args else (false, r)
  let group : Group := ⟨opener, r.place.line, parentActive, active, active, false⟩
  { r with place := { r.place with groups := group :: r.place.groups } }.newline

def setGroups (r : Reading σ) (groups : List Group) : Reading σ :=
  { r with place := { r.place with groups } }

def elif (r : Reading σ) (args : List Token) : Reading σ :=
  let r := r.newline
  match r.place.groups with
  | [] => r.fault "#elif" .elifWithoutIf
  | g :: gs =>
    let r := if g.seenElse then r.fault "#elif" .elifAfterElse else r
    let (active, r) := if g.parentActive && !g.taken then r.holds "#elif" args else (false, r)
    r.setGroups ({ g with active, taken := g.taken || active } :: gs)

def elseBranch (r : Reading σ) : Reading σ :=
  let r := r.newline
  match r.place.groups with
  | [] => r.fault "#else" .elseWithoutIf
  | g :: gs =>
    let r := r.setGroups
      ({ g with active := g.parentActive && !g.taken, taken := true, seenElse := true } :: gs)
    if g.seenElse then r.fault "#else" .elseAfterElse else r

def endif (r : Reading σ) : Reading σ :=
  let r := r.newline
  match r.place.groups with
  | [] => r.fault "#endif" .endifWithoutIf
  | _ :: gs => r.setGroups gs

end ShaderPipeline.Preprocess.Reading
