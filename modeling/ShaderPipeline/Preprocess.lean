import ShaderPipeline.Preprocess.Directive
import ShaderPipeline.Preprocess.Text
import ShaderPipeline.Text.Clean
/-! Preprocessing of a source behind its preamble. Every line leaves at least one line in the
output. -/

namespace ShaderPipeline.Preprocess

def maxIncludeDepth : Nat := 100

def includeTarget (args : List Token) : Except Cause (String × IncludeKind) :=
  match args with
  | [] => .error .missingFileName
  | t :: rest =>
    let target? :=
      if t.kind = .str then
        match t.text.toList with
        | _ :: cs =>
          if cs.getLast? = some '"' then some (String.ofList cs.dropLast, IncludeKind.relative)
            else none
        | [] => none
      else if t.isPunct "<" ∧ rest.any (·.isPunct ">") then
        some (Token.join (rest.takeWhile fun t => !t.isPunct ">"), .standard)
      else none
    match target? with
    | none => .error .missingFileName
    | some (name, kind) => if name = "" then .error .emptyFileName else .ok (name, kind)

def directiveTokens? (ts : List Token) : Option (List Token) :=
  match Token.trim ts with
  | t :: rest => if t.isPunct "#" then some (Token.trim rest) else none
  | [] => none

abbrev Descent (σ : Type) := Option (Included → Nat → Run σ → Run σ)

namespace Reading

variable {σ : Type}

def enter (r : Reading σ) (descend : Included → Nat → Run σ → Run σ) (found : Included) :
    Reading σ :=
  let run := { r.run with files := r.run.files + 1 }
  let run := run.emit (.enter run.nextLine found)
  let run := descend found run.files run
  { r with run := run.emit (.leave run.nextLine r.place.line r.place.name) }

def includeFile (r : Reading σ) (inc : Includer σ) (descent : Descent σ) (name : String)
    (kind : IncludeKind) : Reading σ :=
  match descent with
  | none => (r.fault "#include" .includeTooDeep).newline
  | some descend =>
    let (result, includer) :=
      inc.resolve r.run.includer ⟨name, kind, r.place.name, r.place.depth + 1⟩
    let r := { r with run := { r.run with includer } }
    match result with
    | .error e => (r.fault "#include" (.inclusion e)).newline
    | .ok found => r.enter descend found

def inclusion (r : Reading σ) (inc : Includer σ) (descent : Descent σ) (args : List Token) :
    Reading σ :=
  if r.run.includeEnabled then
    match includeTarget args with
    | .error cause => (r.fault "#include" cause).newline
    | .ok (name, kind) => r.includeFile inc descent name kind
  else (r.fault "#include" .includesDisabled).newline

def activeDirective (r : Reading σ) (inc : Includer σ) (descent : Descent σ) (name : String)
    (args : List Token) : Reading σ :=
  match name with
  | "define" => r.define args
  | "undef" => r.undef args
  | "error" => r.error args
  | "version" => r.version args
  | "extension" => r.extension args
  | "pragma" => r.emit (.pragma r.place.line args)
  | "line" => r.renumber args
  | "include" => r.inclusion inc descent args
  | _ => (r.fault ("#" ++ name) .invalidDirective).newline

def directive (r : Reading σ) (inc : Includer σ) (descent : Descent σ) (name : String)
    (args : List Token) : Reading σ :=
  match name with
  | "if" => r.openGroup .condition args
  | "ifdef" => r.openGroup .defined args
  | "ifndef" => r.openGroup .undefined args
  | "elif" => r.elif args
  | "else" => r.elseBranch
  | "endif" => r.endif
  | _ => if r.place.isSkipping then r.newline else r.activeDirective inc descent name args

def line (r : Reading σ) (inc : Includer σ) (descent : Descent σ) (s : String) : Reading σ :=
  let ts := Token.tokenize s
  match directiveTokens? ts with
  | some [] => r.flush.newline
  | some (name :: args) => r.flush.directive inc descent name.text (Token.trim args)
  | none => if r.place.isSkipping then r.newline else r.text ts

def advance (r : Reading σ) : Reading σ :=
  { r with place := r.place.advance }

def lines (r : Reading σ) (inc : Includer σ) (descent : Descent σ) (ss : List String) : Reading σ :=
  ss.foldl (fun r s => (r.line inc descent s).advance) r

/-- Ends a unit. Of the groups left open the innermost is reported, at its own line. -/
def close (r : Reading σ) : Reading σ :=
  let r := r.flush
  match r.place.groups with
  | [] => r
  | g :: _ =>
    { r with place := { r.place with line := g.line } }.fault g.opener.directive .missingEndif

end Reading

namespace Run

variable {σ : Type}

def readUnit (run : Run σ) (inc : Includer σ) (descent : Descent σ) (depth : Nat)
    (source : Included) (file : Nat) : Run σ :=
  let r : Reading σ := ⟨{ name := source.name, depth, file }, run⟩
  (r.lines inc descent (Text.lines (Text.clean source.content))).close.run

def unit (inc : Includer σ) : (levels : Nat) → Included → Nat → Run σ → Run σ
  | 0, source, file, run => run.readUnit inc none maxIncludeDepth source file
  | levels + 1, source, file, run =>
    run.readUnit inc (some (unit inc levels)) (maxIncludeDepth - (levels + 1)) source file

end Run

structure Request where
  tag : String
  source : String
  preamble : String
  version : Version
  forced : Bool
  deriving DecidableEq, Repr

/-- Preprocessed text comes also with errors, so that callers may look at a part of it. -/
structure Result where
  success : Bool
  text : String
  log : String
  deriving DecidableEq, Repr

variable {σ : Type}

def finalRun (inc : Includer σ) (request : Request) (includer : σ) : Run σ :=
  let run := Run.start request.version request.forced includer
  let run := Run.unit inc maxIncludeDepth ⟨request.tag, request.preamble⟩ 0 run
  Run.unit inc maxIncludeDepth ⟨request.tag, request.source⟩ 0 run

def preprocess (inc : Includer σ) (request : Request) (includer : σ) : Result × σ :=
  let run := finalRun inc request includer
  (⟨run.faults.isEmpty, run.out, run.log⟩, run.includer)

end ShaderPipeline.Preprocess
