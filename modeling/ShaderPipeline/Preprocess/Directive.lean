import ShaderPipeline.Preprocess.Conditional

namespace ShaderPipeline.Preprocess

def parameterNames? (seen : List String) (ts : List Token) : Option (List String × List Token) :=
  match ts with
  | [] => none
  | name :: rest =>
    if name.kind ≠ .ident ∨ name.text ∈ seen then none
    else match _h : Token.trim rest with
      | [] => none
      | sep :: after =>
        match sep.text with
        | ")" => some (seen ++ [name.text], after)
        | "," => parameterNames? (seen ++ [name.text]) (Token.trim after)
        | _ => none
termination_by ts.length
decreasing_by
  have h₁ := Token.length_trim_le rest
  have h₂ := Token.length_trim_le after
  rw [_h] at h₁
  simp only [List.length_cons] at h₁ ⊢
  omega

def parameters? (ts : List Token) : Option (List String × List Token) :=
  match Token.trim ts with
  | [] => none
  | t :: rest => if t.isPunct ")" then some ([], rest) else parameterNames? [] (t :: rest)

def macro? (ts : List Token) : Option Macro :=
  match ts with
  | [] => some (.object [])
  | t :: rest =>
    if t.isPunct "(" then (parameters? rest).map fun (names, body) =>
      .function names (Token.trim body)
    else some (.object (Token.trim ts))

def extensionSetting (args : List Token) : Except Cause (String × Behavior) :=
  match Token.solid args with
  | [] => .error .missingExtension
  | name :: rest =>
    if name.kind ≠ .ident then .error .missingExtension
    else match rest with
      | [colon, behavior] =>
        if colon.isPunct ":" ∧ behavior.kind = .ident then
          match Behavior.ofKeyword? behavior.text with
          | some b => .ok (name.text, b)
          | none => .error (.unsupportedBehavior behavior.text)
        else .error .extraTokens
      | [] | [_] => .error .missingBehavior
      | _ => .error .extraTokens

namespace Reading

variable {σ : Type}

def setTable (r : Reading σ) (table : Macro.Table) : Reading σ :=
  { r with run := { r.run with table } }

def define (r : Reading σ) (args : List Token) : Reading σ :=
  let r := r.newline
  match name? args with
  | none => r.fault "#define" .missingName
  | some name =>
    match macro? args.tail with
    | none => r.fault "#define" (.badParameters name)
    | some m =>
      match r.run.table.define name m with
      | .ok table => r.setTable table
      | .error e => r.fault "#define" (.replacement e)

def undef (r : Reading σ) (args : List Token) : Reading σ :=
  let r := r.newline
  match name? args with
  | none => r.fault "#undef" .missingName
  | some name =>
    match r.run.table.undefine name with
    | .ok table => r.setTable table
    | .error e => r.fault "#undef" (.replacement e)

def error (r : Reading σ) (args : List Token) : Reading σ :=
  (r.fault "#error" (.requested (Token.canonical args))).newline

def declareVersion (r : Reading σ) (args : List Token) : Reading σ :=
  if r.run.declared then r
  else
    let run := { r.run with declared := true }
    if run.forced then { r with run }
    else match Version.declared? (Version.directive ++ " " ++ Token.canonical args) with
      | some v => { r with run := run.setVersion v }
      | none => { r with run }

def version (r : Reading σ) (args : List Token) : Reading σ :=
  match args with
  | t :: _ =>
    if t.kind = .number then (r.emit (.version args)).declareVersion args
    else (r.fault "#version" .badVersion).newline
  | [] => (r.fault "#version" .badVersion).newline

def setIncludes (r : Reading σ) (enabled : Bool) : Reading σ :=
  { r with run := { r.run with includeEnabled := enabled } }

def extension (r : Reading σ) (args : List Token) : Reading σ :=
  match extensionSetting args with
  | .error cause => (r.fault "#extension" cause).newline
  | .ok (name, behavior) =>
    let r := if name = Preamble.includeExtension then r.setIncludes (behavior ≠ .disable) else r
    r.emit (.extension name behavior)

def renumber (r : Reading σ) (args : List Token) : Reading σ :=
  match r.run.table.expand r.builtins args with
  | .error e => (r.fault "#line" (.replacement e)).newline
  | .ok expanded =>
    match expanded with
    | t :: _ =>
      if t.kind = .number then
        let line := (LineNumber.ofText t.text).following r.run.nextLine
        { r with place := { r.place with renumber := some line } }.emit
          (.renumber r.run.nextLine line expanded)
      else (r.fault "#line" .lineNotIntegral).newline
    | [] => (r.fault "#line" .lineNotIntegral).newline

end Reading

end ShaderPipeline.Preprocess
