import ShaderPipeline.Preprocess.State
/-! Ordinary text. A line that ends within an invocation is held until it is decided. -/

namespace ShaderPipeline.Preprocess.Reading

variable {σ : Type}

def writeText (r : Reading σ) (ts : List Token) (lines : Nat) : Reading σ :=
  r.emit (.text ts lines)

def replacementSite : String := "macro expansion"

def extendHeld (r : Reading σ) (ts : List Token) : Held :=
  match r.place.held with
  | none => ⟨ts, 1, r.builtins⟩
  | some h => ⟨h.tokens ++ .blank :: ts, h.lines + 1, h.builtins⟩

def release (r : Reading σ) : Reading σ :=
  { r with place := { r.place with held := none } }

def text (r : Reading σ) (ts : List Token) : Reading σ :=
  let h := r.extendHeld ts
  match r.run.table.expandOpen h.builtins h.tokens with
  | .ok (some out) => r.release.writeText out h.lines
  | .ok none => { r with place := { r.place with held := some h } }
  | .error e => (r.release.fault replacementSite (.replacement e)).writeText h.tokens h.lines

def flush (r : Reading σ) : Reading σ :=
  match r.place.held with
  | none => r
  | some h =>
    match r.run.table.expand h.builtins h.tokens with
    | .ok out => r.release.writeText out h.lines
    | .error e => (r.release.fault replacementSite (.replacement e)).writeText h.tokens h.lines

end ShaderPipeline.Preprocess.Reading
