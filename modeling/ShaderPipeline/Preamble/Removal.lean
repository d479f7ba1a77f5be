import ShaderPipeline.Diagnostic
import ShaderPipeline.Preamble
import ShaderPipeline.Version
/-! Removal of the preamble from preprocessed text. If files were included the line that ends it
stays, and the version line moves to the top. -/

namespace ShaderPipeline.Preamble

structure MissingAnchor where
  tag : String
  deriving DecidableEq, Repr

namespace MissingAnchor

def message (e : MissingAnchor) : String :=
  s!"preprocessed output of `{e.tag}` is missing the include-support directive injected by " ++
    "the preamble"

def describe (e : MissingAnchor) : List Message :=
  [.global .internalError e.tag e.message,
    .global .note e.tag
      "this is a bug in the compiler or in the configured preprocessor; please report it"]

end MissingAnchor

def isVersionLine (line : String) : Bool := Text.startsWith line Version.directive

def isBlankLine (line : String) : Bool := (Text.strip line).isEmpty

def completeLine (line : String) : String :=
  if line.toList.getLast? = some '\n' then line else line ++ "\n"

def arrange (anchor tag : String) (includes : Nat) (nextLine : Bool) (head tail : List String) :
    Option (List String) :=
  (head.idxOf? anchor).map fun index =>
    let before := (head.take index).filter fun line => !isBlankLine line
    let after := head.drop (index + 1)
    if includes = 0 then before ++ after ++ tail
    else
      (tail.take 1).map completeLine ++ before ++ [anchor, LineNumber.resume nextLine 0 tag] ++
        after ++ (tail.take 1).map (fun _ => "\n") ++ tail.drop 1

def remove (text tag anchor : String) (includes : Nat) (nextLine : Bool) :
    Except MissingAnchor String :=
  let isHead := fun line => line = anchor || !isVersionLine line
  let lines := Text.linesWithEnds text
  match arrange anchor tag includes nextLine (lines.takeWhile isHead) (lines.dropWhile isHead) with
  | some out => .ok (String.join out)
  | none => .error ⟨tag⟩

end ShaderPipeline.Preamble
