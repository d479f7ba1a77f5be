namespace ShaderPipeline.Text

def isBlank (c : Char) : Bool :=
  c == ' ' || c == '\t' || c == '\n' || c == '\r' || c == '\x0b' || c == '\x0c'

def stripChars (cs : List Char) : List Char :=
  ((cs.dropWhile isBlank).reverse.dropWhile isBlank).reverse

def strip (s : String) : String :=
  .ofList (stripChars s.toList)

/-- Lines with the newline that ends each of them; only the last may lack one. -/
def closedLines : List Char → List (List Char)
  | [] => []
  | c :: cs =>
    if c = '\n' then ['\n'] :: closedLines cs
    else match closedLines cs with
      | [] => [[c]]
      | line :: rest => (c :: line) :: rest

def bareLines : List Char → List (List Char)
  | [] => []
  | c :: cs =>
    if c = '\n' then [] :: bareLines cs
    else match bareLines cs with
      | [] => [[c]]
      | line :: rest => (c :: line) :: rest

def linesWithEnds (s : String) : List String :=
  (closedLines s.toList).map .ofList

def lines (s : String) : List String :=
  (bareLines s.toList).map .ofList

def afterPrefix? (p s : List Char) : Option (List Char) :=
  if p.isPrefixOf s then some (s.drop p.length) else none

def afterFirst? (p : List Char) : List Char → Option (List Char)
  | [] => afterPrefix? p []
  | c :: cs => (afterPrefix? p (c :: cs)).or (afterFirst? p cs)

def splitAt? (c : Char) (s : List Char) : Option (List Char × List Char) :=
  match s.dropWhile (· != c) with
  | [] => none
  | _ :: after => some (s.takeWhile (· != c), after)

def startsWith (s p : String) : Bool :=
  p.toList.isPrefixOf s.toList

def digit? (base : Nat) (c : Char) : Option Nat :=
  let value? :=
    if c.isDigit then some (c.toNat - '0'.toNat)
    else if c.isLower then some (c.toNat - 'a'.toNat + 10)
    else if c.isUpper then some (c.toNat - 'A'.toNat + 10)
    else none
  value?.filter (· < base)

def natOfDigits? (base : Nat) : List Char → Option Nat
  | [] => none
  | cs => cs.foldlM (fun n c => (digit? base c).map (n * base + ·)) 0

end ShaderPipeline.Text
