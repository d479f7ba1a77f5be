import ShaderPipeline.Text
import ShaderPipeline.Token
/-! Integer expressions of conditions, in wrapping 64-bit arithmetic. A left operand is combined as
soon as its right one is read, so that a division by zero wins over later malformed text. -/

namespace ShaderPipeline.Condition

inductive Error
  | expectedExpression
  | unexpected (text : String)
  | badInteger (text : String)
  | missingCloseParen
  | divisionByZero
  deriving DecidableEq, Repr

def Error.message : Error → String
  | .expectedExpression => "expected expression"
  | .unexpected text => s!"unexpected '{text}' in expression"
  | .badInteger text => s!"invalid integer constant '{text}'"
  | .missingCloseParen => "missing ')'"
  | .divisionByZero => "division by 0"

inductive Operator
  | or | and | bitOr | bitXor | bitAnd
  | eq | ne | lt | gt | le | ge
  | shiftLeft | shiftRight | add | sub | mul | div | rem
  deriving DecidableEq, Repr

namespace Operator

def ofText? : String → Option Operator
  | "||" => some .or
  | "&&" => some .and
  | "|" => some .bitOr
  | "^" => some .bitXor
  | "&" => some .bitAnd
  | "==" => some .eq
  | "!=" => some .ne
  | "<" => some .lt
  | ">" => some .gt
  | "<=" => some .le
  | ">=" => some .ge
  | "<<" => some .shiftLeft
  | ">>" => some .shiftRight
  | "+" => some .add
  | "-" => some .sub
  | "*" => some .mul
  | "/" => some .div
  | "%" => some .rem
  | _ => none

def ofToken? (t : Token) : Option Operator :=
  if t.kind = .punct then ofText? t.text else none

def precedence : Operator → Nat
  | .or => 1
  | .and => 2
  | .bitOr => 3
  | .bitXor => 4
  | .bitAnd => 5
  | .eq | .ne => 6
  | .lt | .gt | .le | .ge => 7
  | .shiftLeft | .shiftRight => 8
  | .add | .sub => 9
  | .mul | .div | .rem => 10

def truth (b : Bool) : Int64 := if b then 1 else 0

/-- Both operands are values already, also those of the logical operators. -/
def apply (op : Operator) (a b : Int64) : Except Error Int64 :=
  match op with
  | .or => .ok (truth (a != 0 || b != 0))
  | .and => .ok (truth (a != 0 && b != 0))
  | .bitOr => .ok (a ||| b)
  | .bitXor => .ok (a ^^^ b)
  | .bitAnd => .ok (a &&& b)
  | .eq => .ok (truth (a == b))
  | .ne => .ok (truth (a != b))
  | .lt => .ok (truth (a < b))
  | .gt => .ok (truth (a > b))
  | .le => .ok (truth (a ≤ b))
  | .ge => .ok (truth (a ≥ b))
  | .shiftLeft => .ok (a <<< b)
  | .shiftRight => .ok (a >>> b)
  | .add => .ok (a + b)
  | .sub => .ok (a - b)
  | .mul => .ok (a * b)
  | .div => if b = 0 then .error .divisionByZero else .ok (a / b)
  | .rem => if b = 0 then .error .divisionByZero else .ok (a % b)

end Operator

def dropUnsignedSuffix (cs : List Char) : List Char :=
  match cs.getLast? with
  | some 'u' | some 'U' => cs.dropLast
  | _ => cs

def splitBase : List Char → Nat × List Char
  | '0' :: 'x' :: ds => (16, ds)
  | '0' :: 'X' :: ds => (16, ds)
  | '0' :: d :: ds => (8, d :: ds)
  | ds => (10, ds)

/-- A number that fits 64 bits, signed or else unsigned. Only the line number macro has a sign. -/
def word? (base : Nat) : List Char → Option Int64
  | '-' :: ds => (Text.natOfDigits? base ds).bind fun n =>
    if n ≤ 0x8000000000000000 then some (.ofInt (-n)) else none
  | '+' :: ds =>
    (Text.natOfDigits? base ds).bind fun n => if n < UInt64.size then some (.ofNat n) else none
  | ds =>
    (Text.natOfDigits? base ds).bind fun n => if n < UInt64.size then some (.ofNat n) else none

def literal (text : String) : Except Error Int64 :=
  let (base, digits) := splitBase (dropUnsignedSuffix text.toList)
  match word? base digits with
  | some value => .ok value
  | none => .error (.badInteger text)

structure Parsed (n : Nat) where
  value : Int64
  rest : List Token
  length_lt : rest.length < n

def Parsed.map {m n : Nat} (r : Parsed m) (f : Int64 → Int64) (h : m ≤ n) : Parsed n :=
  ⟨f r.value, r.rest, Nat.lt_of_lt_of_le r.length_lt h⟩

mutual

def operand (ts : List Token) : Except Error (Parsed ts.length) :=
  match ts with
  | [] => .error .expectedExpression
  | t :: rest =>
    match t.kind with
    | .ident => .ok ⟨0, rest, Nat.lt_succ_self _⟩
    | .number => (literal t.text).map fun v => ⟨v, rest, Nat.lt_succ_self _⟩
    | .punct =>
      match t.text with
      | "!" => (operand rest).map (·.map (fun v => Operator.truth (v == 0)) (Nat.le_succ _))
      | "~" => (operand rest).map (·.map (~~~ ·) (Nat.le_succ _))
      | "-" => (operand rest).map (·.map (- ·) (Nat.le_succ _))
      | "+" => (operand rest).map (·.map id (Nat.le_succ _))
      | "(" =>
        match expression 0 rest with
        | .error e => .error e
        | .ok ⟨_, [], _⟩ => .error .missingCloseParen
        | .ok ⟨v, close :: after, h⟩ =>
          if close.isPunct ")" then
            .ok ⟨v, after, Nat.lt_succ_of_lt (Nat.lt_trans (Nat.lt_succ_self _) h)⟩
          else .error (.unexpected close.text)
      | text => .error (.unexpected text)
    | _ => .error (.unexpected t.text)
termination_by (ts.length, 0)

def expression (least : Nat) (ts : List Token) : Except Error (Parsed ts.length) :=
  match operand ts with
  | .error e => .error e
  | .ok ⟨v, rest, h⟩ => (climb least v rest).map (·.map id h)
termination_by (ts.length, 1)

def climb (least : Nat) (left : Int64) (ts : List Token) : Except Error (Parsed (ts.length + 1)) :=
  match ts with
  | [] => .ok ⟨left, [], Nat.lt_succ_self _⟩
  | t :: rest =>
    match Operator.ofToken? t with
    | none => .ok ⟨left, t :: rest, Nat.lt_succ_self _⟩
    | some op =>
      if op.precedence < least then .ok ⟨left, t :: rest, Nat.lt_succ_self _⟩
      else
        match expression (op.precedence + 1) rest with
        | .error e => .error e
        | .ok ⟨right, after, h⟩ =>
          match op.apply left right with
          | .error e => .error e
          | .ok v => (climb least v after).map
              (·.map id (Nat.succ_le_succ (Nat.le_succ_of_le (Nat.le_of_lt h))))
termination_by (ts.length, 2)

end

def evaluate (ts : List Token) : Except Error Int64 :=
  match expression 0 (Token.solid ts) with
  | .error e => .error e
  | .ok ⟨v, [], _⟩ => .ok v
  | .ok ⟨_, t :: _, _⟩ => .error (.unexpected t.text)

end ShaderPipeline.Condition
