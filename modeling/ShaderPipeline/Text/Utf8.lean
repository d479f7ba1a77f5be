/-! Texts as bytes. Decoding refuses surrogates and over-long forms. -/

namespace ShaderPipeline

abbrev Bytes := List UInt8

namespace Utf8

def encode (s : String) : Bytes :=
  s.toList.flatMap String.utf8EncodeChar

inductive Defect
  | invalid (length : Nat)
  | incomplete
  deriving DecidableEq, Repr

def follow? (b : UInt8) : Option (Nat × UInt8 × UInt8) :=
  if b < 0x80 then some (0, 0x80, 0xbf)
  else if b < 0xc2 then none
  else if b < 0xe0 then some (1, 0x80, 0xbf)
  else if b = 0xe0 then some (2, 0xa0, 0xbf)
  else if b = 0xed then some (2, 0x80, 0x9f)
  else if b < 0xf0 then some (2, 0x80, 0xbf)
  else if b = 0xf0 then some (3, 0x90, 0xbf)
  else if b < 0xf4 then some (3, 0x80, 0xbf)
  else if b = 0xf4 then some (3, 0x80, 0x8f)
  else none

def checkFollowing (seen : Nat) : (n : Nat) → (lo hi : UInt8) → Bytes → Option Defect
  | 0, _, _, _ => none
  | _ + 1, _, _, [] => some .incomplete
  | n + 1, lo, hi, b :: bs =>
    if lo ≤ b ∧ b ≤ hi then checkFollowing (seen + 1) n 0x80 0xbf bs else some (.invalid seen)

def leadBits (b : UInt8) (n : Nat) : Nat :=
  match n with
  | 0 => b.toNat
  | 1 => b.toNat % 0x20
  | 2 => b.toNat % 0x10
  | _ => b.toNat % 0x08

def first (b : UInt8) (bs : Bytes) : Except Defect (Char × Nat) :=
  match follow? b with
  | none => .error (.invalid 1)
  | some (n, lo, hi) =>
    match checkFollowing 1 n lo hi bs with
    | some d => .error d
    | none => .ok (.ofNat ((bs.take n).foldl (fun v c => v * 64 + c.toNat % 64) (leadBits b n)), n)

def decodeFrom (index : Nat) : Bytes → Except (Nat × Defect) (List Char)
  | [] => .ok []
  | b :: bs =>
    match first b bs with
    | .error d => .error (index, d)
    | .ok (c, n) => (decodeFrom (index + 1 + n) (bs.drop n)).map (c :: ·)
termination_by bs => bs.length
decreasing_by simp only [List.length_cons, List.length_drop]; omega

def decode (bs : Bytes) : Except (Nat × Defect) String :=
  (decodeFrom 0 bs).map .ofList

def decode? (bs : Bytes) : Option String :=
  (decode bs).toOption

def lossyChars : Bytes → List Char
  | [] => []
  | b :: bs =>
    match first b bs with
    | .ok (c, n) => c :: lossyChars (bs.drop n)
    | .error (.invalid n) => '\ufffd' :: lossyChars (bs.drop (n - 1))
    | .error .incomplete => ['\ufffd']
termination_by bs => bs.length
decreasing_by all_goals simp only [List.length_cons, List.length_drop]; omega

def decodeLossy (bs : Bytes) : String :=
  .ofList (lossyChars bs)

def Defect.message (index : Nat) : Defect → String
  | .invalid n => s!"invalid utf-8 sequence of {n} bytes from index {index}"
  | .incomplete => s!"incomplete utf-8 byte sequence from index {index}"

end Utf8

end ShaderPipeline
