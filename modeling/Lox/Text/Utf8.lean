/-!
# `Text.Utf8` — decoding bytes

A strict decoder for UTF-8. What cannot be decoded is told by the place of the first byte of the
sequence that fails, how many bytes of it were well formed, and why it fails.
-/
namespace Lox.Text.Utf8

/-- Why bytes cannot be decoded. -/
inductive Reason where
  | badStart
  | badContinuation
  | truncated
  deriving DecidableEq, Repr

/-- What is said about a reason. -/
def Reason.text : Reason → String
  | badStart => "invalid start byte"
  | badContinuation => "invalid continuation byte"
  | truncated => "unexpected end of data"

/-- Bytes that cannot be decoded: where the sequence starts, its first byte, and how
many of its bytes were taken. -/
structure Error where
  position : Nat
  first : UInt8
  count : Nat
  reason : Reason
  deriving DecidableEq, Repr

/-- A byte as two digits in base sixteen. -/
def hexByte (b : UInt8) : String :=
  let ds := Nat.toDigits 16 b.toNat
  String.ofList (List.replicate (2 - ds.length) '0' ++ ds)

/-- What is said about an error. -/
def Error.message (e : Error) : String :=
  let what :=
    if e.count = 1 then "byte 0x" ++ hexByte e.first ++ " in position " ++ toString e.position
    else "bytes in position " ++ toString e.position ++ "-" ++ toString (e.position + e.count - 1)
  "'utf-8' codec can't decode " ++ what ++ ": " ++ e.reason.text

/-- How many bytes follow a first byte, and the bits that it adds. -/
def lead? (b : UInt8) : Option (Nat × Nat) :=
  let n := b.toNat
  if n < 0x80 then some (0, n)
  else if n < 0xc2 then none
  else if n < 0xe0 then some (1, n - 0xc0)
  else if n < 0xf0 then some (2, n - 0xe0)
  else if n < 0xf5 then some (3, n - 0xf0)
  else none

/-- May the second byte follow the first? Sequences that are longer than needed, surrogates, and
what lies beyond the last code point are ruled out here. -/
def secondFits (first second : UInt8) : Bool :=
  let lo := if first = 0xe0 then 0xa0 else if first = 0xf0 then 0x90 else 0x80
  let hi := if first = 0xed then 0x9f else if first = 0xf4 then 0x8f else 0xbf
  lo ≤ second && second ≤ hi

/-- Does the byte continue a sequence? -/
def continues (b : UInt8) : Bool := 0x80 ≤ b && b ≤ 0xbf

/-- Takes the bytes that follow a first byte, of which `taken` are behind us. -/
def follow (first : UInt8) (taken bits : Nat) : (wanted : Nat) → List UInt8 → Except (Nat × Reason) Nat
  | 0, _ => .ok bits
  | _ + 1, [] => .error (taken, .truncated)
  | wanted + 1, b :: bs =>
    let fits := if taken = 1 then secondFits first b else continues b
    if fits then follow first (taken + 1) (bits * 64 + (b.toNat - 0x80)) wanted bs
    else .error (taken, .badContinuation)

/-- Decodes the bytes from a position on, behind the characters that were decoded, the last one
first. -/
def decodeFrom (done : List Char) (position : Nat) (bytes : List UInt8) : Except Error (List Char) :=
  match bytes with
  | [] => .ok done.reverse
  | b :: rest =>
    match lead? b with
    | none => .error ⟨position, b, 1, .badStart⟩
    | some (wanted, bits) =>
      match follow b 1 bits wanted rest with
      | .ok code => decodeFrom (Char.ofNat code :: done) (position + 1 + wanted) (rest.drop wanted)
      | .error (count, reason) => .error ⟨position, b, count, reason⟩
termination_by bytes.length
decreasing_by simp only [List.length_drop, List.length_cons]; omega

/-- Decodes bytes. -/
def decode (bytes : List UInt8) : Except Error (List Char) := decodeFrom [] 0 bytes

end Lox.Text.Utf8
