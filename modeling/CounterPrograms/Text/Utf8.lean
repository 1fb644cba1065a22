/-!
# Reading UTF-8

Decoding of bytes to characters.  The first byte of a character says how many bytes follow and which
values the first of them may have; all further ones are between `0x80` and `0xBF`.  What is not the
start of a character is reported with the place and the extent of the fault.
-/

namespace CounterPrograms

namespace Utf8

/-- What is wrong with bytes that are no UTF-8. -/
inductive Fault
  /-- A byte cannot begin a character. -/
  | startByte
  /-- A character is interrupted by a byte that does not continue it. -/
  | continuationByte
  /-- The bytes end within a character. -/
  | endOfData
deriving DecidableEq, Repr

/-- The text of a fault in messages. -/
def Fault.text : Fault → String
  | startByte => "invalid start byte"
  | continuationByte => "invalid continuation byte"
  | endOfData => "unexpected end of data"

/-- A fault, the offset of the byte at which the faulty character begins, that byte, and how many
bytes are at fault. -/
structure Error where
  fault : Fault
  offset : Nat
  byte : UInt8
  length : Nat
deriving DecidableEq, Repr

/-- What the first byte of a character says: how many bytes follow, the least and the greatest value
of the first of them, and the bits that the byte itself contributes. -/
structure Lead where
  following : Nat
  low : Nat
  high : Nat
  bits : Nat
deriving DecidableEq, Repr

/-- Reads the first byte of a character, if it is one. -/
def lead? (b : UInt8) : Option Lead :=
  let n := b.toNat
  if n < 0x80 then some ⟨0, 0x80, 0xBF, n⟩
  else if n < 0xC2 then none
  else if n < 0xE0 then some ⟨1, 0x80, 0xBF, n - 0xC0⟩
  else if n < 0xF0 then
    some ⟨2, if n = 0xE0 then 0xA0 else 0x80, if n = 0xED then 0x9F else 0xBF, n - 0xE0⟩
  else if n < 0xF5 then
    some ⟨3, if n = 0xF0 then 0x90 else 0x80, if n = 0xF4 then 0x8F else 0xBF, n - 0xF0⟩
  else none

/-- The bytes that continue a character: `following` of them, the first between `low` and `high`.
The result is the code point with the bytes left, or the fault and how many bytes before it were
good. -/
def tail : Nat → Nat → Nat → Nat → Nat → List UInt8 → Except (Fault × Nat) (Nat × List UInt8)
  | 0, _, _, _, bits, rest => .ok (bits, rest)
  | _ + 1, _, _, good, _, [] => .error (.endOfData, good)
  | following + 1, low, high, good, bits, b :: rest =>
    if low ≤ b.toNat ∧ b.toNat ≤ high then
      tail following 0x80 0xBF (good + 1) (bits * 64 + (b.toNat - 0x80)) rest
    else .error (.continuationByte, good)

/-- Decodes the bytes that begin at `offset`, one character for every unit of fuel. -/
def decodeFrom : Nat → Nat → List UInt8 → List Char → Except Error (List Char)
  | _, _, [], read => .ok read.reverse
  | 0, _, _ :: _, read => .ok read.reverse
  | fuel + 1, offset, b :: rest, read =>
    match lead? b with
    | none => .error ⟨.startByte, offset, b, 1⟩
    | some l =>
      match tail l.following l.low l.high 0 l.bits rest with
      | .ok (n, left) => decodeFrom fuel (offset + 1 + l.following) left (Char.ofNat n :: read)
      | .error (fault, good) => .error ⟨fault, offset, b, good + 1⟩

/-- Decodes bytes. -/
def decode (bytes : List UInt8) : Except Error (List Char) :=
  decodeFrom bytes.length 0 bytes []

end Utf8

/-- A text with line feeds in place of carriage returns and of carriage returns followed by line
feeds. -/
def normalizeNewlines : List Char → List Char
  | '\r' :: '\n' :: rest => '\n' :: normalizeNewlines rest
  | '\r' :: rest => '\n' :: normalizeNewlines rest
  | c :: rest => c :: normalizeNewlines rest
  | [] => []

end CounterPrograms
