import Concordance.Error
import Concordance.Wire.Varint

/-!
# Checksummed byte streams

A stream is written as the concatenation of its fields, closed by their checksum (`withChecksum`),
and read with a `Reader` that keeps the bytes to come, the checksum state and the count of the bytes
it has accepted. Fixed-width integers are little-endian; lengths are variable-length integers.

The checksum is the reflected CRC-32 of polynomial `0xEDB88320`, starting from all ones and
complemented at the end. The running state is a plain left fold over the bytes, so the state after
two pieces is the state after their concatenation (`advance_append`).
-/

/-! ## CRC-32 -/

namespace Concordance.Wire.Checksum

def shiftBit (state : UInt32) : UInt32 :=
  if state &&& 1 = 1 then (state >>> 1) ^^^ 0xEDB88320 else state >>> 1

/-- Shifts a number of bits out of the state. -/
def shiftBits : Nat → UInt32 → UInt32
  | 0, state => state
  | n + 1, state => shiftBits n (shiftBit state)

/-- The state after one more byte. -/
def advanceByte (state : UInt32) (byte : UInt8) : UInt32 := shiftBits 8 (state ^^^ byte.toUInt32)

/-- The state before the first byte. -/
def start : UInt32 := 0xFFFFFFFF

/-- The state after more bytes. -/
def advance (state : UInt32) (bytes : List UInt8) : UInt32 := bytes.foldl advanceByte state

/-- The checksum that a state stands for. -/
def finish (state : UInt32) : UInt32 := state ^^^ 0xFFFFFFFF

/-- The checksum of a byte string. -/
def crc32 (bytes : List UInt8) : UInt32 := finish (advance start bytes)

theorem advance_append (state : UInt32) (a b : List UInt8) :
    advance state (a ++ b) = advance (advance state a) b :=
  List.foldl_append

end Concordance.Wire.Checksum

/-! ## Streams -/

namespace Concordance.Wire

def textBytes (text : String) : List UInt8 := text.toByteArray.data.toList

/-- The text of bytes, if they are well-formed UTF-8. -/
def textOfBytes? (bytes : List UInt8) : Option String := String.fromUTF8? ⟨bytes.toArray⟩

/-- A number as little-endian bytes. -/
def littleEndian : (width : Nat) → (value : Nat) → List UInt8
  | 0, _ => []
  | width + 1, value => value.toUInt8 :: littleEndian width (value / 256)

/-- The number that little-endian bytes stand for. -/
def ofLittleEndian : List UInt8 → Nat
  | [] => 0
  | byte :: rest => byte.toNat + 256 * ofLittleEndian rest

/-- A byte string with its checksum behind it. -/
def withChecksum (bytes : List UInt8) : List UInt8 :=
  bytes ++ littleEndian 4 (Checksum.crc32 bytes).toNat

/-! ## Writing -/

/-- A byte string behind its length. -/
def lengthPrefixed (bytes : List UInt8) : List UInt8 := Varint.encode bytes.length ++ bytes

/-- A text behind its length in bytes. -/
def encodeText (text : String) : List UInt8 := lengthPrefixed (textBytes text)

/-- The gaps between numbers of 32 bits, each taken modulo 2^32. -/
def gaps (last : Nat) : List Nat → List Nat
  | [] => []
  | value :: rest => (value + word32 - last) % word32 :: gaps value rest

/-- Numbers of 32 bits as their count and their gaps. -/
def encodeAscending (values : List Nat) : List UInt8 :=
  Varint.encode values.length ++ (gaps 0 values).flatMap Varint.encode

/-! ## Reading -/

/-- Why a read failed. -/
inductive ReadFault where
  /-- The input ends inside a fixed-width or variable-length integer. -/
  | endOfInput
  | varint (fault : Varint.Fault)
  | notUtf8
  /-- The input ends inside a byte string. -/
  | short (expected found : Nat)
  deriving DecidableEq, Repr

/-- The error that a failed read is reported as. -/
def ReadFault.toError : ReadFault → Error
  | .endOfInput => .io "failed to fill whole buffer"
  | .varint .overflow => .serialization "varint overflows 64 bits"
  | .varint .cutOff => .serialization "varint is cut off"
  | .notUtf8 => .serialization "string is not UTF-8"
  | .short expected found => .serialization s!"expected {expected} bytes, found {found}"

/-- The state of reading: the bytes to come, and checksum state and count of the accepted ones. -/
structure Reader where
  rest : List UInt8
  state : UInt32 := Checksum.start
  position : Nat := 0
  deriving DecidableEq, Repr

/-- A read with faults of its own: it answers a value or a fault and leaves the reader behind what
it consumed. -/
abbrev Decoding (ε α : Type) := ExceptT ε (StateM Reader) α

/-- A read of the byte layer. -/
abbrev Read (α : Type) := Decoding ReadFault α

namespace Reader

def accept (r : Reader) (bytes rest : List UInt8) : Reader :=
  ⟨rest, Checksum.advance r.state bytes, r.position + bytes.length⟩

end Reader

namespace Read

/-- Reads a little-endian number. Too little input is used up by the attempt. -/
def fixed (width : Nat) : Read Nat := fun r =>
  let bytes := r.rest.take width
  if bytes.length < width then (.error .endOfInput, { r with rest := [] })
  else (.ok (ofLittleEndian bytes), r.accept bytes (r.rest.drop width))

/-- Splits off the bytes of a variable-length integer: through the first byte with a clear high
bit, at most `count` of them. -/
def spanVarint : (count : Nat) → List UInt8 → Option (List UInt8 × List UInt8)
  | 0, rest => some ([], rest)
  | _ + 1, [] => none
  | count + 1, byte :: rest =>
    if byte.toNat < 128 then some ([byte], rest)
    else (spanVarint count rest).map fun (bytes, rest) => (byte :: bytes, rest)

/-- Reads a variable-length integer. A malformed one is consumed but not accepted. -/
def varint : Read Nat := fun r =>
  match spanVarint Varint.maxLength r.rest with
  | none => (.error .endOfInput, { r with rest := [] })
  | some (bytes, rest) =>
    match Varint.decode bytes with
    | .error fault => (.error (.varint fault), { r with rest })
    | .ok (value, _) => (.ok value, r.accept bytes rest)

/-- Reads a signed variable-length integer. -/
def signed : Read Int := Varint.unzigzag <$> varint

/-- Reads bytes of a known count. Too little input is used up by the attempt. -/
def raw (length : Nat) : Read (List UInt8) := fun r =>
  let bytes := r.rest.take length
  if bytes.length < length then (.error (.short length bytes.length), { r with rest := [] })
  else (.ok bytes, r.accept bytes (r.rest.drop length))

/-- Reads bytes behind their length. -/
def bytes : Read (List UInt8) := varint >>= raw

/-- Reads a text behind its length. -/
def text : Read String := do
  match textOfBytes? (← bytes) with
  | some text => pure text
  | none => throw .notUtf8

/-- Reads a number of gaps and adds them up, modulo 2^32. -/
def sums : (count : Nat) → (last : Nat) → Read (List Nat)
  | 0, _ => pure []
  | count + 1, last => do
    let value := (last + (← varint)) % word32
    return value :: (← sums count value)

/-- Reads numbers of 32 bits written as their count and their gaps. -/
def ascending : Read (List Nat) := do sums (← varint) 0

/-- The same read as often as said. -/
def times {α : Type} : (count : Nat) → Read α → Read (List α)
  | 0, _ => pure []
  | count + 1, read => do return (← read) :: (← times count read)

/-- Reads the checksum and compares it with that of the accepted bytes. The checksum itself is not
accepted. -/
def checksum : Read Bool := fun r =>
  let bytes := r.rest.take 4
  if bytes.length < 4 then (.error .endOfInput, { r with rest := [] })
  else (.ok (ofLittleEndian bytes == (Checksum.finish r.state).toNat), { r with rest := r.rest.drop 4 })

end Read

end Concordance.Wire
