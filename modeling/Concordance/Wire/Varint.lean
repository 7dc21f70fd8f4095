import Concordance.Number.Dyadic

/-!
# Variable-length integers

Seven bits a byte, least significant first; the high bit is set while more bytes follow. An
integer of 64 bits takes one to ten bytes. Signed values are mapped to unsigned ones first, so that
small magnitudes of either sign stay short.
-/

namespace Concordance.Wire

/-- The number of words that a variable-length integer ranges over: 2^64. -/
def word64 : Nat := 18446744073709551616

/-- The number of words that documents and positions range over: 2^32. -/
def word32 : Nat := 4294967296

/-- The greatest number of 32 bits. -/
def maxWord32 : Nat := word32 - 1

namespace Varint

/-- The longest encoding in bytes. -/
def maxLength : Nat := 10

/-- Why bytes do not start with a variable-length integer. -/
inductive Fault where
  /-- The value needs more than 64 bits, or more than ten bytes. -/
  | overflow
  /-- The bytes end while more have to follow. -/
  | cutOff
  deriving DecidableEq, Repr

/-- The bytes of a value. -/
def encode (value : Nat) : List UInt8 :=
  if value < 128 then [value.toUInt8]
  else (128 + value % 128).toUInt8 :: encode (value / 128)
termination_by value

/-- Reads on after `index` bytes worth `value`; answers the value and the number of bytes used. -/
def decodeFrom (index value : Nat) : List UInt8 → Except Fault (Nat × Nat)
  | [] => .error (if index < maxLength then .cutOff else .overflow)
  | byte :: rest =>
    if maxLength ≤ index then .error .overflow
    else
      let low := byte.toNat % 128
      if index = 9 ∧ 1 < low then .error .overflow
      else
        let value := value + low * Number.twoTo (7 * index)
        if byte.toNat < 128 then .ok (value, index + 1) else decodeFrom (index + 1) value rest

/-- Reads the integer in front of the bytes; answers it and the number of bytes it takes. -/
def decode (bytes : List UInt8) : Except Fault (Nat × Nat) := decodeFrom 0 0 bytes

/-- The values 0, -1, 1, -2, … map to 0, 1, 2, 3, … -/
def zigzag (value : Int) : Nat :=
  if 0 ≤ value then 2 * value.toNat else 2 * (-value).toNat - 1

/-- Undoes `zigzag`. -/
def unzigzag (value : Nat) : Int :=
  if value % 2 = 0 then (value / 2 : Nat) else -((value / 2 : Nat) : Int) - 1

end Varint

end Concordance.Wire
