/-!
# Malformed text

Where bytes stop being UTF-8, and how many of the bytes from there on belong to one damaged
character. A character is its first byte and the following bytes, each of which has to lie in a
range that the first byte decides. `repair` puts something else in the place of damaged characters.
-/

namespace Concordance.Text.Utf8

/-- Where bytes stop being text. -/
structure Fault where
  /-- The count of bytes before the damaged character. -/
  index : Nat
  /-- The count of bytes of the damaged character, unknown if the bytes end inside it. -/
  length : Option Nat
  deriving DecidableEq, Repr, Inhabited

/-- The range of a following byte that the first byte does not restrict further. -/
def anyFollower : Nat × Nat := (0x80, 0xBF)

/-- The ranges of the bytes that follow a first byte. -/
def followers (first : Nat) : Option (List (Nat × Nat)) :=
  if first < 0x80 then some []
  else if first < 0xC2 then none
  else if first < 0xE0 then some [anyFollower]
  else if first < 0xF0 then
    let second := if first = 0xE0 then (0xA0, 0xBF) else if first = 0xED then (0x80, 0x9F) else anyFollower
    some [second, anyFollower]
  else if first < 0xF5 then
    let second := if first = 0xF0 then (0x90, 0xBF) else if first = 0xF4 then (0x80, 0x8F) else anyFollower
    some [second, anyFollower, anyFollower]
  else none

/-- How the bytes behind a first byte go on. -/
inductive Tail where
  /-- All following bytes are there. -/
  | complete
  /-- The byte at an offset from the first one does not belong to the character. -/
  | broken (offset : Nat)
  | cutOff
  deriving DecidableEq, Repr

/-- Compares following bytes with their ranges. -/
def checkTail (offset : Nat) : List (Nat × Nat) → List UInt8 → Tail
  | [], _ => .complete
  | _ :: _, [] => .cutOff
  | (low, high) :: ranges, byte :: rest =>
    if low ≤ byte.toNat ∧ byte.toNat ≤ high then checkTail (offset + 1) ranges rest
    else .broken offset

/-- The first place where bytes stop being text, for bytes that start at an index; `skip` of them
belong to a character that has been checked. -/
def faultFrom (index skip : Nat) : List UInt8 → Option Fault
  | [] => none
  | byte :: rest =>
    match skip with
    | skip + 1 => faultFrom (index + 1) skip rest
    | 0 =>
      match followers byte.toNat with
      | none => some ⟨index, some 1⟩
      | some ranges =>
        match checkTail 1 ranges rest with
        | .complete => faultFrom (index + 1) ranges.length rest
        | .broken offset => some ⟨index, some offset⟩
        | .cutOff => some ⟨index, none⟩

/-- The first place where bytes stop being text. -/
def fault? (bytes : List UInt8) : Option Fault := faultFrom 0 0 bytes

/-- The text of bytes that are UTF-8. -/
def text (bytes : List UInt8) : String := (String.fromUTF8? ⟨bytes.toArray⟩).getD ""

/-- The text of at most so many stretches of bytes, with a replacement between them for the damaged
characters. -/
def repairFrom (replacement : String) : (stretches : Nat) → List UInt8 → String
  | 0, _ => ""
  | stretches + 1, bytes =>
    match fault? bytes with
    | none => text bytes
    | some f =>
      text (bytes.take f.index) ++ replacement ++
        repairFrom replacement stretches (bytes.drop (f.index + f.length.getD bytes.length))

/-- The text of bytes, with a replacement for every damaged character. A stretch takes at least one
byte, so their number is enough. -/
def repair (replacement : String) (bytes : List UInt8) : String :=
  repairFrom replacement (bytes.length + 1) bytes

def Fault.message (f : Fault) : String :=
  match f.length with
  | some length => s!"invalid utf-8 sequence of {length} bytes from index {f.index}"
  | none => s!"incomplete utf-8 byte sequence from index {f.index}"

end Concordance.Text.Utf8
