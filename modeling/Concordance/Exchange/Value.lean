import Concordance.Document.Basic
import Concordance.Json.Basic
import Concordance.Number.Double
import Concordance.Statistics.Basic

/-!
# Exchange forms of values

Tools that feed or watch an index do so in JSON, in forms that lose nothing: numeric values say of
which kind they are, doubles are written by their bits, and bytes as pairs of hexadecimal digits in
lower case. Small structures are arrays of their fields. A reader answers nothing when a value has
another form.
-/

/-! ## Hexadecimal text -/

namespace Concordance.Text.Hex

/-- The digits of a number, padded with zeros to a width. -/
def ofNat (n width : Nat) : String :=
  let digits := Nat.toDigits 16 n
  String.ofList (List.replicate (width - digits.length) '0' ++ digits)

def ofBytes (bytes : List UInt8) : String := String.join (bytes.map fun b => ofNat b.toNat 2)

def digit? (c : Char) : Option Nat :=
  if '0' ≤ c ∧ c ≤ '9' then some (c.toNat - '0'.toNat)
  else if 'a' ≤ c ∧ c ≤ 'f' then some (c.toNat - 'a'.toNat + 10)
  else if 'A' ≤ c ∧ c ≤ 'F' then some (c.toNat - 'A'.toNat + 10)
  else none

def bytesOfChars? : List Char → Option (List UInt8)
  | [] => some []
  | high :: low :: rest => do
    return (16 * (← digit? high) + (← digit? low)).toUInt8 :: (← bytesOfChars? rest)
  | [_] => none

def toBytes? (s : String) : Option (List UInt8) := bytesOfChars? s.toList

end Concordance.Text.Hex

namespace Concordance.Exchange

/-! ## Writing -/

/-- Bytes as hexadecimal text. -/
def ofBytes (bytes : List UInt8) : Json := .text (Text.Hex.ofBytes bytes)

/-- Whole numbers. -/
def ofNats (l : List Nat) : Json := .array (l.map .ofNat)

/-- A double by its bits; all NaNs are one. -/
def ofDouble (x : Double) : Json :=
  .text (if x.isNaN then "nan" else Text.Hex.ofNat x.bits.toNat 16)

/-- Something or `null`. -/
def ofOption {α : Type} (write : α → Json) (a : Option α) : Json := .ofOption (a.map write)

/-- Several things. -/
def ofList {α : Type} (write : α → Json) (l : List α) : Json := .array (l.map write)

/-- A comparison as the sign of a difference. -/
def ofOrdering : Ordering → Json
  | .lt => .ofInt (-1)
  | .eq => .ofInt 0
  | .gt => .ofInt 1

def ofNumeric : Numeric → Json
  | .int n => .object [("i", .ofInt n)]
  | .uint n => .object [("u", .ofNat n)]
  | .double x => .object [("f", ofDouble x)]

/-- A timestamp. -/
def ofStamp (t : Statistics.TimeStamp) : Json := ofNats [t.seconds, t.counter]

/-- A term with something about it. -/
def ofTerm (t : Term) (more : List Json) : Json := .array (.text t.type :: .text t.value :: more)

def ofTextMap (m : SortedMap String String) : Json :=
  .object (m.toList.map fun (name, s) => (name, .text s))

/-! ## Reading -/

/-- Bytes from hexadecimal text. -/
def bytes (v : Json) : Option (List UInt8) := v.asText.bind Text.Hex.toBytes?

/-- A number of 32 bits. -/
def word32 (v : Json) : Option Nat := v.asNat Wire.word32

/-- A number of 64 bits. -/
def word64 (v : Json) : Option Nat := v.asNat Wire.word64

/-- A double: a number, or the name of what numbers cannot say. -/
def double : Json → Option Double
  | .text "nan" => some Double.nan
  | .text "inf" => some Double.infinity
  | .text "-inf" => some (-Double.infinity)
  | .text "-0" => some (-0.0)
  | v => v.asDouble

def doubleMap (v : Json) : Option (SortedMap String Double) := v.asMap double

def numeric : Json → Option Numeric
  | .object [("i", v)] => v.asInt.map .int
  | .object [("u", v)] => (word64 v).map .uint
  | .object [("f", v)] => (double v).map .double
  | _ => none

/-- A timestamp. -/
def stamp : Json → Option Statistics.TimeStamp
  | .array [seconds, counter] => do return ⟨← word64 seconds, ← word64 counter⟩
  | _ => none

def term : Json → Option Term
  | .array [type, value] => do return ⟨← type.asText, ← value.asText⟩
  | _ => none

/-- What is read, or the error that it has another form. -/
def required {α : Type} (what : String) : Option α → Except Error α
  | some a => .ok a
  | none => .error (.json s!"malformed {what}")

end Concordance.Exchange
