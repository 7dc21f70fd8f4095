import Concordance.Exchange.Value
import Concordance.Wire.Field

/-!
# Exchange forms of byte streams

A field is an array of its kind and its value; a kind is an array of its name and, for raw bytes,
their count.
-/

namespace Concordance.Exchange

open Wire (Field FieldKind)

/-- The width of a number that is written in a fixed count of bytes. -/
def widthOf : String → Option Nat
  | "u8" => some 1
  | "u16" => some 2
  | "u32" => some 4
  | "u64" => some 8
  | _ => none

def streamField : Json → Option Field
  | .array [.text "varint", v] => (word64 v).map .varint
  | .array [.text "signed", v] => v.asInt.map .signed
  | .array [.text "string", v] => v.asText.map .text
  | .array [.text "bytes", v] => (bytes v).map .bytes
  | .array [.text "raw", v] => (bytes v).map .raw
  | .array [.text "ascending", v] => (v.asList word32).map .ascending
  | .array [.text kind, v] => do return .fixed (← widthOf kind) (← word64 v)
  | _ => none

def streamKind : Json → Option FieldKind
  | .array [.text "varint"] => some .varint
  | .array [.text "signed"] => some .signed
  | .array [.text "string"] => some .text
  | .array [.text "bytes"] => some .bytes
  | .array [.text "raw", length] => (word64 length).map .raw
  | .array [.text "ascending"] => some .ascending
  | .array [.text kind] => (widthOf kind).map .fixed
  | _ => none

def ofField : Field → Json
  | .fixed _ n | .varint n => .ofNat n
  | .signed n => .ofInt n
  | .text s => .text s
  | .bytes b | .raw b => ofBytes b
  | .ascending l => ofNats l

end Concordance.Exchange
