import Concordance.Document.Basic
import Concordance.Error
import Concordance.Text.Split
import Concordance.Wire.Reader

/-!
# Column types

A metadata column holds integers of one, two or four bytes, with or without a sign, or single
precision floats. `encode` refuses a value that the type cannot represent; `encodeClamped` takes
the nearest value that it can.
-/

namespace Concordance

/-- The type of a metadata column. -/
inductive ColumnType where
  | int8
  | uint8
  | int16
  | uint16
  | int32
  | uint32
  | float32
  deriving DecidableEq, Repr, Inhabited

/-- Why a value does not fit a column type. -/
inductive Misfit where
  | notInteger (value : Numeric) (type : ColumnType)
  | integerRange (value : Int) (type : ColumnType)
  | floatRange (value : Numeric)

namespace ColumnType

/-- The width of a value in bytes. -/
def size : ColumnType → Nat
  | int8 | uint8 => 1
  | int16 | uint16 => 2
  | int32 | uint32 | float32 => 4

/-- Whether integers of the type have a sign. -/
def isSigned : ColumnType → Bool
  | int8 | int16 | int32 => true
  | _ => false

/-- The name of the type in a schema. -/
def name : ColumnType → String
  | int8 => "INT8"
  | uint8 => "UINT8"
  | int16 => "INT16"
  | uint16 => "UINT16"
  | int32 => "INT32"
  | uint32 => "UINT32"
  | float32 => "FLOAT32"

/-- The type of a name, in any case; `FLOAT` is a second name of the float type. -/
def parse (s : String) : Except Error ColumnType :=
  match Text.upperAscii (Text.trim s) with
  | "INT8" => .ok int8
  | "UINT8" => .ok uint8
  | "INT16" => .ok int16
  | "UINT16" => .ok uint16
  | "INT32" => .ok int32
  | "UINT32" => .ok uint32
  | "FLOAT32" | "FLOAT" => .ok float32
  | other => .error (.config s!"unknown metadata type '{other}'")

/-- The number of values that an integer type can tell apart. -/
def span (t : ColumnType) : Int := Number.twoTo (8 * t.size)

/-- The least integer of an integer type. -/
def least (t : ColumnType) : Int := if t.isSigned then -(t.span / 2) else 0

/-- The greatest integer of an integer type. -/
def greatest (t : ColumnType) : Int := t.least + t.span - 1

/-- The bytes of an integer, modulo the span of its type. -/
def integerBytes (t : ColumnType) (n : Int) : List UInt8 :=
  Wire.littleEndian t.size (n % t.span).toNat

def floatBytes (x : Double) : List UInt8 := Wire.littleEndian 4 x.toSingle.toNat

/-- The greatest single precision float. -/
def greatestFloat : Double := ⟨0x47EFFFFFE0000000⟩

/-- The bytes of a value, if the type can represent it. -/
def encode (t : ColumnType) (value : Numeric) : Except Misfit (List UInt8) :=
  if t = float32 then
    let x := value.toDouble
    if x.abs ≤ greatestFloat then .ok (floatBytes x) else .error (.floatRange value)
  else
    match value.toInt? with
    | none => .error (.notInteger value t)
    | some n =>
      if t.least ≤ n ∧ n ≤ t.greatest then .ok (t.integerBytes n) else .error (.integerRange n t)

/-- The bytes of the integer of the type that is nearest to a given one. -/
def encodeClamped (t : ColumnType) (n : Int) : List UInt8 :=
  if t = float32 then floatBytes (.ofInt n)
  else t.integerBytes (max t.least (min n t.greatest))

/-- The value that bytes start with; those behind it do not count. -/
def decode (t : ColumnType) (bytes : List UInt8) : Numeric :=
  let n := Wire.ofLittleEndian (bytes.take t.size)
  if t = float32 then .double (.ofSingle n.toUInt32)
  else if t.isSigned then .int (if (n : Int) ≤ t.greatest then n else (n : Int) - t.span)
  else .uint n

/-- The bytes of the value zero. -/
def zeroBytes (t : ColumnType) : List UInt8 := List.replicate t.size 0

end ColumnType

def Misfit.message : Misfit → String
  | .notInteger value type =>
    "value " ++ value.display ++ " is not an integer as required by " ++ type.name
  | .integerRange value type => s!"value {value} out of range for " ++ type.name
  | .floatRange value => "value " ++ value.display ++ " out of range for FLOAT32"

end Concordance
