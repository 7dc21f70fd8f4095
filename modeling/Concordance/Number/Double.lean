import Concordance.Number.Dyadic

/-!
# Doubles

A double is a word of 64 bits. It is compared and converted by its bits; arithmetic rounds to the
nearest double, a half to the even neighbour. NaNs differ in sign and payload, and the total order
shows the difference, so arithmetic says which NaN comes out: an operand that is a NaN passes
through, the left one first, and an operation that has no value gives `indefinite`.
-/

namespace Concordance

/-- A double, by its bits. -/
structure Double where
  bits : UInt64
  deriving DecidableEq, Repr, Inhabited

namespace Double

open Number

/-- The kind of a double, its sign apart. -/
def classify (x : Double) : DoubleClass := Number.classify x.bits

/-- Whether the sign bit of a double is set. -/
def isNegative (x : Double) : Bool := half64 ≤ x.bits.toNat

/-- Whether a double is not a number. -/
def isNaN (x : Double) : Bool := x.classify = .nan

/-- Whether a double is one of the two infinities. -/
def isInfinite (x : Double) : Bool := x.classify = .infinite

def infinity : Double := ⟨0x7FF0000000000000⟩

/-- The NaN without a sign. -/
def nan : Double := ⟨0x7FF8000000000000⟩

/-- The NaN of an operation that has no value, such as the difference of two infinities. -/
def indefinite : Double := ⟨0xFFF8000000000000⟩

/-! ## Order -/

/-- The bits of a double without its sign, which grow with its distance from zero. -/
def magnitude (x : Double) : Nat := x.bits.toNat % half64

/-- The place of a double among all numbers, both zeros at 0. -/
def place (x : Double) : Int := if x.isNegative then -(x.magnitude : Int) else x.magnitude

/-- Compares doubles as numbers; NaN compares with nothing. -/
def compare? (x y : Double) : Option Ordering :=
  if x.isNaN || y.isNaN then none else some (compare x.place y.place)

instance : LT Double := ⟨fun x y => x.compare? y = some .lt⟩

instance : LE Double := ⟨fun x y => x.compare? y = some .lt ∨ x.compare? y = some .eq⟩

instance (x y : Double) : Decidable (x < y) := inferInstanceAs (Decidable (_ = _))

instance (x y : Double) : Decidable (x ≤ y) := inferInstanceAs (Decidable (_ ∨ _))

/-- Whether a double is one of the two zeros. -/
def isZero (x : Double) : Bool := x.magnitude = 0

/-- The place of a double in the total order of all doubles, in which -0 comes before 0 and NaNs
stand at both ends. -/
def totalKey (x : Double) : Int :=
  if x.isNegative then -(x.magnitude : Int) - 1 else x.magnitude

/-- Compares doubles in the total order. -/
def totalCompare (x y : Double) : Ordering := compare x.totalKey y.totalKey

/-! ## Arithmetic -/

/-- A double with the other sign, be it a NaN or not. -/
instance : Neg Double := ⟨fun x => ⟨x.bits ^^^ 0x8000000000000000⟩⟩

/-- A double without its sign. -/
def abs (x : Double) : Double := ⟨x.bits &&& 0x7FFFFFFFFFFFFFFF⟩

/-- A NaN with its quiet bit set. -/
def quieted (x : Double) : Double := ⟨x.bits ||| 0x0008000000000000⟩

/-- A number rounded by the arithmetic of the machine; one that is no number is `indefinite`. -/
def ofResult (r : Float) : Double := if r.isNaN then indefinite else ⟨r.toBits⟩

/-- The result of an operation on two doubles. -/
def operate (op : Float → Float → Float) (x y : Double) : Double :=
  if x.isNaN then x.quieted
  else if y.isNaN then y.quieted
  else ofResult (op (Float.ofBits x.bits) (Float.ofBits y.bits))

instance : Add Double := ⟨operate (· + ·)⟩

instance : Sub Double := ⟨operate (· - ·)⟩

instance : Mul Double := ⟨operate (· * ·)⟩

instance : Div Double := ⟨operate (· / ·)⟩

/-- The natural logarithm. -/
def log (x : Double) : Double :=
  if x.isNaN then x.quieted else ofResult (Float.ofBits x.bits).log

/-! ## Conversion -/

/-- The double nearest to `± num / den`. -/
def ofRatio (negative : Bool) (num den : Nat) : Double :=
  let x : Double := ⟨bitsOfRatio num den⟩
  if negative then -x else x

/-- The double nearest to a number. -/
def ofNat (n : Nat) : Double := ofRatio false n 1

/-- The double nearest to an integer. -/
def ofInt (n : Int) : Double := ofRatio (n < 0) n.natAbs 1

/-- The double nearest to `± digits · 10 ^ exponent`. Exponents outside the range of doubles give
infinity or zero without being computed. -/
def ofDecimal (negative : Bool) (digits : Nat) (exponent : Int) : Double :=
  let size : Int := (Nat.toDigits 10 digits).length
  if digits = 0 ∨ size + exponent < -330 then ofRatio negative 0 1
  else if 310 < size + exponent then ofRatio negative (twoTo 1024) 1
  else if 0 ≤ exponent then ofRatio negative (digits * tenTo exponent.toNat) 1
  else ofRatio negative digits (tenTo (-exponent).toNat)

instance : OfScientific Double :=
  ⟨fun digits down exponent =>
    ofDecimal false digits (if down then -(exponent : Int) else exponent)⟩

def isWhole (x : Double) : Bool :=
  match x.classify with
  | .finite d => d.isWhole
  | _ => false

/-- A double without its fraction, brought into a range; NaN counts as 0. -/
def truncate (least greatest : Int) (x : Double) : Int :=
  match x.classify with
  | .nan => 0
  | .infinite => if x.isNegative then least else greatest
  | .finite d =>
    let n : Int := if x.isNegative then -(d.whole : Int) else d.whole
    max least (min n greatest)

/-- A double without its fraction as a signed number of 64 bits; what does not fit is clamped. -/
def toInt (x : Double) : Int := x.truncate (-(half64 : Int)) ((half64 : Int) - 1)

/-- A double without its fraction as a number of 64 bits; what does not fit is clamped. -/
def toNat (x : Double) : Nat := (x.truncate 0 (2 * (half64 : Int) - 1)).toNat

/-! ## Single precision -/

/-- The bits of the single precision float nearest to a number. -/
def toSingle (x : Double) : UInt32 :=
  let sign : UInt32 := if x.isNegative then 0x80000000 else 0
  match x.classify with
  | .nan => 0x7FC00000
  | .infinite => sign ||| 0x7F800000
  | .finite d =>
    let (num, den) := scaleDown d.mantissa 1 (-d.exponent)
    sign ||| (FloatFormat.single.nearest num den).toUInt32

/-- The double of a single precision float. The sign and the payload of a NaN are kept. -/
def ofSingle (bits : UInt32) : Double :=
  let sign : UInt64 := if bits &&& 0x80000000 = 0 then 0 else 0x8000000000000000
  let fraction := bits.toNat % twoTo 23
  match bits.toNat / twoTo 23 % twoTo 8 with
  | 0 => ⟨sign ||| bitsOfRatio fraction (twoTo 149)⟩
  | 255 =>
    if fraction = 0 then ⟨sign ||| 0x7FF0000000000000⟩
    else ⟨sign ||| 0x7FF8000000000000 ||| ((bits &&& 0x7FFFFF).toUInt64 <<< (29 : UInt64))⟩
  | field =>
    let (num, den) := scaleDown (twoTo 23 + fraction) 1 (150 - (field : Int))
    ⟨sign ||| bitsOfRatio num den⟩

end Double

end Concordance
