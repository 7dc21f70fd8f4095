/-!
# Whole and dyadic numbers

A finite double is a whole number times a power of two. `Dyadic` is that reading of its 64 bits, its
sign apart; exact arithmetic on doubles is arithmetic on it. `bitsOfRatio` goes the other way: the
double nearest to a quotient, a half going to the even neighbour.
-/

namespace Concordance.Number

/-! ## Whole numbers -/

def twoTo (exponent : Nat) : Nat := Nat.pow 2 exponent

def tenTo (exponent : Nat) : Nat := Nat.pow 10 exponent

/-- Half the number of words of 64 bits, one more than the greatest signed one: 2^63. -/
def half64 : Nat := 9223372036854775808

def total : List Nat → Nat
  | [] => 0
  | n :: rest => n + total rest

/-! ## Dyadic numbers -/

/-- The value `mantissa · 2 ^ exponent` of a finite double without its sign. -/
structure Dyadic where
  mantissa : Nat
  exponent : Int
  /-- The next smaller double is only half as far away as the next greater one. -/
  lowerIsNearer : Bool
  deriving DecidableEq, Repr

def Dyadic.whole (d : Dyadic) : Nat :=
  if 0 ≤ d.exponent then d.mantissa * twoTo d.exponent.toNat
  else d.mantissa / twoTo (-d.exponent).toNat

/-- Whether a dyadic number has no fraction. -/
def Dyadic.isWhole (d : Dyadic) : Bool :=
  0 ≤ d.exponent || d.mantissa % twoTo (-d.exponent).toNat = 0

/-! ## The fields of a double -/

/-- The fraction field of a double. -/
def fractionField (bits : UInt64) : Nat := bits.toNat % twoTo 52

/-- The exponent field of a double. -/
def exponentField (bits : UInt64) : Nat := bits.toNat / twoTo 52 % twoTo 11

/-- The kinds of doubles. -/
inductive DoubleClass where
  | nan
  | infinite
  | finite (value : Dyadic)
  deriving DecidableEq, Repr

/-- Reads the fields of a double, its sign apart. -/
def classify (bits : UInt64) : DoubleClass :=
  let fraction := fractionField bits
  match exponentField bits with
  | 0 => .finite ⟨fraction, -1074, false⟩
  | 2047 => if fraction = 0 then .infinite else .nan
  | field => .finite ⟨twoTo 52 + fraction, (field : Int) - 1075, fraction = 0 && 1 < field⟩

/-! ## Rounding -/

/-- A quotient rounded to the nearest integer, a half to the even neighbour. -/
def roundHalfEven (num den : Nat) : Nat :=
  let floor := num / den
  match compare (2 * (num % den)) den with
  | .lt => floor
  | .gt => floor + 1
  | .eq => floor + floor % 2

/-- The quotient of `num · 2 ^ -exponent` and `den`, as numerator and denominator. -/
def scaleDown (num den : Nat) (exponent : Int) : Nat × Nat :=
  if 0 ≤ exponent then (num, den * twoTo exponent.toNat) else (num * twoTo (-exponent).toNat, den)

/-- A binary format of floats: so many bits of fraction behind the leading one, the exponent of the last
place of its smallest numbers, and the exponent field of what is not finite. -/
structure FloatFormat where
  fractionWidth : Nat
  leastExponent : Int
  topField : Nat

/-- Floats of 64 bits. -/
def FloatFormat.double : FloatFormat := ⟨52, -1074, 2047⟩

/-- Floats of 32 bits. -/
def FloatFormat.single : FloatFormat := ⟨23, -149, 255⟩

/-- The bits of the float nearest to `num / den`, a half going to the even neighbour. -/
def FloatFormat.nearest (f : FloatFormat) (num den : Nat) : Nat :=
  if num = 0 ∨ den = 0 then 0
  else
    let precision := f.fractionWidth + 1
    let guess : Int := (num.log2 : Int) - den.log2 - precision
    let (n, d) := scaleDown num den guess
    let exponent :=
      max f.leastExponent (if twoTo precision ≤ n / d then guess + 1 else guess)
    let (n, d) := scaleDown num den exponent
    let mantissa := roundHalfEven n d
    if mantissa < twoTo f.fractionWidth then mantissa
    else
      let bits := (exponent - f.leastExponent).toNat * twoTo f.fractionWidth + mantissa
      min bits (f.topField * twoTo f.fractionWidth)

/-- The bits of the double nearest to `num / den`, a half going to the even neighbour. -/
def bitsOfRatio (num den : Nat) : UInt64 := (FloatFormat.double.nearest num den).toUInt64

end Concordance.Number
