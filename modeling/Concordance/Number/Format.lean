import Concordance.Number.Double
import Concordance.Number.Dyadic
import Concordance.Text.Blank

/-!
# Numbers as text

Doubles are written in three ways: plainly (the shortest digits, never an exponent), in JSON (the
shortest digits, a signed exponent outside `10^-5 … 10^16`), and with a fixed number of places.
Numbers are read from an optional sign, digits, an optional point and an optional exponent.

Every double but the infinite ones and NaN is the nearest double to a whole interval of reals. Its
shortest decimal is the decimal with the fewest digits in that interval; of two of them it is the
nearer one, and of two equally near ones the one that a `TieRule` names.
-/

namespace Concordance.Number

/-! ## The shortest decimal of a double -/

/-- Which of two equally near decimals is taken. -/
inductive TieRule where
  | greater
  | even
  deriving DecidableEq, Repr

/-- A positive decimal `digits · 10 ^ exponent`. -/
structure Decimal where
  digits : Nat
  exponent : Int
  deriving DecidableEq, Repr

/-- The reals that round to a double, as multiples of one unit: its ends, itself, and whether the
ends belong to it. Digits are counted on a grid of `step` units. -/
structure Rounding where
  low : Nat
  value : Nat
  high : Nat
  closed : Bool

/-- Whether a number of units rounds to the double. -/
def Rounding.contains (r : Rounding) (n : Nat) : Bool :=
  if r.closed then r.low ≤ n && n ≤ r.high else r.low < n && n < r.high

/-- The multiple of `step` units that rounds to the double and is nearest to it, if there is one. -/
def Rounding.onGrid (r : Rounding) (step : Nat) (tie : TieRule) : Option Nat :=
  let below := r.value / step
  let above := below + 1
  match r.contains (below * step), r.contains (above * step) with
  | false, false => none
  | true, false => some below
  | false, true => some above
  | true, true =>
    match compare (2 * (r.value - below * step)) step with
    | .lt => some below
    | .gt => some above
    | .eq => if tie = .even ∧ below % 2 = 0 then some below else some above

/-- The interval of a dyadic value in units of `10 ^ exponent`, times a common factor, and the
factor. -/
def Dyadic.rounding (d : Dyadic) (exponent : Int) : Rounding × Nat :=
  let twos := d.exponent - 2
  let scale := twoTo twos.toNat * tenTo (-exponent).toNat
  let unit := twoTo (-twos).toNat * tenTo exponent.toNat
  let mid := 4 * d.mantissa
  (⟨(if d.lowerIsNearer then mid - 1 else mid - 2) * scale, mid * scale, (mid + 2) * scale,
    d.mantissa % 2 = 0⟩, unit)

/-- Tries grids from `exponent` downwards, each ten times as fine as the one before. -/
def Dyadic.search (d : Dyadic) (tie : TieRule) : (grids : Nat) → (exponent : Int) → Decimal
  | 0, exponent => ⟨0, exponent⟩
  | grids + 1, exponent =>
    let (interval, unit) := d.rounding exponent
    match interval.onGrid unit tie with
    | some digits => ⟨digits, exponent⟩
    | none => d.search tie grids (exponent - 1)

/-- An exponent of ten whose power is at least the value. -/
def Dyadic.magnitude (d : Dyadic) : Int :=
  let bits : Int := d.mantissa.log2 + 1 + d.exponent
  if 0 ≤ bits then bits * 30103 / 100000 + 1 else -(-bits * 30102 / 100000) + 1

/-- Drops zeros at the end of the digits. -/
def stripZeros : (fuel : Nat) → Decimal → Decimal
  | 0, d => d
  | fuel + 1, d =>
    if d.digits ≠ 0 ∧ d.digits % 10 = 0 then stripZeros fuel ⟨d.digits / 10, d.exponent + 1⟩ else d

/-- The shortest decimal that rounds to a positive dyadic value. -/
def Dyadic.shortest (d : Dyadic) (tie : TieRule) : Decimal :=
  if d.mantissa = 0 then ⟨0, 0⟩ else stripZeros 20 (d.search tie 20 d.magnitude)

/-! ## Texts -/

def zeros (n : Nat) : String := String.ofList (List.replicate n '0')

/-- The decimal digits of a number. -/
def digitText (n : Nat) : String := String.ofList (Nat.toDigits 10 n)

def signText (x : Double) : String := if x.isNegative then "-" else ""

/-- The digits of a decimal with a point in the right place and no exponent. -/
def Decimal.plain (d : Decimal) : String :=
  let digits := digitText d.digits
  let size := digits.length
  if 0 ≤ d.exponent then digits ++ zeros d.exponent.toNat
  else
    let places := (-d.exponent).toNat
    if places < size then
      String.ofList (digits.toList.take (size - places)) ++ "." ++
        String.ofList (digits.toList.drop (size - places))
    else "0." ++ zeros (places - size) ++ digits

/-- A double with the fewest digits that read back, never with an exponent. Of two equally near
decimals the greater one is taken. -/
def plain (x : Double) : String :=
  match x.classify with
  | .nan => "NaN"
  | .infinite => signText x ++ "inf"
  | .finite d => signText x ++ (d.shortest .greater).plain

/-- A whole number with its sign, be it positive or negative. -/
def signedText (n : Int) : String := if 0 ≤ n then "+" ++ toString n else toString n

/-- The digits of a decimal in JSON: with a point, and with an exponent where the point would stand
far from the digits. -/
def Decimal.json (d : Decimal) : String :=
  let digits := digitText d.digits
  let size := digits.length
  let point : Int := size + d.exponent
  if 0 ≤ d.exponent ∧ point ≤ 16 then digits ++ zeros d.exponent.toNat ++ ".0"
  else if -5 < point ∧ point ≤ 16 then d.plain
  else
    let lead := String.ofList (digits.toList.take 1)
    let more := String.ofList (digits.toList.drop 1)
    lead ++ (if more.isEmpty then "" else "." ++ more) ++ "e" ++ signedText (point - 1)

/-- A finite double as a JSON number. Of two equally near decimals the even one is taken. There is
no JSON number for the others. -/
def json? (x : Double) : Option String :=
  match x.classify with
  | .finite d =>
    some (signText x ++ if d.mantissa = 0 then "0.0" else (d.shortest .even).json)
  | _ => none

/-- A double with a fixed number of places; a half of the last place goes to the even digit. -/
def fixed (places : Nat) (x : Double) : String :=
  match x.classify with
  | .nan => "NaN"
  | .infinite => signText x ++ "inf"
  | .finite d =>
    let (num, den) := scaleDown (d.mantissa * tenTo places) 1 (-d.exponent)
    let digits := digitText (roundHalfEven num den)
    let padded := zeros (places + 1 - digits.length) ++ digits
    let whole := padded.length - places
    signText x ++ String.ofList (padded.toList.take whole) ++
      (if places = 0 then "" else "." ++ String.ofList (padded.toList.drop whole))

/-! ## Reading -/

/-- The number that decimal digits stand for. -/
def natOfDigits (cs : List Char) : Nat := cs.foldl (fun n c => 10 * n + (c.toNat - '0'.toNat)) 0

/-- An unsigned number below a limit: digits, after a plus sign if there is one. -/
def readNat (limit : Nat) (s : String) : Option Nat :=
  let cs := match s.toList with
    | '+' :: rest => rest
    | cs => cs
  if cs.isEmpty ∨ !cs.all Char.isDigit then none
  else if natOfDigits cs < limit then some (natOfDigits cs) else none

/-- Reads an exponent: `e` or `E`, an optional sign and digits. Nothing at all is exponent 0. -/
def readExponent : List Char → Option Int
  | [] => some 0
  | c :: rest =>
    if c = 'e' ∨ c = 'E' then
      let (negative, digits) := match rest with
        | '+' :: ds => (false, ds)
        | '-' :: ds => (true, ds)
        | ds => (false, ds)
      if digits.isEmpty ∨ !digits.all Char.isDigit then none
      else some (if negative then -(natOfDigits digits : Int) else natOfDigits digits)
    else none

/-- Reads an unsigned decimal with an optional point and exponent; a digit has to stand on one side
of the point. -/
def readDecimal (negative : Bool) (cs : List Char) : Option Double :=
  let whole := cs.takeWhile Char.isDigit
  let rest := cs.dropWhile Char.isDigit
  let (places, rest) := match rest with
    | '.' :: more => (more.takeWhile Char.isDigit, more.dropWhile Char.isDigit)
    | _ => ([], rest)
  if whole.isEmpty ∧ places.isEmpty then none
  else (readExponent rest).map fun exponent =>
    Double.ofDecimal negative (natOfDigits (whole ++ places)) (exponent - places.length)

/-- Reads a double: an optional sign, then a decimal, `inf`, `infinity` or `nan` in any case. -/
def readDouble (s : String) : Option Double :=
  let (negative, cs) := match s.toList with
    | '+' :: rest => (false, rest)
    | '-' :: rest => (true, rest)
    | cs => (false, cs)
  match String.ofList (cs.map Char.toLower) with
  | "inf" | "infinity" => some (if negative then -Double.infinity else Double.infinity)
  | "nan" => some (if negative then -Double.nan else Double.nan)
  | _ => readDecimal negative cs

end Concordance.Number
