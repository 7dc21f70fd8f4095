import Concordance.Number.Double

/-!
# The total order of doubles

`Double.totalCompare` compares places (`Double.totalKey`), and different doubles have different
places (`totalKey_injective`). So it orders all doubles, and it is the order that goes by the
numbers where there are numbers, puts -0 in front of 0, and has the NaNs at both ends, those with a
sign in front (`isTotalOrder_totalCompare`).
-/

namespace Concordance.Double

/-- The total order of all doubles. -/
structure IsTotalOrder (below : Double → Double → Prop) : Prop where
  asymm : ∀ x y, below x y → ¬ below y x
  connected : ∀ x y, below x y ∨ x = y ∨ below y x
  trans : ∀ x y z, below x y → below y z → below x z
  numbers : ∀ x y, x < y → below x y
  zeros : ∀ x y, x.isZero = true → y.isZero = true → x.isNegative = true → y.isNegative = false →
    below x y
  /-- NaNs with a sign come first. -/
  first : ∀ x y, x.isNaN = true → x.isNegative = true → (y.isNaN = true → y.isNegative = false) →
    below x y
  /-- NaNs without a sign come last. -/
  last : ∀ x y, y.isNaN = true → y.isNegative = false → (x.isNaN = true → x.isNegative = true) →
    below x y
  /-- What NaNs of one sign carry takes them away from the numbers. -/
  payloads : ∀ x y, x.isNaN = true → y.isNaN = true → x.magnitude < y.magnitude →
    (x.isNegative = false → y.isNegative = false → below x y) ∧
      (x.isNegative = true → y.isNegative = true → below y x)

/-- The bits of a double are its magnitude and, if it has a sign, the sign bit. -/
theorem bits_eq (x : Double) :
    x.bits.toNat = x.magnitude + if x.isNegative then Number.half64 else 0 := by
  have hbits := x.bits.toNat_lt
  unfold magnitude isNegative Number.half64
  split
  · next h =>
      have := of_decide_eq_true h
      omega
  · next h =>
      have := of_decide_eq_false (Bool.eq_false_iff.mpr h)
      omega

theorem totalKey_of_neg {x : Double} (h : x.isNegative = true) :
    x.totalKey = -(x.magnitude : Int) - 1 := if_pos h

theorem totalKey_of_nonneg {x : Double} (h : x.isNegative = false) : x.totalKey = x.magnitude :=
  if_neg (Bool.eq_false_iff.mp h)

/-- Different doubles have different places in the total order. -/
theorem totalKey_injective {x y : Double} (h : x.totalKey = y.totalKey) : x = y := by
  have hx := x.bits_eq
  have hy := y.bits_eq
  have hbits : x.bits.toNat = y.bits.toNat := by
    unfold totalKey at h
    split at h <;> split at h <;> simp_all <;> omega
  cases x
  cases y
  exact congrArg mk (UInt64.toNat_inj.mp hbits)

/-- The NaNs are the doubles farther from zero than the infinities. -/
theorem isNaN_iff {x : Double} : x.isNaN = true ↔ infinity.magnitude < x.magnitude := by
  have hinfinity : infinity.magnitude = 9218868437227405312 := by decide
  have htwo : Number.twoTo 52 = 4503599627370496 := by decide
  have htop : Number.twoTo 11 = 2048 := by decide
  rw [hinfinity]
  unfold isNaN classify Number.classify magnitude Number.exponentField Number.fractionField
    Number.half64
  rw [htwo, htop]
  dsimp only
  split
  · next hfield => simp; omega
  · next hfield =>
      split
      · next hfraction => simp; omega
      · next hfraction => simp; omega
  · next hzero hfield =>
      simp
      have : x.bits.toNat / 4503599627370496 % 2048 ≠ 2047 := hfield
      omega

theorem totalCompare_eq_lt {x y : Double} : x.totalCompare y = .lt ↔ x.totalKey < y.totalKey :=
  Int.compare_eq_lt

/-- A number below another one has the smaller place; two zeros are one number. -/
theorem lt_iff {x y : Double} :
    x < y ↔ x.isNaN = false ∧ y.isNaN = false ∧ x.place < y.place := by
  show x.compare? y = some .lt ↔ _
  unfold compare?
  cases x.isNaN <;> cases y.isNaN <;> simp [Int.compare_eq_lt]

/-- The comparison of all doubles is the total order. -/
theorem isTotalOrder_totalCompare : IsTotalOrder fun x y => x.totalCompare y = .lt := by
  constructor <;> simp only [totalCompare_eq_lt]
  case asymm =>
    intro x y h
    omega
  case connected =>
    intro x y
    rcases Int.lt_trichotomy x.totalKey y.totalKey with h | h | h
    · exact .inl h
    · exact .inr (.inl (totalKey_injective h))
    · exact .inr (.inr h)
  case trans =>
    intro x y z
    exact Int.lt_trans
  case numbers =>
    intro x y h
    have hplace := (lt_iff.mp h).2.2
    unfold place at hplace
    unfold totalKey
    grind
  case zeros =>
    intro x y hx hy hneg hpos
    simp only [isZero, decide_eq_true_eq] at hx hy
    rw [totalKey_of_neg hneg, totalKey_of_nonneg hpos]
    omega
  case first =>
    intro x y hx hneg hy
    rw [isNaN_iff] at hx hy
    rw [totalKey_of_neg hneg]
    cases hsign : y.isNegative with
    | false =>
        rw [totalKey_of_nonneg hsign]
        omega
    | true =>
        have : ¬ infinity.magnitude < y.magnitude := fun h => by simp [hy h] at hsign
        rw [totalKey_of_neg hsign]
        omega
  case last =>
    intro x y hy hpos hx
    rw [isNaN_iff] at hx hy
    rw [totalKey_of_nonneg hpos]
    cases hsign : x.isNegative with
    | true =>
        rw [totalKey_of_neg hsign]
        omega
    | false =>
        have : ¬ infinity.magnitude < x.magnitude := fun h => by simp [hx h] at hsign
        rw [totalKey_of_nonneg hsign]
        omega
  case payloads =>
    intro x y _ _ h
    constructor
    · intro hx hy
      rw [totalKey_of_nonneg hx, totalKey_of_nonneg hy]
      omega
    · intro hx hy
      rw [totalKey_of_neg hx, totalKey_of_neg hy]
      omega

end Concordance.Double
