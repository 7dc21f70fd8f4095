import Concordance.Proofs.Metadata.Record

/-!
# The values of columns

A value is a whole number or not, whatever its representation (`integer?`), and a column type can
hold it or not (`Fits`). Encoding succeeds exactly for the values that fit, and an integer column
reads back the number that was encoded: two's complement in the bytes of the type.
-/

namespace Concordance

open Number

/-- The whole number that a double is, however great; nothing if it has a fraction or is no number. -/
def Double.integer? (x : Double) : Option Int :=
  match x.classify with
  | .finite d =>
    if d.isWhole then some (if x.isNegative then -(d.whole : Int) else d.whole) else none
  | _ => none

/-- The whole number that a value is. -/
def Numeric.integer? : Numeric → Option Int
  | .int n => some n
  | .uint n => some n
  | .double x => x.integer?

/-- Inside the words of 64 bits, the reading of a value as an integer does not clamp. -/
theorem Numeric.toInt?_eq_some_iff {v : Numeric} {n : Int} (hlow : -(half64 : Int) < n)
    (hhigh : n < (half64 : Int) - 1) : v.toInt? = some n ↔ v.integer? = some n := by
  have hhalf : (half64 : Int) = 9223372036854775808 := rfl
  cases v with
  | int m => exact Iff.rfl
  | uint m =>
      simp only [toInt?, integer?]
      split
      · exact Iff.rfl
      · next hout =>
          refine iff_of_false (by simp) ?_
          rw [Option.some.injEq]
          omega
  | double x =>
      cases hclass : x.classify with
      | nan => simp [toInt?, integer?, Double.isWhole, Double.integer?, hclass]
      | infinite => simp [toInt?, integer?, Double.isWhole, Double.integer?, hclass]
      | finite d =>
          simp only [toInt?, integer?, Double.isWhole, Double.toInt, Double.truncate,
            Double.integer?, hclass]
          by_cases hwhole : d.isWhole = true
          · rw [if_pos hwhole, if_pos hwhole, Option.some.injEq, Option.some.injEq]
            omega
          · rw [if_neg hwhole, if_neg hwhole]

namespace ColumnType

/-- A column of the type can hold a value. -/
def Fits (t : ColumnType) (v : Numeric) : Prop :=
  if t = .float32 then v.toDouble.abs ≤ greatestFloat
  else ∃ n, v.integer? = some n ∧ t.least ≤ n ∧ n ≤ t.greatest

/-- The integers of a type are far from where words of 64 bits end. -/
theorem range_inside (t : ColumnType) :
    -(half64 : Int) < t.least ∧ t.greatest < (half64 : Int) - 1 := by
  cases t <;> decide

theorem toInt?_iff_of_range {t : ColumnType} {v : Numeric} {n : Int}
    (h : t.least ≤ n ∧ n ≤ t.greatest) : v.toInt? = some n ↔ v.integer? = some n := by
  obtain ⟨hlow, hhigh⟩ := t.range_inside
  exact Numeric.toInt?_eq_some_iff (by omega) (by omega)

/-- What encoding does with a value for an integer type. -/
theorem encode_eq_ok_iff {t : ColumnType} (ht : t ≠ .float32) {v : Numeric} {bytes : List UInt8} :
    t.encode v = .ok bytes ↔
      ∃ n, v.integer? = some n ∧ (t.least ≤ n ∧ n ≤ t.greatest) ∧ bytes = t.integerBytes n := by
  rw [encode, if_neg ht]
  constructor
  · intro h
    split at h
    · cases h
    · next n hn =>
        split at h
        · next hrange =>
            cases h
            exact ⟨n, (toInt?_iff_of_range hrange).mp hn, hrange, rfl⟩
        · cases h
  · rintro ⟨n, hn, hrange, rfl⟩
    rw [(toInt?_iff_of_range hrange).mpr hn]
    dsimp only
    rw [if_pos hrange]

theorem encode_float32 (v : Numeric) :
    float32.encode v =
      if v.toDouble.abs ≤ greatestFloat then .ok (floatBytes v.toDouble)
      else .error (.floatRange v) := by
  rw [encode, if_pos rfl]

/-- A value is encoded if and only if it fits. -/
theorem exists_encode_iff (t : ColumnType) (v : Numeric) :
    (∃ bytes, t.encode v = .ok bytes) ↔ t.Fits v := by
  by_cases ht : t = .float32
  · subst ht
    rw [encode_float32, Fits, if_pos rfl]
    by_cases hfits : v.toDouble.abs ≤ greatestFloat
    · simp [hfits]
    · simp [hfits]
  · rw [Fits, if_neg ht]
    constructor
    · rintro ⟨bytes, h⟩
      obtain ⟨n, hn, hrange, -⟩ := (encode_eq_ok_iff ht).mp h
      exact ⟨n, hn, hrange⟩
    · rintro ⟨n, hn, hrange⟩
      exact ⟨_, (encode_eq_ok_iff ht).mpr ⟨n, hn, hrange, rfl⟩⟩

/-! ## What is read back -/

theorem span_eq (t : ColumnType) : t.span = ((256 ^ t.size : Nat) : Int) := by
  cases t <;> decide

/-- The bytes of an integer stand for it modulo the span of its type. -/
theorem ofLittleEndian_integerBytes (t : ColumnType) (n : Int) :
    (Wire.ofLittleEndian ((t.integerBytes n).take t.size) : Int) = n % t.span := by
  have hspan : 0 < t.span := by cases t <;> decide
  have hlow := Int.emod_nonneg n (Int.ne_of_gt hspan)
  have hhigh := Int.emod_lt_of_pos n hspan
  rw [List.take_of_length_le (Nat.le_of_eq (length_integerBytes t n)), integerBytes,
    Wire.ofLittleEndian_of_lt, Int.toNat_of_nonneg hlow]
  rw [t.span_eq] at hhigh hlow ⊢
  omega

/-- An integer of the type is read back from its bytes. -/
theorem integer?_decode_integerBytes {t : ColumnType} (ht : t ≠ .float32) {n : Int}
    (hrange : t.least ≤ n ∧ n ≤ t.greatest) :
    (t.decode (t.integerBytes n)).integer? = some n := by
  have hbytes := t.ofLittleEndian_integerBytes n
  have hspan : 0 < t.span ∧ 2 * (t.span / 2) = t.span := by cases t <;> decide
  unfold decode
  dsimp only
  rw [if_neg ht]
  unfold greatest least at *
  by_cases hsigned : t.isSigned = true
  · -- what is behind the greatest integer of the type was negative
    simp only [if_pos hsigned] at hrange ⊢
    simp only [Numeric.integer?, Option.some.injEq]
    by_cases hn : 0 ≤ n
    · rw [Int.emod_eq_of_lt hn (by omega)] at hbytes
      rw [if_pos (by omega), hbytes]
    · rw [← Int.add_emod_right, Int.emod_eq_of_lt (by omega) (by omega)] at hbytes
      rw [if_neg (by omega), hbytes]
      omega
  · simp only [if_neg hsigned] at hrange ⊢
    rw [Int.emod_eq_of_lt hrange.1 (by omega)] at hbytes
    simp only [Numeric.integer?, hbytes]

/-- A column of the type reads what a value became: the same whole number, or the nearest single
precision float. -/
def Carries (t : ColumnType) (v read : Numeric) : Prop :=
  if t = .float32 then read = .double (.ofSingle v.toDouble.toSingle)
  else ∃ n, v.integer? = some n ∧ read.integer? = some n

theorem decode_floatBytes (x : Double) :
    float32.decode (floatBytes x) = .double (.ofSingle x.toSingle) := by
  have hlt : x.toSingle.toNat < 256 ^ 4 := x.toSingle.toNat_lt
  unfold decode
  dsimp only
  rw [if_pos rfl, show float32.size = 4 from rfl,
    List.take_of_length_le (Nat.le_of_eq (length_floatBytes x)), floatBytes,
    Wire.ofLittleEndian_of_lt hlt, Nat.toUInt32, UInt32.ofNat_toNat]

/-- A column reads the value that it was given. -/
theorem carries_decode_encode {t : ColumnType} {v : Numeric} {bytes : List UInt8}
    (h : t.encode v = .ok bytes) : t.Carries v (t.decode bytes) := by
  by_cases ht : t = .float32
  · subst ht
    rw [encode_float32] at h
    split at h
    · cases h
      rw [Carries, if_pos rfl, decode_floatBytes]
    · cases h
  · obtain ⟨n, hn, hrange, rfl⟩ := (encode_eq_ok_iff ht).mp h
    rw [Carries, if_neg ht]
    exact ⟨n, hn, integer?_decode_integerBytes ht hrange⟩

end ColumnType

end Concordance
