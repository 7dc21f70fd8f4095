import Concordance.Proofs.Wire.Bytes
import Concordance.Wire.Reader

/-!
# Checksums tell single bytes apart

Every step of the checksum can be undone: the top bit of the state tells whether the polynomial was
added, since the polynomial has that bit and a state that was shifted down does not
(`shiftBit_injective`). So states that differ stay different whatever bytes follow, and two byte
strings that differ in one byte have different checksums (`eq_of_advance_eq`).
-/

namespace Concordance.Wire.Checksum

theorem toNat_shiftRight_one (s : UInt32) : (s >>> 1).toNat = s.toNat / 2 := by
  rw [UInt32.toNat_shiftRight, Nat.shiftRight_eq_div_pow]
  rfl

theorem and_one_eq_one_iff (s : UInt32) : s &&& 1 = 1 ↔ s.toNat % 2 = 1 := by
  rw [← UInt32.toNat_inj, UInt32.toNat_and, UInt32.toNat_one, Nat.and_one_is_mod]

/-- The top bit after a step is the lowest bit before it. -/
theorem testBit_shiftBit (s : UInt32) :
    (shiftBit s).toNat.testBit 31 = decide (s.toNat % 2 = 1) := by
  have hsmall : (s >>> 1).toNat < 2 ^ 31 := by
    have := s.toNat_lt
    rw [toNat_shiftRight_one]
    omega
  have htop := Nat.testBit_lt_two_pow hsmall
  unfold shiftBit
  simp only [and_one_eq_one_iff]
  split
  · next hlow =>
      have hpolynomial : (0xEDB88320 : UInt32).toNat.testBit 31 = true := by decide
      rw [UInt32.toNat_xor, Nat.testBit_xor, htop, hpolynomial]
      simp [hlow]
  · next hlow =>
      rw [htop]
      simp [hlow]

theorem shiftBit_injective : Function.Injective shiftBit := by
  intro a b h
  have hlow : a.toNat % 2 = b.toNat % 2 := by
    have hbits := testBit_shiftBit a
    rw [h, testBit_shiftBit b, decide_eq_decide] at hbits
    omega
  -- both steps added the polynomial, or none did
  have hhigh : a >>> 1 = b >>> 1 := by
    unfold shiftBit at h
    simp only [and_one_eq_one_iff, hlow] at h
    split at h
    · exact (UInt32.xor_left_inj _).mp h
    · exact h
  have hhalf := congrArg UInt32.toNat hhigh
  rw [toNat_shiftRight_one, toNat_shiftRight_one] at hhalf
  rw [← UInt32.toNat_inj]
  omega

theorem shiftBits_injective (n : Nat) : Function.Injective (shiftBits n) := by
  induction n with
  | zero => exact Function.injective_id
  | succ n ih => exact ih.comp shiftBit_injective

/-- Different states stay different over a byte. -/
theorem advanceByte_left_injective (byte : UInt8) : Function.Injective (advanceByte · byte) := by
  intro s s' h
  exact (UInt32.xor_left_inj _).mp (shiftBits_injective 8 h)

/-- Different bytes lead to different states. -/
theorem advanceByte_right_injective (s : UInt32) : Function.Injective (advanceByte s) := by
  intro a b h
  have hword : a.toUInt32 = b.toUInt32 := (UInt32.xor_right_inj _).mp (shiftBits_injective 8 h)
  exact UInt8.toUInt32_inj.mp hword

/-- Different states stay different, whatever follows. -/
theorem advance_injective (bytes : List UInt8) : Function.Injective (advance · bytes) := by
  induction bytes with
  | nil => exact Function.injective_id
  | cons byte rest ih => exact ih.comp (advanceByte_left_injective byte)

theorem finish_injective : Function.Injective finish := by
  intro s s' h
  exact (UInt32.xor_left_inj _).mp h

/-- Byte strings with one checksum do not differ in a single byte. -/
theorem eq_of_crc32_eq {before after : List UInt8} {a b : UInt8}
    (h : crc32 (before ++ a :: after) = crc32 (before ++ b :: after)) : a = b := by
  have hstate := finish_injective h
  rw [advance_append, advance_append] at hstate
  exact advanceByte_right_injective _ (advance_injective after hstate)

end Concordance.Wire.Checksum

namespace Concordance.Wire

@[simp] theorem length_withChecksum (bytes : List UInt8) :
    (withChecksum bytes).length = bytes.length + 4 := by
  rw [withChecksum, List.length_append, length_littleEndian]

/-- The bytes of a checksum tell it. -/
theorem eq_of_littleEndian_eq {c c' : UInt32}
    (h : littleEndian 4 c.toNat = littleEndian 4 c'.toNat) : c = c' := by
  have hvalue := congrArg ofLittleEndian h
  rw [ofLittleEndian_of_lt c.toNat_lt, ofLittleEndian_of_lt c'.toNat_lt] at hvalue
  exact UInt32.toNat_inj.mp hvalue

/-- A byte string that ends with its checksum, cut where the checksum begins. -/
theorem eq_of_withChecksum_eq_append {x bytes check : List UInt8}
    (h : withChecksum x = bytes ++ check) (hcheck : check.length = 4) :
    x = bytes ∧ littleEndian 4 (Checksum.crc32 x).toNat = check :=
  List.append_inj' h (by rw [length_littleEndian, hcheck])

/-- Byte strings that end with their checksums do not differ in a single byte, be it one that the
checksum is of or one of the checksum. -/
theorem eq_of_withChecksum_eq {x y before after : List UInt8} {a b : UInt8}
    (hx : withChecksum x = before ++ a :: after) (hy : withChecksum y = before ++ b :: after) :
    a = b := by
  by_cases hafter : 4 ≤ after.length
  · -- the byte stands in front of the checksum
    have hcheck : (after.drop (after.length - 4)).length = 4 := by
      rw [List.length_drop]
      omega
    rw [← List.take_append_drop (after.length - 4) after, ← List.cons_append,
      ← List.append_assoc] at hx hy
    obtain ⟨rfl, hcrc⟩ := eq_of_withChecksum_eq_append hx hcheck
    obtain ⟨rfl, hcrc'⟩ := eq_of_withChecksum_eq_append hy hcheck
    exact Checksum.eq_of_crc32_eq (eq_of_littleEndian_eq (hcrc.trans hcrc'.symm))
  · -- the byte stands in the checksum, so both checksums are of one byte string
    have hlength := congrArg List.length hx
    rw [length_withChecksum, List.length_append, List.length_cons] at hlength
    have hcheck : ∀ c : UInt8, (before.drop x.length ++ c :: after).length = 4 := by
      intro c
      rw [List.length_append, List.length_drop, List.length_cons]
      omega
    rw [← List.take_append_drop x.length before, List.append_assoc] at hx hy
    obtain ⟨hxbytes, -⟩ := eq_of_withChecksum_eq_append hx (hcheck a)
    obtain ⟨hybytes, -⟩ := eq_of_withChecksum_eq_append hy (hcheck b)
    obtain rfl : x = y := hxbytes.trans hybytes.symm
    have htail := List.append_cancel_left (List.append_cancel_left (hx.symm.trans hy))
    exact (List.cons.inj htail).1

end Concordance.Wire
