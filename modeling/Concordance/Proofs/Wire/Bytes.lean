import Concordance.Wire.Reader
import Mathlib.Algebra.Group.Nat.Defs

/-!
# Numbers and texts as bytes

Little-endian numbers are read back from their bytes as far as the bytes can tell them apart
(`ofLittleEndian_littleEndian`), and texts always are (`textOfBytes?_textBytes`).
-/

namespace Concordance.Wire

@[simp] theorem length_littleEndian (width value : Nat) :
    (littleEndian width value).length = width := by
  induction width generalizing value with
  | zero => rfl
  | succ width ih => rw [littleEndian, List.length_cons, ih]

/-- A number in few bytes is read back modulo what the bytes can tell apart. -/
theorem ofLittleEndian_littleEndian (width value : Nat) :
    ofLittleEndian (littleEndian width value) = value % 256 ^ width := by
  induction width generalizing value with
  | zero => simp [littleEndian, ofLittleEndian, Nat.mod_one]
  | succ width ih =>
      rw [littleEndian, ofLittleEndian, ih, Nat.pow_succ', Nat.mod_mul]
      simp

theorem ofLittleEndian_of_lt {width value : Nat} (h : value < 256 ^ width) :
    ofLittleEndian (littleEndian width value) = value := by
  rw [ofLittleEndian_littleEndian, Nat.mod_eq_of_lt h]

/-- Bytes are those of the number that they stand for. -/
theorem littleEndian_ofLittleEndian (bytes : List UInt8) :
    littleEndian bytes.length (ofLittleEndian bytes) = bytes := by
  induction bytes with
  | nil => rfl
  | cons byte rest ih =>
      have hbyte := byte.toNat_lt
      rw [List.length_cons, ofLittleEndian, littleEndian]
      congr 1
      · apply UInt8.toNat_inj.mp
        rw [Nat.toUInt8, UInt8.toNat_ofNat']
        omega
      · rw [show (byte.toNat + 256 * ofLittleEndian rest) / 256 = ofLittleEndian rest by omega, ih]

theorem littleEndian_zero (width : Nat) : littleEndian width 0 = List.replicate width 0 := by
  induction width with
  | zero => rfl
  | succ width ih =>
      rw [littleEndian, List.replicate_succ, Nat.zero_div, ih]
      rfl

/-- The bytes of a text are those of its characters. -/
theorem textBytes_eq (s : String) : textBytes s = s.toList.flatMap String.utf8EncodeChar := by
  unfold textBytes
  rw [← String.utf8Encode_toList]
  simp [List.utf8Encode]

/-- A text is read back from its bytes. -/
@[simp] theorem textOfBytes?_textBytes (s : String) : textOfBytes? (textBytes s) = some s := by
  unfold textOfBytes? textBytes
  rw [Array.toArray_toList, String.fromUTF8?, dif_pos s.isValidUTF8]
  rfl

end Concordance.Wire
