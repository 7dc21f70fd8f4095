import Concordance.Proofs.Wire.Bytes
import Concordance.Text.Utf8

/-!
# The bytes of a text are not damaged

Every byte of a character lies in the range that the byte in front of the character's tail asks for
(`encoded_char`), so nothing is repaired in the bytes of a text (`repair_textBytes`).
-/

namespace Concordance.Text.Utf8

theorem toNat_ofNat {n : Nat} (h : n < 256) : (UInt8.ofNat n).toNat = n := by
  rw [UInt8.toNat_ofNat', Nat.mod_eq_of_lt h]

/-- A following byte in its range. -/
theorem checkTail_cons {offset low high n : Nat} {ranges : List (Nat × Nat)} {rest : List UInt8}
    (hbyte : n < 256) (hlow : low ≤ n) (hhigh : n ≤ high)
    (hrest : checkTail (offset + 1) ranges rest = .complete) :
    checkTail offset ((low, high) :: ranges) (UInt8.ofNat n :: rest) = .complete := by
  unfold checkTail
  rw [toNat_ofNat hbyte, if_pos ⟨hlow, hhigh⟩, hrest]

/-- The range of the second byte, where two first bytes restrict it: one from below, against what is
too short, and one from above, against what is no character. -/
theorem inRange_second {first n low high least greatest : Nat} (hn : 0x80 ≤ n ∧ n ≤ 0xBF)
    (hlow : first = low → least ≤ n) (hhigh : first = high → n ≤ greatest) :
    let range := if first = low then (least, 0xBF) else if first = high then (0x80, greatest)
      else anyFollower
    range.1 ≤ n ∧ n ≤ range.2 := by
  dsimp only
  split
  · next h => exact ⟨hlow h, hn.2⟩
  · split
    · next h => exact ⟨hn.1, hhigh h⟩
    · exact hn

/-- A first byte asks for the tail behind it. -/
def Asks (first : UInt8) (tail : List UInt8) : Prop :=
  ∃ ranges, followers first.toNat = some ranges ∧ ranges.length = tail.length ∧
    ∀ rest, checkTail 1 ranges (tail ++ rest) = .complete

variable {v : Nat}

theorem asks_one (hv : v ≤ 0x7f) : Asks (UInt8.ofNat v) [] := by
  refine ⟨[], ?_, rfl, fun _ => rfl⟩
  rw [toNat_ofNat (by omega)]
  unfold followers
  rw [if_pos (by omega)]

theorem asks_two (hlow : 0x7f < v) (hhigh : v ≤ 0x7ff) :
    Asks (UInt8.ofNat (v / 64 % 32 + 0xc0)) [UInt8.ofNat (v % 64 + 0x80)] := by
  refine ⟨[anyFollower], ?_, rfl, ?_⟩
  · rw [toNat_ofNat (by omega)]
    unfold followers
    rw [if_neg (by omega), if_neg (by omega), if_pos (by omega)]
  · intro rest
    exact checkTail_cons (by omega) (by omega) (by omega) rfl

/-- The second byte of three leaves out what is half a pair. -/
theorem asks_three (hlow : 0x7ff < v) (hhigh : v ≤ 0xffff) (hpair : v < 0xd800 ∨ 0xdfff < v) :
    Asks (UInt8.ofNat (v / 4096 % 16 + 0xe0))
      [UInt8.ofNat (v / 64 % 64 + 0x80), UInt8.ofNat (v % 64 + 0x80)] := by
  let first := v / 4096 % 16 + 0xe0
  let second : Nat × Nat :=
    if first = 0xE0 then (0xA0, 0xBF) else if first = 0xED then (0x80, 0x9F) else anyFollower
  refine ⟨[second, anyFollower], ?_, rfl, ?_⟩
  · rw [toNat_ofNat (by omega)]
    unfold followers
    rw [if_neg (by omega), if_neg (by omega), if_neg (by omega), if_pos (by omega)]
  · intro rest
    have hsecond : second.1 ≤ v / 64 % 64 + 0x80 ∧ v / 64 % 64 + 0x80 ≤ second.2 :=
      inRange_second (by omega) (by omega) (by omega)
    exact checkTail_cons (by omega) hsecond.1 hsecond.2
      (checkTail_cons (by omega) (by omega) (by omega) rfl)

/-- The second byte of four leaves out what lies behind the last character. -/
theorem asks_four (hlow : 0xffff < v) (hhigh : v < 0x110000) :
    Asks (UInt8.ofNat (v / 262144 % 8 + 0xf0)) [UInt8.ofNat (v / 4096 % 64 + 0x80),
      UInt8.ofNat (v / 64 % 64 + 0x80), UInt8.ofNat (v % 64 + 0x80)] := by
  let first := v / 262144 % 8 + 0xf0
  let second : Nat × Nat :=
    if first = 0xF0 then (0x90, 0xBF) else if first = 0xF4 then (0x80, 0x8F) else anyFollower
  refine ⟨[second, anyFollower, anyFollower], ?_, rfl, ?_⟩
  · rw [toNat_ofNat (by omega)]
    unfold followers
    rw [if_neg (by omega), if_neg (by omega), if_neg (by omega), if_neg (by omega),
      if_pos (by omega)]
  · intro rest
    have hsecond : second.1 ≤ v / 4096 % 64 + 0x80 ∧ v / 4096 % 64 + 0x80 ≤ second.2 :=
      inRange_second (by omega) (by omega) (by omega)
    exact checkTail_cons (by omega) hsecond.1 hsecond.2
      (checkTail_cons (by omega) (by omega) (by omega)
        (checkTail_cons (by omega) (by omega) (by omega) rfl))

/-- The bytes of a character are a first byte and the tail that it asks for. -/
theorem encoded_char (c : Char) :
    ∃ first tail, String.utf8EncodeChar c = first :: tail ∧ Asks first tail := by
  have hvalid := c.valid
  simp only [UInt32.isValidChar, Nat.isValidChar] at hvalid
  unfold String.utf8EncodeChar
  generalize c.val.toNat = v at hvalid
  dsimp only
  split
  · next hone => exact ⟨_, _, rfl, asks_one hone⟩
  · next hone =>
      split
      · next htwo => exact ⟨_, _, rfl, asks_two (by omega) htwo⟩
      · next htwo =>
          split
          · next hthree => exact ⟨_, _, rfl, asks_three (by omega) hthree (by omega)⟩
          · next hthree => exact ⟨_, _, rfl, asks_four (by omega) (by omega)⟩

/-- What was checked is skipped. -/
theorem faultFrom_skip (index : Nat) (tail rest : List UInt8) :
    faultFrom index tail.length (tail ++ rest) = faultFrom (index + tail.length) 0 rest := by
  induction tail generalizing index with
  | nil => rfl
  | cons byte tail ih =>
      show faultFrom (index + 1) tail.length (tail ++ rest) = _
      rw [List.length_cons, ih, show index + 1 + tail.length = index + (tail.length + 1) by omega]

theorem faultFrom_chars (index : Nat) (cs : List Char) :
    faultFrom index 0 (cs.flatMap String.utf8EncodeChar) = none := by
  induction cs generalizing index with
  | nil => rfl
  | cons c rest ih =>
      obtain ⟨first, tail, hchar, ranges, hranges, hlength, htail⟩ := encoded_char c
      rw [List.flatMap_cons, hchar, List.cons_append]
      unfold faultFrom
      dsimp only
      rw [hranges]
      dsimp only
      rw [htail]
      dsimp only
      rw [hlength, faultFrom_skip]
      exact ih _

theorem fault?_textBytes (s : String) : fault? (Wire.textBytes s) = none := by
  rw [Wire.textBytes_eq]
  exact faultFrom_chars 0 s.toList

/-- Nothing is repaired in the bytes of a text. -/
theorem repair_textBytes (replacement s : String) :
    repair replacement (Wire.textBytes s) = s := by
  have htext : text (Wire.textBytes s) = s := by
    have hread := Wire.textOfBytes?_textBytes s
    unfold Wire.textOfBytes? at hread
    rw [text, hread, Option.getD_some]
  unfold repair repairFrom
  rw [fault?_textBytes]
  exact htext

end Concordance.Text.Utf8
