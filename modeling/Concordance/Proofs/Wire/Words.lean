import Concordance.Proofs.Wire.Varint

/-!
# Variable-length integers on words

The same integers as words of 64 bits, the way a machine computes them: seven bits are masked out and
shifted to their place, and signed values are folded by shifting their sign over all bits. On words
every operation drops what is beyond 64 bits; here nothing ever is.

- Encoding and decoding words is encoding and decoding their values (`encodeWord_eq`,
  `decodeWord_eq`), so is folding and unfolding signed ones (`toNat_zigzagWord`,
  `toInt_unzigzagWord`).
- `integers_exact` says what encoding, folding and both ways of decoding do to all words and all bytes.
-/

namespace Concordance.Wire.Varint

open Number (twoTo)

/-! ## Signed words -/

/-- The sign of a word, shifted over all bits, tells which of them to flip. -/
def zigzagWord (value : Int64) : UInt64 := ((value <<< 1) ^^^ (value >>> 63)).toUInt64

/-- The lowest bit of a word, negated, tells which of the others to flip. -/
def unzigzagWord (value : UInt64) : Int64 := (value >>> 1).toInt64 ^^^ -(value &&& 1).toInt64

theorem toBitVec_shiftRight_sign (n : Int64) :
    (n >>> 63).toBitVec = if n.toInt < 0 then BitVec.allOnes 64 else 0#64 := by
  have hshift : (n >>> 63).toBitVec = n.toBitVec.sshiftRight 63 := by
    rw [Int64.toBitVec_shiftRight]
    rfl
  have hlow := n.le_toInt
  have hhigh := n.toInt_lt
  rw [hshift]
  apply BitVec.eq_of_toInt_eq
  rw [BitVec.toInt_sshiftRight, Int64.toInt_toBitVec, Int.shiftRight_eq_div_pow]
  split
  · rw [BitVec.toInt_allOnes]
    simp only [Nat.zero_lt_succ, reduceIte]
    omega
  · rw [BitVec.toInt_zero]
    omega

theorem toNat_shiftLeft_one (n : Int64) :
    (n <<< 1).toBitVec.toNat = 2 * n.toBitVec.toNat % 2 ^ 64 := by
  rw [Int64.toBitVec_shiftLeft]
  show (n.toBitVec <<< (1 : Nat)).toNat = _
  rw [BitVec.toNat_shiftLeft, Nat.shiftLeft_eq, Nat.mul_comm]

theorem toNat_zigzagWord (n : Int64) : (zigzagWord n).toNat = zigzag n.toInt := by
  have hlow := n.le_toInt
  have hhigh := n.toInt_lt
  have hint : n.toInt = n.toBitVec.toInt := rfl
  rw [BitVec.toInt_eq_toNat_cond] at hint
  show ((n <<< 1) ^^^ (n >>> 63)).toBitVec.toNat = _
  rw [Int64.toBitVec_xor, toBitVec_shiftRight_sign]
  unfold zigzag
  by_cases hsign : n.toInt < 0
  · rw [if_pos hsign, if_neg (Int.not_le.mpr hsign), BitVec.xor_allOnes, BitVec.toNat_not,
      toNat_shiftLeft_one]
    split at hint <;> omega
  · rw [if_neg hsign, if_pos (Int.not_lt.mp hsign), BitVec.xor_zero, toNat_shiftLeft_one]
    split at hint <;> omega

theorem toInt_unzigzagWord (v : UInt64) : (unzigzagWord v).toInt = unzigzag v.toNat := by
  have hhalf : (v >>> 1).toBitVec.toNat = v.toNat / 2 := by
    rw [UInt64.toNat_toBitVec, UInt64.toNat_shiftRight]
    exact Nat.shiftRight_eq_div_pow v.toNat 1
  have hless := v.toNat_lt
  have hlowest : (v &&& 1).toNat = v.toNat % 2 := by
    rw [UInt64.toNat_and]
    exact Nat.and_one_is_mod v.toNat
  have hvalue : (unzigzagWord v).toInt =
      ((v >>> 1).toBitVec ^^^ (-(v &&& 1).toInt64).toBitVec).toInt := rfl
  rw [hvalue]
  unfold unzigzag
  by_cases heven : v.toNat % 2 = 0
  · have hzero : v &&& 1 = 0 := UInt64.toNat_inj.mp (hlowest.trans heven)
    rw [if_pos heven, hzero, show (-(0 : UInt64).toInt64).toBitVec = 0#64 from rfl, BitVec.xor_zero,
      BitVec.toInt_eq_toNat_of_lt (by omega), hhalf]
  · have hodd : v.toNat % 2 = 1 := by omega
    have hone : v &&& 1 = 1 := UInt64.toNat_inj.mp (hlowest.trans hodd)
    rw [if_neg heven, hone, show (-(1 : UInt64).toInt64).toBitVec = BitVec.allOnes 64 from rfl,
      BitVec.xor_allOnes, BitVec.toInt_eq_toNat_cond, BitVec.toNat_not, hhalf]
    rw [if_neg (by omega)]
    omega

/-! ## Bytes of a word -/

theorem toNat_shiftRight_seven (v : UInt64) : (v >>> 7).toNat = v.toNat / 128 := by
  rw [UInt64.toNat_shiftRight]
  exact Nat.shiftRight_eq_div_pow v.toNat 7

/-- The bytes of a word: its low seven bits with the high bit set, as long as there are more. -/
def encodeWord (value : UInt64) : List UInt8 :=
  if 0x80 ≤ value then ((value.toUInt8 &&& 0x7F) ||| 0x80) :: encodeWord (value >>> 7)
  else [value.toUInt8]
termination_by value.toNat
decreasing_by
  rename_i hmore
  have hless : 128 ≤ value.toNat := hmore
  rw [toNat_shiftRight_seven]
  omega

theorem toNat_and_low (byte : UInt8) : (byte &&& 0x7F).toNat = byte.toNat % 128 := by
  rw [UInt8.toNat_and]
  exact Nat.and_two_pow_sub_one_eq_mod byte.toNat 7

theorem toNat_or_high {byte : UInt8} (h : byte.toNat < 128) :
    (byte ||| 0x80).toNat = 128 + byte.toNat := by
  rw [UInt8.toNat_or, Nat.or_comm]
  exact (Nat.two_pow_add_eq_or_of_lt (i := 7) h 1).symm

theorem encodeWord_eq (v : UInt64) : encodeWord v = encode v.toNat := by
  induction h : v.toNat using Nat.strongRecOn generalizing v with
  | ind n ih =>
      subst h
      rw [encodeWord]
      by_cases hmore : 0x80 ≤ v
      · have hbyte : (v.toUInt8 &&& 0x7F) ||| 0x80 = (128 + v.toNat % 128).toUInt8 := by
          apply UInt8.toNat_inj.mp
          rw [toNat_or_high (by rw [toNat_and_low]; exact Nat.mod_lt _ (by decide)), toNat_and_low,
            UInt64.toNat_toUInt8, toNat_encode_more]
          omega
        have hlarge : ¬ v.toNat < 128 := Nat.not_lt.mpr hmore
        have hrest := ih (v.toNat / 128) (by omega) (v >>> 7) (toNat_shiftRight_seven v)
        rw [if_pos hmore, encode_of_not_lt hlarge, hbyte, hrest]
      · have hsmall : v.toNat < 128 := Nat.lt_of_not_le hmore
        rw [if_neg hmore, encode_of_lt hsmall]
        rfl

/-! ## A word from bytes -/

/-- Reads on after `index` bytes worth `value`, at most up to the tenth; `length` is the count of all
the bytes there are. -/
def decodeWordFrom (length index : Nat) (value : UInt64) : List UInt8 → Except Fault (UInt64 × Nat)
  | [] => .error (if maxLength ≤ length then .overflow else .cutOff)
  | byte :: rest =>
    let low := (byte &&& 0x7F).toUInt64
    let shift := 7 * index
    if shift = 63 ∧ 1 < low then .error .overflow
    else
      let value := value ||| low <<< shift.toUInt64
      if byte &&& 0x80 = 0 then .ok (value, index + 1)
      else decodeWordFrom length (index + 1) value rest

def decodeWord (bytes : List UInt8) : Except Fault (UInt64 × Nat) :=
  decodeWordFrom bytes.length 0 0 (bytes.take maxLength)

theorem and_high_eq_zero_iff (byte : UInt8) : byte &&& 0x80 = 0 ↔ byte.toNat < 128 := by
  have hall : ∀ b : Fin 256, b.val &&& 128 = 0 ↔ b.val < 128 := by decide +kernel
  have h := hall ⟨byte.toNat, byte.toNat_lt⟩
  rw [← UInt8.toNat_inj, UInt8.toNat_and]
  exact h

theorem toNat_digit (byte : UInt8) : (byte &&& 0x7F).toUInt64.toNat = byte.toNat % 128 := by
  rw [UInt8.toNat_toUInt64, toNat_and_low]

/-- What one more byte does, with its conditions told by numbers. -/
theorem decodeWordFrom_cons (length index : Nat) (value : UInt64) (byte : UInt8)
    (rest : List UInt8) :
    let value' := value ||| (byte &&& 0x7F).toUInt64 <<< (7 * index).toUInt64
    decodeWordFrom length index value (byte :: rest) =
      if index = 9 ∧ 1 < byte.toNat % 128 then .error .overflow
      else if byte.toNat < 128 then .ok (value', index + 1)
      else decodeWordFrom length (index + 1) value' rest := by
  have htenth : 7 * index = 63 ∧ 1 < (byte &&& 0x7F).toUInt64 ↔
      index = 9 ∧ 1 < byte.toNat % 128 := by
    rw [UInt64.lt_iff_toNat_lt, toNat_digit]
    exact and_congr_left fun _ => ⟨fun h => by omega, fun h => by omega⟩
  intro value'
  rw [decodeWordFrom]
  simp only [htenth, and_high_eq_zero_iff]
  rfl

/-- A digit is put in front of the bits that there are. -/
theorem toNat_or_shiftLeft {value low : UInt64} {index : Nat} (hindex : index ≤ 9)
    (hvalue : value.toNat < twoTo (7 * index)) (hlow : low.toNat * twoTo (7 * index) < word64) :
    (value ||| low <<< (7 * index).toUInt64).toNat =
      value.toNat + low.toNat * twoTo (7 * index) := by
  have hshift : (7 * index).toUInt64.toNat % 64 = 7 * index := by
    show (7 * index) % 2 ^ 64 % 64 = _
    omega
  have hdigit : (low <<< (7 * index).toUInt64).toNat = twoTo (7 * index) * low.toNat := by
    rw [UInt64.toNat_shiftLeft, hshift, Nat.shiftLeft_eq, Nat.mul_comm (twoTo _)]
    exact Nat.mod_eq_of_lt hlow
  rw [UInt64.toNat_or, hdigit, Nat.or_comm, Nat.add_comm, Nat.mul_comm low.toNat]
  exact (Nat.two_pow_add_eq_or_of_lt hvalue low.toNat).symm

theorem add_digit_lt {value low index : Nat} (hvalue : value < twoTo (7 * index)) (hlow : low < 128) :
    value + low * twoTo (7 * index) < twoTo (7 * (index + 1)) := by
  calc value + low * twoTo (7 * index) < twoTo (7 * index) + low * twoTo (7 * index) :=
        Nat.add_lt_add_right hvalue _
    _ = (low + 1) * twoTo (7 * index) := by rw [Nat.add_mul, Nat.one_mul, Nat.add_comm]
    _ ≤ 128 * twoTo (7 * index) := Nat.mul_le_mul_right _ hlow
    _ = twoTo (7 * (index + 1)) := (twoTo_next index).symm

/-- Behind bytes whose digits the word holds, decoding words is decoding their values. -/
theorem decodeWordFrom_eq {index : Nat} (hindex : index ≤ maxLength) {value : UInt64}
    (hvalue : value.toNat < twoTo (7 * index)) (bytes : List UInt8) :
    decodeWordFrom (index + bytes.length) index value (bytes.take (maxLength - index)) =
      (decodeFrom index value.toNat bytes).map fun p => (p.1.toUInt64, p.2) := by
  induction bytes generalizing index value with
  | nil =>
      rw [List.take_nil, decodeWordFrom, decodeFrom, List.length_nil, Nat.add_zero]
      by_cases h : maxLength ≤ index
      · rw [if_pos h, if_neg (Nat.not_lt.mpr h)]
        rfl
      · rw [if_neg h, if_pos (Nat.lt_of_not_le h)]
        rfl
  | cons byte rest ih =>
      rcases Nat.eq_or_lt_of_le hindex with rfl | hless
      · rw [Nat.sub_self, List.take_zero, decodeWordFrom, decodeFrom, if_pos (Nat.le_add_right _ _),
          if_pos (Nat.le_refl _)]
        rfl
      rw [show maxLength - index = maxLength - (index + 1) + 1 by omega, List.take_succ_cons,
        decodeWordFrom_cons, decodeFrom, if_neg (Nat.not_le.mpr hless)]
      dsimp only
      by_cases htenth : index = 9 ∧ 1 < byte.toNat % 128
      · rw [if_pos htenth, if_pos htenth]
        rfl
      have hlow : byte.toNat % 128 < 128 := Nat.mod_lt _ (by decide)
      have hvalue' : (value ||| (byte &&& 0x7F).toUInt64 <<< (7 * index).toUInt64).toNat =
          value.toNat + byte.toNat % 128 * twoTo (7 * index) := by
        rw [← toNat_digit] at hlow htenth ⊢
        exact toNat_or_shiftLeft (Nat.le_of_lt_succ hless) hvalue (digit_mul_lt hlow hless htenth)
      rw [if_neg htenth, if_neg htenth, ← hvalue']
      by_cases hlast : byte.toNat < 128
      · rw [if_pos hlast, if_pos hlast]
        show _ = Except.ok (UInt64.ofNat (UInt64.toNat _), _)
        rw [UInt64.ofNat_toNat]
      · rw [if_neg hlast, if_neg hlast, List.length_cons, ← Nat.add_assoc, Nat.add_right_comm]
        refine ih hless ?_
        rw [hvalue']
        exact add_digit_lt hvalue hlow

theorem decodeWord_eq (bytes : List UInt8) :
    decodeWord bytes = (decode bytes).map fun p => (p.1.toUInt64, p.2) := by
  have hzero : (0 : UInt64).toNat < twoTo (7 * 0) := Nat.two_pow_pos _
  have h := decodeWordFrom_eq (Nat.zero_le maxLength) hzero bytes
  rwa [Nat.zero_add, Nat.sub_zero] at h

/-! ## What is computed -/

theorem unzigzagWord_zigzagWord (n : Int64) : unzigzagWord (zigzagWord n) = n := by
  apply Int64.toInt_inj.mp
  rw [toInt_unzigzagWord, toNat_zigzagWord, unzigzag_zigzag]

theorem zigzagWord_unzigzagWord (v : UInt64) : zigzagWord (unzigzagWord v) = v := by
  apply UInt64.toNat_inj.mp
  rw [toNat_zigzagWord, toInt_unzigzagWord, zigzag_unzigzag]

theorem encode_toNat (v : UInt64) (rest : List UInt8) :
    decode (encode v.toNat ++ rest) = .ok (v.toNat, (encode v.toNat).length) ∧
      1 ≤ (encode v.toNat).length ∧ (encode v.toNat).length ≤ 10 :=
  ⟨decode_encode_append v.toNat_lt rest, List.length_pos_iff.mpr (encode_ne_nil _),
    length_encode_le_maxLength v.toNat_lt⟩

/-- Every word is decoded from its one to ten bytes, whatever stands behind them, and folding signed
words has an inverse on both sides. Any bytes are decoded if one of the first ten has a clear high bit
and the bits up to it are a word; then a stream of them is read to the same value and goes on behind the
same bytes, and otherwise both ways fail. All of this is what words compute. -/
theorem integers_exact :
    (∀ (v : UInt64) (rest : List UInt8),
      encodeWord v = encode v.toNat ∧
      decode (encode v.toNat ++ rest) = .ok (v.toNat, (encode v.toNat).length) ∧
      1 ≤ (encode v.toNat).length ∧ (encode v.toNat).length ≤ 10) ∧
    (∀ n : Int64, (zigzagWord n).toNat = zigzag n.toInt ∧ unzigzag (zigzag n.toInt) = n.toInt ∧
      unzigzagWord (zigzagWord n) = n) ∧
    (∀ v : UInt64, (unzigzagWord v).toInt = unzigzag v.toNat ∧
      zigzag (unzigzag v.toNat) = v.toNat ∧ zigzagWord (unzigzagWord v) = v) ∧
    (∀ bytes : List UInt8,
      decodeWord bytes = (decode bytes).map (fun p => (p.1.toUInt64, p.2)) ∧
      decode bytes =
        if (∃ byte ∈ bytes.take 10, byte.toNat < 128) ∧ worth (leading bytes) < word64 then
          .ok (worth (leading bytes), (leading bytes).length)
        else .error (if bytes.length < 10 then .cutOff else .overflow)) ∧
    ∀ r : Reader, Read.varint r =
      match decode r.rest with
      | .ok (value, count) => (.ok value, r.accept (r.rest.take count) (r.rest.drop count))
      | .error .cutOff => (.error .endOfInput, { r with rest := [] })
      | .error .overflow => (.error (.varint .overflow), { r with rest := r.rest.drop 10 }) := by
  refine ⟨fun v rest => ⟨encodeWord_eq v, encode_toNat v rest⟩, ?_, ?_, ?_, Read.varint_eq_decode⟩
  · intro n
    exact ⟨toNat_zigzagWord n, unzigzag_zigzag n.toInt, unzigzagWord_zigzagWord n⟩
  · intro v
    exact ⟨toInt_unzigzagWord v, zigzag_unzigzag v.toNat, zigzagWord_unzigzagWord v⟩
  · intro bytes
    exact ⟨decodeWord_eq bytes, decode_eq bytes⟩

end Concordance.Wire.Varint
