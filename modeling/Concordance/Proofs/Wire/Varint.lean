import Concordance.Wire.Reader
import Mathlib.Algebra.Group.Nat.Defs

/-!
# Variable-length integers

An integer in front of bytes ends with the first byte whose high bit is clear (`leading`), and is worth
what the low seven bits up to there say (`worth`). It is read if it ends within ten bytes and is worth
less than 2^64 (`Fits`), whether it is written in the fewest bytes or not.

- `decode_eq` says what any bytes are decoded to, and reading them from a stream answers the same
  (`Read.varint_eq_decode`).
- An integer of 64 bits takes at most ten bytes (`length_encode_le_maxLength`), and is decoded from
  them whatever stands behind (`decode_encode_append`).
-/

namespace Concordance.Wire

open Number (twoTo)

/-- An integer is a signed word of 64 bits. -/
def IsInt64 (n : Int) : Prop := -(Number.half64 : Int) ≤ n ∧ n < Number.half64

instance (n : Int) : Decidable (IsInt64 n) :=
  inferInstanceAs (Decidable (_ ∧ _))

namespace Varint

variable {bytes rest : List UInt8} {n index value : Nat}

/-! ## What bytes say -/

/-- The bytes through the first one whose high bit is clear. -/
def leading : List UInt8 → List UInt8
  | [] => []
  | byte :: rest => if byte.toNat < 128 then [byte] else byte :: leading rest

/-- The number whose digits of seven bits are the low bits of the bytes, least significant first. -/
def worth : List UInt8 → Nat
  | [] => 0
  | byte :: rest => byte.toNat % 128 + 128 * worth rest

/-- One of the first bytes has a clear high bit. -/
def EndsWithin (count : Nat) (bytes : List UInt8) : Prop :=
  ∃ byte ∈ bytes.take count, byte.toNat < 128

instance (count : Nat) (bytes : List UInt8) : Decidable (EndsWithin count bytes) :=
  inferInstanceAs (Decidable (∃ byte ∈ bytes.take count, byte.toNat < 128))

/-- One of the first ten bytes has a clear high bit, and the bits up to it are a word of 64 bits. -/
def Fits (bytes : List UInt8) : Prop :=
  EndsWithin maxLength bytes ∧ worth (leading bytes) < word64

instance (bytes : List UInt8) : Decidable (Fits bytes) :=
  inferInstanceAs (Decidable (_ ∧ _))

theorem leading_cons_of_lt {byte : UInt8} (h : byte.toNat < 128) (rest : List UInt8) :
    leading (byte :: rest) = [byte] :=
  if_pos h

theorem leading_cons_of_not_lt {byte : UInt8} (h : ¬ byte.toNat < 128) (rest : List UInt8) :
    leading (byte :: rest) = byte :: leading rest :=
  if_neg h

/-- The leading bytes stand in front. -/
theorem leading_append_drop (bytes : List UInt8) :
    leading bytes ++ bytes.drop (leading bytes).length = bytes := by
  induction bytes with
  | nil => rfl
  | cons byte rest ih =>
      by_cases h : byte.toNat < 128
      · rw [leading_cons_of_lt h]
        rfl
      · rw [leading_cons_of_not_lt h, List.length_cons, List.drop_succ_cons, List.cons_append, ih]

theorem take_length_leading (bytes : List UInt8) :
    bytes.take (leading bytes).length = leading bytes :=
  (List.prefix_iff_eq_take.mp ⟨_, leading_append_drop bytes⟩).symm

theorem worth_lt (bytes : List UInt8) : worth bytes < 128 ^ bytes.length := by
  induction bytes with
  | nil => exact Nat.one_pos
  | cons byte rest ih =>
      rw [worth, List.length_cons, Nat.pow_succ]
      omega

theorem endsWithin_cons_of_lt {byte : UInt8} (h : byte.toNat < 128) (count : Nat)
    (rest : List UInt8) : EndsWithin (count + 1) (byte :: rest) :=
  ⟨byte, List.mem_cons_self, h⟩

theorem endsWithin_cons_iff {byte : UInt8} (h : ¬ byte.toNat < 128) {count : Nat} :
    EndsWithin (count + 1) (byte :: rest) ↔ EndsWithin count rest := by
  unfold EndsWithin
  rw [List.take_succ_cons]
  simp [h]

theorem not_endsWithin_nil (count : Nat) : ¬ EndsWithin count [] := by
  rintro ⟨byte, hmem, -⟩
  rw [List.take_nil] at hmem
  cases hmem

theorem not_endsWithin_zero (bytes : List UInt8) : ¬ EndsWithin 0 bytes := nofun

/-- Where an integer ends in time, its bytes are few and end in time whatever stands behind them. -/
theorem EndsWithin.split {count : Nat} (h : EndsWithin count bytes) (more : List UInt8) :
    (leading bytes).length ≤ count ∧ EndsWithin count (leading bytes ++ more) ∧
      leading (leading bytes ++ more) = leading bytes := by
  induction bytes generalizing count with
  | nil => exact absurd h (not_endsWithin_nil count)
  | cons byte rest ih =>
      cases count with
      | zero => exact absurd h (not_endsWithin_zero _)
      | succ count =>
          by_cases hlast : byte.toNat < 128
          · rw [leading_cons_of_lt hlast]
            exact ⟨Nat.le_add_left 1 count, endsWithin_cons_of_lt hlast count more,
              leading_cons_of_lt hlast more⟩
          · obtain ⟨hlength, hends, hleading⟩ := ih ((endsWithin_cons_iff hlast).mp h)
            rw [leading_cons_of_not_lt hlast, List.cons_append, leading_cons_of_not_lt hlast, hleading]
            exact ⟨Nat.succ_le_succ hlength, (endsWithin_cons_iff hlast).mpr hends, rfl⟩

theorem EndsWithin.mono {count count' : Nat} (h : EndsWithin count bytes) (hle : count ≤ count') :
    EndsWithin count' bytes := by
  obtain ⟨byte, hmem, hlast⟩ := h
  exact ⟨byte, (List.take_sublist_take_left hle).subset hmem, hlast⟩

/-- What fits does so whatever stands behind it. -/
theorem Fits.split (h : Fits bytes) (more : List UInt8) :
    Fits (leading bytes ++ more) ∧ leading (leading bytes ++ more) = leading bytes := by
  obtain ⟨-, hends, hleading⟩ := h.1.split more
  exact ⟨⟨hends, hleading.symm ▸ h.2⟩, hleading⟩

/-- Seven more bits. -/
theorem twoTo_next (index : Nat) : twoTo (7 * (index + 1)) = 128 * twoTo (7 * index) := by
  rw [twoTo, twoTo, Nat.mul_add, Nat.mul_one, Nat.add_comm]
  exact Nat.pow_add 2 7 (7 * index)

/-! ## Decoding -/

/-- What is behind `index` bytes of an integer fits: it ends in time, and is worth less than 2^64
there. -/
def FitsBehind (index : Nat) (bytes : List UInt8) : Prop :=
  EndsWithin (maxLength - index) bytes ∧ worth (leading bytes) * twoTo (7 * index) < word64

instance (index : Nat) (bytes : List UInt8) : Decidable (FitsBehind index bytes) :=
  inferInstanceAs (Decidable (_ ∧ _))

/-- In front of the tenth digit, a word of 64 bits has room for whole digits. -/
theorem word64_eq_mul (h : index ≤ 8) : ∃ k, word64 = k * twoTo (7 * (index + 1)) := by
  refine ⟨twoTo (64 - 7 * (index + 1)), ?_⟩
  show 2 ^ 64 = 2 ^ _ * 2 ^ _
  rw [← Nat.pow_add, Nat.sub_add_cancel (by omega)]

/-- A digit is worth less than one of the next place. -/
theorem digit_mul_lt_next {low : Nat} (hlow : low < 128) (index : Nat) :
    low * twoTo (7 * index) < twoTo (7 * (index + 1)) := by
  rw [twoTo_next]
  exact Nat.mul_lt_mul_of_pos_right hlow (Nat.two_pow_pos _)

/-- A digit fits in its place; the tenth one has a single bit. -/
theorem digit_mul_lt {low : Nat} (hlow : low < 128) (hindex : index < maxLength)
    (htenth : ¬ (index = 9 ∧ 1 < low)) : low * twoTo (7 * index) < word64 := by
  rw [maxLength] at hindex
  by_cases h : index ≤ 8
  · obtain ⟨k, hk⟩ := word64_eq_mul h
    have hpos : 0 < k := by
      refine Nat.pos_of_ne_zero ?_
      rintro rfl
      rw [Nat.zero_mul] at hk
      cases hk
    calc low * twoTo (7 * index) < twoTo (7 * (index + 1)) := digit_mul_lt_next hlow index
      _ ≤ word64 := hk ▸ Nat.le_mul_of_pos_left _ hpos
  · obtain rfl : index = 9 := by omega
    have hone : low ≤ 1 := by omega
    exact Nat.lt_of_le_of_lt (Nat.mul_le_mul_right _ hone) (by decide)

theorem fitsBehind_of_last {byte : UInt8} (hlast : byte.toNat < 128) (hindex : index < maxLength)
    (htenth : ¬ (index = 9 ∧ 1 < byte.toNat % 128)) : FitsBehind index (byte :: rest) := by
  constructor
  · rw [show maxLength - index = maxLength - index - 1 + 1 by omega]
    exact endsWithin_cons_of_lt hlast _ rest
  · rw [leading_cons_of_lt hlast]
    exact digit_mul_lt (Nat.mod_lt _ (by decide)) hindex htenth

theorem not_fitsBehind_of_tenth {byte : UInt8} (htenth : index = 9 ∧ 1 < byte.toNat % 128) :
    ¬ FitsBehind index (byte :: rest) := by
  rintro ⟨-, hword⟩
  obtain ⟨rfl, hlow⟩ := htenth
  have hmany : 2 ≤ worth (leading (byte :: rest)) := by
    by_cases hlast : byte.toNat < 128
    · rw [leading_cons_of_lt hlast, worth]
      omega
    · rw [leading_cons_of_not_lt hlast, worth]
      omega
  have hless := Nat.mul_le_mul_right (twoTo (7 * 9)) hmany
  rw [show 2 * twoTo (7 * 9) = word64 by decide] at hless
  exact Nat.not_lt.mpr hless hword

/-- A digit stands in front of the digits behind it. -/
theorem worth_cons_mul {byte : UInt8} (hmore : ¬ byte.toNat < 128) (index : Nat)
    (rest : List UInt8) :
    worth (leading (byte :: rest)) * twoTo (7 * index) =
      byte.toNat % 128 * twoTo (7 * index) + worth (leading rest) * twoTo (7 * (index + 1)) := by
  rw [leading_cons_of_not_lt hmore, worth, Nat.add_mul, twoTo_next, Nat.mul_comm 128, Nat.mul_assoc]

/-- A byte with a set high bit leaves room for what is behind it. -/
theorem fitsBehind_cons_iff {byte : UInt8} (hmore : ¬ byte.toNat < 128) (hindex : index < maxLength) :
    FitsBehind index (byte :: rest) ↔ FitsBehind (index + 1) rest := by
  have hends : EndsWithin (maxLength - index) (byte :: rest) ↔
      EndsWithin (maxLength - (index + 1)) rest := by
    rw [show maxLength - index = maxLength - (index + 1) + 1 by omega]
    exact endsWithin_cons_iff hmore
  unfold FitsBehind
  rw [hends, worth_cons_mul hmore]
  refine and_congr_right fun hend => ⟨fun h => Nat.lt_of_le_of_lt (Nat.le_add_left _ _) h, fun h => ?_⟩
  -- behind the tenth byte nothing ends in time
  have hindex' : index ≤ 8 := by
    refine Nat.le_of_not_lt fun hlarge => ?_
    rw [maxLength, show 10 - (index + 1) = 0 by omega] at hend
    exact not_endsWithin_zero rest hend
  obtain ⟨k, hk⟩ := word64_eq_mul hindex'
  have hless : worth (leading rest) + 1 ≤ k := by
    rw [hk] at h
    exact Nat.lt_of_mul_lt_mul_right h
  have hlow := digit_mul_lt_next (Nat.mod_lt byte.toNat (show 0 < 128 by decide)) index
  calc byte.toNat % 128 * twoTo (7 * index) + worth (leading rest) * twoTo (7 * (index + 1))
      < twoTo (7 * (index + 1)) + worth (leading rest) * twoTo (7 * (index + 1)) :=
        Nat.add_lt_add_right hlow _
    _ = (worth (leading rest) + 1) * twoTo (7 * (index + 1)) := by
        rw [Nat.add_mul, Nat.one_mul, Nat.add_comm]
    _ ≤ word64 := hk ▸ Nat.mul_le_mul_right _ hless

/-- Reading goes on behind `index` bytes that were worth `value`. -/
theorem decodeFrom_eq (hindex : index ≤ maxLength) (value : Nat) (bytes : List UInt8) :
    decodeFrom index value bytes =
      if FitsBehind index bytes then
        .ok (value + worth (leading bytes) * twoTo (7 * index), index + (leading bytes).length)
      else .error (if index + bytes.length < maxLength then .cutOff else .overflow) := by
  induction bytes generalizing index value with
  | nil =>
      rw [if_neg fun h => not_endsWithin_nil _ h.1]
      rfl
  | cons byte rest ih =>
      rw [decodeFrom]
      rcases Nat.eq_or_lt_of_le hindex with rfl | hless
      · rw [if_pos (Nat.le_refl _), if_neg fun h => not_endsWithin_zero _ h.1, if_neg (by omega)]
      rw [if_neg (Nat.not_le.mpr hless)]
      dsimp only
      by_cases htenth : index = 9 ∧ 1 < byte.toNat % 128
      · have hlong : ¬ index + (byte :: rest).length < maxLength := by
          rw [List.length_cons, maxLength]
          omega
        rw [if_pos htenth, if_neg (not_fitsBehind_of_tenth htenth), if_neg hlong]
      rw [if_neg htenth]
      by_cases hlast : byte.toNat < 128
      · rw [if_pos hlast, if_pos (fitsBehind_of_last hlast hless htenth), leading_cons_of_lt hlast]
        rfl
      · rw [if_neg hlast, ih hless]
        simp only [fitsBehind_cons_iff hlast hless]
        rw [worth_cons_mul hlast, leading_cons_of_not_lt hlast, List.length_cons, List.length_cons,
          ← Nat.add_assoc value, Nat.add_right_comm index 1, Nat.add_right_comm index 1]
        rfl

/-- The answer to any bytes: what the leading bytes are worth and how many they are, if they fit. -/
theorem decode_eq (bytes : List UInt8) :
    decode bytes =
      if Fits bytes then .ok (worth (leading bytes), (leading bytes).length)
      else .error (if bytes.length < maxLength then .cutOff else .overflow) := by
  have hfits : FitsBehind 0 bytes ↔ Fits bytes := by
    unfold FitsBehind Fits
    rw [Nat.sub_zero, show twoTo (7 * 0) = 1 from rfl, Nat.mul_one]
  rw [decode, decodeFrom_eq (Nat.zero_le _), show twoTo (7 * 0) = 1 from rfl]
  simp only [hfits, Nat.mul_one, Nat.zero_add]

/-- The tenth byte has room for one bit. -/
example : Fits (List.replicate 9 0xFF ++ [1]) ∧ ¬ Fits (List.replicate 9 0xFF ++ [2]) := by decide

/-! ## Encoding -/

theorem toNat_encode_last {n : Nat} (h : n < 128) : (n.toUInt8).toNat = n := by
  rw [Nat.toUInt8, UInt8.toNat_ofNat']
  omega

theorem toNat_encode_more (n : Nat) : ((128 + n % 128).toUInt8).toNat = 128 + n % 128 := by
  rw [Nat.toUInt8, UInt8.toNat_ofNat']
  omega

theorem encode_of_lt {n : Nat} (h : n < 128) : encode n = [n.toUInt8] := by
  rw [encode, if_pos h]

theorem encode_of_not_lt {n : Nat} (h : ¬ n < 128) :
    encode n = (128 + n % 128).toUInt8 :: encode (n / 128) := by
  rw [encode, if_neg h]

theorem encode_ne_nil (n : Nat) : encode n ≠ [] := by
  unfold encode
  split <;> nofun

/-- Seven bits a byte. -/
theorem length_encode_le {n k : Nat} (h : n < 128 ^ (k + 1)) : (encode n).length ≤ k + 1 := by
  induction k generalizing n with
  | zero =>
      rw [encode_of_lt (by simpa using h)]
      exact Nat.le_refl 1
  | succ k ih =>
      by_cases hlast : n < 128
      · rw [encode_of_lt hlast]
        exact Nat.le_add_left 1 (k + 1)
      · have hless : n / 128 < 128 ^ (k + 1) := by
          rw [Nat.div_lt_iff_lt_mul (by decide), ← Nat.pow_succ]
          exact h
        rw [encode_of_not_lt hlast]
        exact Nat.succ_le_succ (ih hless)

theorem length_encode_le_maxLength {n : Nat} (h : n < word64) : (encode n).length ≤ maxLength :=
  length_encode_le (Nat.lt_of_lt_of_le h (by decide))

/-- The bytes of a number end with it, and are worth it. -/
theorem encode_spells (n : Nat) (rest : List UInt8) :
    EndsWithin (encode n).length (encode n ++ rest) ∧ leading (encode n ++ rest) = encode n ∧
      worth (encode n) = n := by
  induction n using Nat.strongRecOn with
  | ind n ih =>
      by_cases hlast : n < 128
      · have hbyte : (n.toUInt8).toNat < 128 := by
          rw [toNat_encode_last hlast]
          exact hlast
        rw [encode_of_lt hlast]
        refine ⟨endsWithin_cons_of_lt hbyte 0 rest, leading_cons_of_lt hbyte rest, ?_⟩
        rw [worth, worth, toNat_encode_last hlast, Nat.mod_eq_of_lt hlast, Nat.mul_zero, Nat.add_zero]
      · have hbyte : ¬ ((128 + n % 128).toUInt8).toNat < 128 := by
          rw [toNat_encode_more]
          omega
        obtain ⟨hends, hleading, hworth⟩ := ih (n / 128) (by omega)
        rw [encode_of_not_lt hlast]
        refine ⟨(endsWithin_cons_iff hbyte).mpr hends, ?_, ?_⟩
        · rw [List.cons_append, leading_cons_of_not_lt hbyte, hleading]
        · rw [worth, hworth, toNat_encode_more]
          omega

theorem leading_encode_append (n : Nat) (rest : List UInt8) :
    leading (encode n ++ rest) = encode n :=
  (encode_spells n rest).2.1

@[simp] theorem worth_encode (n : Nat) : worth (encode n) = n := (encode_spells n []).2.2

theorem fits_encode_append (h : n < word64) (rest : List UInt8) : Fits (encode n ++ rest) := by
  obtain ⟨hends, hleading, hworth⟩ := encode_spells n rest
  exact ⟨hends.mono (length_encode_le_maxLength h), by rwa [hleading, hworth]⟩

/-- A value of 64 bits is decoded from its bytes, whatever stands behind them. -/
theorem decode_encode_append (h : n < word64) (rest : List UInt8) :
    decode (encode n ++ rest) = .ok (n, (encode n).length) := by
  rw [decode_eq, if_pos (fits_encode_append h rest), leading_encode_append, worth_encode]

/-! ## Signed values -/

theorem unzigzag_zigzag (n : Int) : unzigzag (zigzag n) = n := by
  unfold unzigzag zigzag
  split <;> split <;> omega

theorem zigzag_unzigzag (n : Nat) : zigzag (unzigzag n) = n := by
  unfold unzigzag zigzag
  split <;> split <;> omega

theorem zigzag_lt {n : Int} (h : IsInt64 n) : zigzag n < word64 := by
  obtain ⟨hlow, hhigh⟩ := h
  have hword : word64 = 2 * Number.half64 := by decide
  unfold zigzag
  split <;> omega

end Varint

/-! ## Reading from a stream -/

namespace Read

open Varint (leading worth EndsWithin Fits maxLength)

/-- The bytes that are split off are those through the end of an integer, or as many as there may be. -/
theorem spanVarint_eq (count : Nat) (bytes : List UInt8) :
    spanVarint count bytes =
      if EndsWithin count bytes then some (leading bytes, bytes.drop (leading bytes).length)
      else if bytes.length < count then none
      else some (bytes.take count, bytes.drop count) := by
  induction count generalizing bytes with
  | zero =>
      rw [if_neg (Varint.not_endsWithin_zero bytes), if_neg (Nat.not_lt_zero _)]
      cases bytes <;> rfl
  | succ count ih =>
      cases bytes with
      | nil =>
          rw [if_neg (Varint.not_endsWithin_nil _), List.length_nil, if_pos (Nat.succ_pos count)]
          rfl
      | cons byte rest =>
          by_cases hlast : byte.toNat < 128
          · rw [if_pos (Varint.endsWithin_cons_of_lt hlast count rest),
              Varint.leading_cons_of_lt hlast, spanVarint, if_pos hlast]
            rfl
          · simp only [Varint.endsWithin_cons_iff hlast, List.length_cons, Nat.add_lt_add_iff_right]
            rw [spanVarint, if_neg hlast, ih, Varint.leading_cons_of_not_lt hlast]
            split
            · rfl
            · split <;> rfl

/-- The answer of any stream: an integer is read and accepted if the bytes to come fit. Otherwise the
input ends too early, or ten bytes are used up. -/
theorem varint_eq (r : Reader) :
    varint r =
      if Fits r.rest then
        (.ok (worth (leading r.rest)),
          r.accept (leading r.rest) (r.rest.drop (leading r.rest).length))
      else if r.rest.length < maxLength then (.error .endOfInput, { r with rest := [] })
      else (.error (.varint .overflow), { r with rest := r.rest.drop maxLength }) := by
  unfold varint
  rw [spanVarint_eq]
  by_cases hends : EndsWithin maxLength r.rest
  · obtain ⟨hlength, hends', hleading⟩ := hends.split []
    rw [List.append_nil] at hends' hleading
    have hfits : Fits (leading r.rest) ↔ Fits r.rest := by
      unfold Fits
      rw [hleading, iff_true_intro hends, iff_true_intro hends']
    rw [if_pos hends]
    dsimp only
    rw [Varint.decode_eq, hleading]
    by_cases hword : Fits r.rest
    · rw [if_pos (hfits.mpr hword), if_pos hword]
    · -- what ends within nine bytes would fit
      have hten : (leading r.rest).length = maxLength := by
        refine Nat.le_antisymm hlength (Nat.le_of_not_lt fun hless => hword ⟨hends, ?_⟩)
        calc worth (leading r.rest) < 128 ^ (leading r.rest).length := Varint.worth_lt _
          _ ≤ 128 ^ 9 := Nat.pow_le_pow_right (by decide) (Nat.le_of_lt_succ hless)
          _ < word64 := by decide
      have hlong : maxLength ≤ r.rest.length := by
        rw [← Varint.leading_append_drop r.rest, List.length_append, hten]
        exact Nat.le_add_right _ _
      rw [if_neg (mt hfits.mp hword), if_neg hword, hten, if_neg (Nat.lt_irrefl _),
        if_neg (Nat.not_lt.mpr hlong)]
  · have hfits : ¬ Fits r.rest := fun h => hends h.1
    rw [if_neg hends, if_neg hfits]
    by_cases hshort : r.rest.length < maxLength
    · rw [if_pos hshort, if_pos hshort]
    · have hten : (r.rest.take maxLength).length = maxLength :=
        List.length_take_of_le (Nat.le_of_not_lt hshort)
      have hfits' : ¬ Fits (r.rest.take maxLength) := by
        rintro ⟨⟨byte, hmem, hlast⟩, -⟩
        rw [List.take_take, Nat.min_self] at hmem
        exact hends ⟨byte, hmem, hlast⟩
      rw [if_neg hshort, if_neg hshort]
      dsimp only
      rw [Varint.decode_eq, if_neg hfits', hten, if_neg (Nat.lt_irrefl _)]

/-- Reading from a stream answers what decoding the bytes to come does, and goes on behind the bytes
that this took. -/
theorem varint_eq_decode (r : Reader) :
    varint r =
      match Varint.decode r.rest with
      | .ok (value, count) => (.ok value, r.accept (r.rest.take count) (r.rest.drop count))
      | .error .cutOff => (.error .endOfInput, { r with rest := [] })
      | .error .overflow => (.error (.varint .overflow), { r with rest := r.rest.drop maxLength }) := by
  rw [varint_eq, Varint.decode_eq]
  split
  · dsimp only
    rw [Varint.take_length_leading]
  · split <;> rfl

end Read

end Concordance.Wire
