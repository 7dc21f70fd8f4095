import Concordance.Json.Printer
import Concordance.Json.Reader

/-!
# Texts and whole numbers are read back

A text in quotes is read back character by character (`readText_renderText`), and a natural number
of 64 bits digit by digit, provided that no character of a number stands behind it
(`readUnsigned_toDigits`).
-/

namespace Concordance.Json

/-! ## Texts -/

/-- The piece that a character is written as. -/
def pieceOf (c : Char) : Piece :=
  if c.toNat < 32 ∧ c ∉ ['\n', '\r', '\t', '\x08', '\x0c'] then .unit c.toNat else .char c

theorem hexUnit_control : ∀ n < 32,
    hexUnit '0' '0' (Nat.digitChar (n / 16 % 16)) (Nat.digitChar (n % 16)) = some n := by
  decide

/-- A character is read back from what it is written as. -/
theorem readPieces_escapeChar (c : Char) (taken : List Piece) (more : List Char) :
    readPieces taken ((escapeChar c).toList ++ more) = readPieces (pieceOf c :: taken) more := by
  unfold escapeChar
  split
  · next h =>
      subst h
      simp [readPieces, simpleEscape, pieceOf]
  · next hquote =>
      split
      · next h =>
          subst h
          simp [readPieces, simpleEscape, pieceOf]
      · next hslash =>
          by_cases hnamed : c ∈ ['\n', '\r', '\t', '\x08', '\x0c']
          · simp only [List.mem_cons, List.not_mem_nil, or_false] at hnamed
            rcases hnamed with rfl | rfl | rfl | rfl | rfl <;>
              simp [readPieces, simpleEscape, pieceOf]
          · have hpiece : pieceOf c = if c.toNat < 32 then .unit c.toNat else .char c := by
              simp only [pieceOf, hnamed, not_false_eq_true, and_true]
            simp only [List.mem_cons, List.not_mem_nil, or_false, not_or] at hnamed
            obtain ⟨hn, hr, ht, hb, hf⟩ := hnamed
            -- the backspace and the form feed are told by their codes
            have hb' : c.toNat ≠ 8 := fun h => hb (Char.toNat_inj.mp h)
            have hf' : c.toNat ≠ 12 := fun h => hf (Char.toNat_inj.mp h)
            rw [if_neg hn, if_neg hr, if_neg ht, if_neg hb', if_neg hf', hpiece]
            split
            · next hcontrol =>
                have hunit := hexUnit_control c.toNat hcontrol
                simp [hexByte, readPieces, hunit]
            · next hplain =>
                have hrange : ¬ (c.toNat < 32 ∨ c = '\\') := not_or.mpr ⟨hplain, hslash⟩
                rw [show c.toString.toList = [c] by simp, List.singleton_append]
                rw [readPieces.eq_4 taken c more hquote (by simp [hslash]) (by simp [hslash]),
                  if_neg hrange]

theorem readPieces_escaped (cs : List Char) (taken : List Piece) (rest : List Char) :
    readPieces taken (cs.flatMap (fun c => (escapeChar c).toList) ++ '"' :: rest) =
      some (taken.reverse ++ cs.map pieceOf, rest) := by
  induction cs generalizing taken with
  | nil => simp [readPieces]
  | cons c more ih =>
      rw [List.flatMap_cons, List.append_assoc, readPieces_escapeChar, ih]
      simp

/-- The pieces of a text stand for the text: none of them is half a pair. -/
theorem textOfPieces_pieceOf (taken cs : List Char) :
    textOfPieces taken none (cs.map pieceOf) = some (String.ofList (taken.reverse ++ cs)) := by
  induction cs generalizing taken with
  | nil => simp [textOfPieces]
  | cons c more ih =>
      have hnext := ih (c :: taken)
      rw [List.reverse_cons, List.append_assoc, List.singleton_append] at hnext
      rw [List.map_cons, ← hnext]
      unfold pieceOf
      split
      · next hcontrol =>
          have hsmall := hcontrol.1
          have hhigh : isHighSurrogate c.toNat = false := by
            simp [isHighSurrogate]
            omega
          have hlow : isLowSurrogate c.toNat = false := by
            simp [isLowSurrogate]
            omega
          simp [textOfPieces, hhigh, hlow]
      · simp [textOfPieces]

theorem toList_renderText (s : String) :
    (renderText s).toList = '"' :: (s.toList.flatMap (fun c => (escapeChar c).toList) ++ ['"']) := by
  simp [renderText, List.flatMap_map]

/-- A text is read back, whatever stands behind its closing quote. -/
theorem readText_renderText (s : String) (rest : List Char) :
    readText (s.toList.flatMap (fun c => (escapeChar c).toList) ++ '"' :: rest) =
      some (some s, rest) := by
  unfold readText
  rw [readPieces_escaped]
  simp [textOfPieces_pieceOf]

/-! ## Whole numbers -/

/-- What may stand behind a number: no digit, no point and no exponent. -/
def Ends (rest : List Char) : Prop :=
  ∀ c, rest.head? = some c → c.isDigit = false ∧ c ≠ '.' ∧ c ≠ 'e' ∧ c ≠ 'E'

theorem ends_nil : Ends [] := by
  intro c hc
  cases hc

theorem digitChar_spec : ∀ d < 10, (Nat.digitChar d).isDigit = true ∧
    (Nat.digitChar d).toNat - '0'.toNat = d ∧ (d ≠ 0 → Nat.digitChar d ≠ '0') := by
  decide

theorem isDigit_toDigits (n : Nat) : ∀ c ∈ Nat.toDigits 10 n, c.isDigit = true := by
  intro c hc
  exact Nat.isDigit_of_mem_toDigits (by decide) (by decide) hc

theorem addDigits_append {k m : Nat} {a : List Char} (h : addDigits k a = (m, []))
    (b : List Char) : addDigits k (a ++ b) = addDigits m b := by
  induction a generalizing k with
  | nil =>
      cases h
      rfl
  | cons c rest ih =>
      unfold addDigits at h
      rw [List.cons_append, addDigits]
      dsimp only at h ⊢
      split at h
      · next hlimit => rw [if_pos hlimit, ih h]
      · cases h

/-- The digits of a number of 64 bits add up to it. -/
theorem addDigits_toDigits {n : Nat} (h : n < 2 * Number.half64) :
    addDigits 0 (Nat.toDigits 10 n) = (n, []) := by
  induction n using Nat.strongRecOn with
  | ind n ih =>
      by_cases hsmall : n < 10
      · obtain ⟨-, hvalue, -⟩ := digitChar_spec n hsmall
        rw [Nat.toDigits_of_lt_base hsmall, addDigits, hvalue]
        rw [Nat.mul_zero, Nat.zero_add, if_pos (by omega)]
        rfl
      · obtain ⟨-, hvalue, -⟩ := digitChar_spec (n % 10) (Nat.mod_lt n (by decide))
        have hsum : 10 * (n / 10) + n % 10 = n := Nat.div_add_mod n 10
        rw [Nat.toDigits_of_base_le (by decide) (by omega),
          addDigits_append (ih (n / 10) (by omega) (by omega)), addDigits, hvalue, hsum,
          if_pos (by omega)]
        rfl

/-- The first digit is zero only if it is the only one. -/
theorem head_toDigits (n : Nat) :
    ¬ ((Nat.toDigits 10 n).head? = some '0' ∧ (Nat.toDigits 10 n).length ≠ 1) := by
  have hhead : ∀ n, n ≠ 0 → (Nat.toDigits 10 n).head? ≠ some '0' := by
    intro n
    induction n using Nat.strongRecOn with
    | ind n ih =>
        intro hn
        by_cases hsmall : n < 10
        · obtain ⟨-, -, hzero⟩ := digitChar_spec n hsmall
          rw [Nat.toDigits_of_lt_base hsmall]
          simpa using hzero hn
        · -- the first digit is that of the digits in front of the last one
          rw [Nat.toDigits_of_base_le (by decide) (by omega),
            List.head?_append]
          have hfirst := ih (n / 10) (by omega) (by omega)
          cases hdigits : Nat.toDigits 10 (n / 10) with
          | nil => exact absurd hdigits Nat.toDigits_ne_nil
          | cons d more =>
              rw [hdigits] at hfirst
              simpa using hfirst
  rintro ⟨hzero, hlength⟩
  by_cases hn : n = 0
  · subst hn
    rw [Nat.toDigits_zero] at hlength
    exact hlength rfl
  · exact hhead n hn hzero

theorem takeWhile_digits {digits rest : List Char} (hdigits : ∀ c ∈ digits, c.isDigit = true)
    (hrest : Ends rest) :
    (digits ++ rest).takeWhile Char.isDigit = digits ∧
      (digits ++ rest).dropWhile Char.isDigit = rest := by
  induction digits with
  | nil =>
      cases rest with
      | nil => exact ⟨rfl, rfl⟩
      | cons c more =>
          obtain ⟨hc, -⟩ := hrest c rfl
          simp [hc]
  | cons d more ih =>
      obtain ⟨htake, hdrop⟩ := ih fun c hc => hdigits c (List.mem_cons_of_mem _ hc)
      have hd := hdigits d List.mem_cons_self
      simp [hd, htake, hdrop]

/-- A natural number of 64 bits is read back. -/
theorem readUnsigned_toDigits {n : Nat} (h : n < 2 * Number.half64) {rest : List Char}
    (hrest : Ends rest) :
    readUnsigned false (Nat.toDigits 10 n ++ rest) = some (some (.natural n), rest) := by
  obtain ⟨htake, hdrop⟩ := takeWhile_digits (isDigit_toDigits n) hrest
  have hempty : ¬ ((Nat.toDigits 10 n).isEmpty = true ∨
      ((Nat.toDigits 10 n).head? = some '0' ∧ (Nat.toDigits 10 n).length ≠ 1)) := by
    simp only [List.isEmpty_iff, Nat.toDigits_ne_nil, false_or]
    exact head_toDigits n
  unfold readUnsigned
  rw [htake, hdrop]
  dsimp only
  rw [addDigits_toDigits h]
  dsimp only
  rw [if_neg hempty]
  split
  · exact absurd rfl (hrest '.' rfl).2.1
  · exact absurd rfl (hrest 'e' rfl).2.2.1
  · exact absurd rfl (hrest 'E' rfl).2.2.2
  · simp

end Concordance.Json
