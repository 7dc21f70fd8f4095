import Concordance.Text.Blank
import Concordance.Text.Letter
import Concordance.Text.Split
import Mathlib.Data.List.DropRight

/-!
# Runs, trimmed texts, pieces and words

A run is as long as it can be if what stands behind it does not go on (`EndsRun`). Taking and
dropping characters that pass a test cuts off such a run.

- `exists_trimChars`, `trimChars_run`: a text is its trimmed text between blanks, and that is the
  only trimmed text it has.
- `splitOnceChars_eq_some_iff`: a text is cut where its first separator stands.
- `splitList_append`: a piece in front of a separator is cut off. The last piece keeps the last
  character (`splitList_concat`), and so does the last word (`wordsFrom_concat`).
-/

namespace Concordance.Text

/-! ## Runs -/

/-- What holds of all characters of a list is decided by going through the list, not through all
characters that there are. -/
instance (priority := high) decidableForallChars {P : Char → Prop} [DecidablePred P]
    (cs : List Char) : Decidable (∀ c ∈ cs, P c) := List.decidableBAll P cs

/-- Characters that do not go on with one that passes a test. -/
def EndsRun (p : Char → Bool) (cs : List Char) : Prop := ∀ c ∈ cs.head?, p c = false

variable {p : Char → Bool}

theorem endsRun_nil : EndsRun p [] := fun _ hc => nomatch hc

theorem endsRun_cons {c : Char} {cs : List Char} : EndsRun p (c :: cs) ↔ p c = false :=
  ⟨fun h => h c rfl, fun h _ hd => Option.some.inj hd ▸ h⟩

theorem endsRun_dropWhile (p : Char → Bool) (cs : List Char) : EndsRun p (cs.dropWhile p) := by
  intro c hc
  have hnot := cs.head?_dropWhile_not p
  rwa [hc] at hnot

section Run

variable {run rest : List Char}

theorem takeWhile_run (hrun : ∀ c ∈ run, p c = true) (hrest : EndsRun p rest) :
    (run ++ rest).takeWhile p = run := by
  rw [List.takeWhile_append_of_pos hrun]
  cases rest with
  | nil => rw [List.takeWhile_nil, List.append_nil]
  | cons c rest =>
      rw [List.takeWhile_cons_of_neg (by simp [endsRun_cons.mp hrest]), List.append_nil]

theorem dropWhile_run (hrun : ∀ c ∈ run, p c = true) (hrest : EndsRun p rest) :
    (run ++ rest).dropWhile p = rest := by
  rw [List.dropWhile_append_of_pos hrun]
  cases rest with
  | nil => rfl
  | cons c rest => rw [List.dropWhile_cons_of_neg (by simp [endsRun_cons.mp hrest])]

end Run

/-! ## Kinds of characters -/

theorem inRanges_iff {ranges : List (Nat × Nat)} {c : Char} :
    inRanges ranges c = true ↔ ∃ r ∈ ranges, r.1 ≤ c.toNat ∧ c.toNat ≤ r.2 := by
  simp [inRanges]

theorem code_of_isDigit {c : Char} (h : c.isDigit = true) : 0x30 ≤ c.toNat ∧ c.toNat ≤ 0x39 := by
  simpa [Char.isDigit, UInt32.le_iff_toNat_le] using h

theorem isBlank_of_isDigit {c : Char} (h : c.isDigit = true) : isBlank c = false := by
  have hcode := code_of_isDigit h
  have hapart : ∀ r ∈ blankRanges, 0x39 < r.1 ∨ r.2 < 0x30 := by decide
  refine Bool.not_eq_true _ ▸ fun hblank => ?_
  obtain ⟨r, hr, hfirst, hlast⟩ := inRanges_iff.mp hblank
  have := hapart r hr
  omega

theorem toUpper_of_isDigit {c : Char} (h : c.isDigit = true) : c.toUpper = c := by
  have hcode := code_of_isDigit h
  unfold Char.toUpper
  rw [dif_neg]
  rintro ⟨hlower, -⟩
  have : 0x61 ≤ c.toNat := hlower
  omega

/-- The letters are those of the table. -/
theorem inRanges_of_isAlphabetic {c : Char} (h : isAlphabetic c = true) :
    inRanges alphabeticRanges c = true := by
  unfold isAlphabetic at h
  split at h
  · have hletter : (decide (0x41 ≤ c.val ∧ c.val ≤ 0x5A) ||
        decide (0x61 ≤ c.val) && decide (c.val ≤ 0x7A)) = true := h
    have hcode : (0x41 ≤ c.toNat ∧ c.toNat ≤ 0x5A) ∨ (0x61 ≤ c.toNat ∧ c.toNat ≤ 0x7A) := by
      simpa [UInt32.le_iff_toNat_le] using hletter
    rcases hcode with hcode | hcode
    · exact inRanges_iff.mpr ⟨(0x41, 0x5A), List.mem_cons_self, hcode⟩
    · exact inRanges_iff.mpr ⟨(0x61, 0x7A), List.mem_cons_of_mem _ List.mem_cons_self, hcode⟩
  · exact h

/-- No letter is a blank: no range of the one table meets a range of the other. -/
theorem isBlank_of_isAlphabetic {c : Char} (h : isAlphabetic c = true) : isBlank c = false := by
  have hapart : ∀ a ∈ alphabeticRanges, ∀ b ∈ blankRanges, a.2 < b.1 ∨ b.2 < a.1 := by
    decide +kernel
  obtain ⟨a, ha, hfirst, hlast⟩ := inRanges_iff.mp (inRanges_of_isAlphabetic h)
  refine Bool.not_eq_true _ ▸ fun hblank => ?_
  obtain ⟨b, hb, hfirst', hlast'⟩ := inRanges_iff.mp hblank
  have := hapart a ha b hb
  omega

variable {c : Char} {cs : List Char}

theorem endsRun_append {rest : List Char} (hne : cs ≠ []) :
    EndsRun p (cs ++ rest) ↔ EndsRun p cs := by
  obtain ⟨c, more, rfl⟩ := List.exists_cons_of_ne_nil hne
  rw [List.cons_append, endsRun_cons, endsRun_cons]

theorem dropWhile_of_endsRun (h : EndsRun p cs) : cs.dropWhile p = cs :=
  dropWhile_run (show ∀ c ∈ [], p c = true from fun _ hc => nomatch hc) h

theorem upperAscii_eq (s : String) : upperAscii s = String.ofList (s.toList.map Char.toUpper) := by
  rw [← String.toList_inj, String.toList_ofList, upperAscii, String.toList_map]

theorem lowerAscii_eq (s : String) : lowerAscii s = String.ofList (s.toList.map Char.toLower) := by
  rw [← String.toList_inj, String.toList_ofList, lowerAscii, String.toList_map]

/-! ## Trimming -/

/-- A text without blanks at its ends. -/
def Trimmed (cs : List Char) : Prop := EndsRun isBlank cs ∧ EndsRun isBlank cs.reverse

theorem trimmed_of_forall (h : ∀ c ∈ cs, isBlank c = false) : Trimmed cs :=
  ⟨fun c hc => h c (List.mem_of_mem_head? hc),
    fun c hc => h c (List.mem_reverse.mp (List.mem_of_mem_head? hc))⟩

theorem trimmed_trimChars (cs : List Char) : Trimmed (trimChars cs) := by
  constructor
  · -- what is left starts as the text behind its first blanks does
    have hprefix : trimChars cs <+: cs.dropWhile isBlank := by
      rw [trimChars, dropWhileEnd, ← List.reverse_suffix, List.reverse_reverse]
      exact List.dropWhile_suffix _
    obtain ⟨behind, hbehind⟩ := hprefix
    have hends := endsRun_dropWhile isBlank cs
    rw [← hbehind] at hends
    by_cases hne : trimChars cs = []
    · rw [hne]
      exact endsRun_nil
    · exact (endsRun_append hne).mp hends
  · rw [trimChars, dropWhileEnd, List.reverse_reverse]
    exact endsRun_dropWhile _ _

/-- A text is its trimmed text between blanks. -/
theorem exists_trimChars (cs : List Char) : ∃ before behind,
    (∀ c ∈ before, isBlank c = true) ∧ (∀ c ∈ behind, isBlank c = true) ∧
      cs = before ++ trimChars cs ++ behind := by
  refine ⟨cs.takeWhile isBlank, ((cs.dropWhile isBlank).reverse.takeWhile isBlank).reverse,
    fun _ => List.mem_takeWhile_imp, ?_, ?_⟩
  · intro c hc
    exact List.mem_takeWhile_imp (List.mem_reverse.mp hc)
  · rw [List.append_assoc, trimChars, dropWhileEnd, ← List.reverse_append,
      List.takeWhile_append_dropWhile, List.reverse_reverse, List.takeWhile_append_dropWhile]

/-- The trimmed text between blanks is the only one. -/
theorem trimChars_run {before behind : List Char} (hbefore : ∀ c ∈ before, isBlank c = true)
    (hbehind : ∀ c ∈ behind, isBlank c = true) (h : Trimmed cs) :
    trimChars (before ++ cs ++ behind) = cs := by
  rw [trimChars, dropWhileEnd, List.append_assoc, List.dropWhile_append_of_pos hbefore]
  have hbehind' : ∀ c ∈ behind.reverse, isBlank c = true :=
    fun c hc => hbehind c (List.mem_reverse.mp hc)
  by_cases hne : cs = []
  · rw [hne, List.nil_append, List.dropWhile_eq_nil_iff.mpr hbehind]
    rfl
  · rw [dropWhile_of_endsRun ((endsRun_append hne).mpr h.1), List.reverse_append,
      dropWhile_run hbehind' h.2, List.reverse_reverse]

theorem Trimmed.trimChars_eq (h : Trimmed cs) : trimChars cs = cs := by
  have hrun : trimChars ([] ++ cs ++ []) = cs :=
    trimChars_run (fun _ hc => nomatch hc) (fun _ hc => nomatch hc) h
  rwa [List.nil_append, List.append_nil] at hrun

/-- Blanks in front are trimmed away. -/
theorem trimChars_blanks {blanks : List Char} (hblanks : ∀ c ∈ blanks, isBlank c = true)
    (cs : List Char) : trimChars (blanks ++ cs) = trimChars cs := by
  rw [trimChars, trimChars, List.dropWhile_append_of_pos hblanks]

theorem Trimmed.trimChars_append (h : Trimmed cs) {blanks : List Char}
    (hblanks : ∀ c ∈ blanks, isBlank c = true) : trimChars (blanks ++ cs) = cs := by
  rw [trimChars_blanks hblanks, h.trimChars_eq]

theorem mem_of_mem_trimChars (h : c ∈ trimChars cs) : c ∈ cs := by
  obtain ⟨before, behind, -, -, hcs⟩ := exists_trimChars cs
  rw [hcs]
  exact List.mem_append_left _ (List.mem_append_right _ h)

/-- A first character that is not blank stays the first. -/
theorem head?_trimChars (hc : isBlank c = false) (cs : List Char) :
    (trimChars (c :: cs)).head? = some c := by
  obtain ⟨before, behind, hbefore, hbehind, hcs⟩ := exists_trimChars (c :: cs)
  have hblank : ∀ x, isBlank x = true → c ≠ x := by
    rintro x hx rfl
    rw [hc] at hx
    cases hx
  cases before with
  | cons d before =>
      exact absurd (List.cons_eq_cons.mp hcs).1 (hblank d (hbefore d List.mem_cons_self))
  | nil =>
      cases htrim : trimChars (c :: cs) with
      | cons d more =>
          rw [htrim] at hcs
          rw [(List.cons_eq_cons.mp hcs).1]
          rfl
      | nil =>
          rw [htrim] at hcs
          have hmem : c ∈ behind := by
            rw [show behind = c :: cs from hcs.symm]
            exact List.mem_cons_self
          exact absurd rfl (hblank c (hbehind c hmem))

/-- A last character that is not blank stays the last. -/
theorem trimChars_concat (hc : isBlank c = false) (cs : List Char) :
    ∃ more, trimChars (cs ++ [c]) = more ++ [c] ∧ ∀ x ∈ more, x ∈ cs := by
  obtain ⟨before, behind, hbefore, hbehind, hcs⟩ := exists_trimChars (cs ++ [c])
  rcases List.eq_nil_or_concat' behind with rfl | ⟨behind', d, rfl⟩
  · rw [List.append_nil] at hcs
    rcases List.eq_nil_or_concat' (trimChars (cs ++ [c])) with hnil | ⟨more, d, hmore⟩
    · rw [hnil, List.append_nil] at hcs
      have hblank := hbefore c (by rw [← hcs]; simp)
      rw [hc] at hblank
      cases hblank
    · rw [hmore, ← List.append_assoc] at hcs
      obtain ⟨rfl, rfl⟩ := List.append_singleton_inj.mp hcs
      exact ⟨more, hmore, fun x hx => List.mem_append_right _ hx⟩
  · rw [← List.append_assoc] at hcs
    obtain ⟨-, rfl⟩ := List.append_singleton_inj.mp hcs
    have hblank := hbehind c (by simp)
    rw [hc] at hblank
    cases hblank

/-! ## Cutting -/

theorem splitOnceChars_eq_none_iff {separator : Char} :
    splitOnceChars separator cs = none ↔ separator ∉ cs := by
  induction cs with
  | nil => simp [splitOnceChars]
  | cons c cs ih =>
      rw [splitOnceChars]
      split
      · next heq => simp [heq]
      · next hne => simp [ih, Ne.symm hne]

theorem splitOnceChars_append {separator : Char} {before : List Char} (h : separator ∉ before)
    (after : List Char) :
    splitOnceChars separator (before ++ separator :: after) = some (before, after) := by
  induction before with
  | nil => exact if_pos rfl
  | cons c before ih =>
      rw [List.mem_cons, not_or] at h
      rw [List.cons_append, splitOnceChars, if_neg (Ne.symm h.1), ih h.2]
      rfl

/-- A text is cut where its first separator stands. -/
theorem splitOnceChars_eq_some_iff {separator : Char} {before after : List Char} :
    splitOnceChars separator cs = some (before, after) ↔
      cs = before ++ separator :: after ∧ separator ∉ before := by
  constructor
  · intro h
    induction cs generalizing before with
    | nil => cases h
    | cons c cs ih =>
        rw [splitOnceChars] at h
        split at h
        · next heq =>
            cases h
            exact ⟨by rw [heq]; rfl, List.not_mem_nil⟩
        · next hne =>
            obtain ⟨⟨before', after'⟩, hcut, heq⟩ := Option.map_eq_some_iff.mp h
            cases heq
            obtain ⟨hcs, hnot⟩ := ih hcut
            exact ⟨by rw [hcs]; rfl, by simp [hnot, Ne.symm hne]⟩
  · rintro ⟨rfl, hnot⟩
    exact splitOnceChars_append hnot after

theorem splitList_ne_nil {separator : Char} (cs : List Char) : splitList separator cs ≠ [] := by
  cases cs with
  | nil => simp [splitList]
  | cons c cs =>
      rw [splitList]
      split
      · simp
      · split <;> simp

/-- A piece in front of a separator is cut off. -/
theorem splitList_append {separator : Char} {piece : List Char} (h : separator ∉ piece)
    (rest : List Char) :
    splitList separator (piece ++ separator :: rest) = piece :: splitList separator rest := by
  induction piece with
  | nil => exact if_pos rfl
  | cons c piece ih =>
      rw [List.mem_cons, not_or] at h
      rw [List.cons_append, splitList, if_neg (Ne.symm h.1), ih h.2]

theorem splitList_of_notMem {separator : Char} (h : separator ∉ cs) :
    splitList separator cs = [cs] := by
  induction cs with
  | nil => rfl
  | cons c cs ih =>
      rw [List.mem_cons, not_or] at h
      rw [splitList, if_neg (Ne.symm h.1), ih h.2]

/-- The characters of a piece are those of the text but for the separator. -/
theorem mem_of_mem_splitList {separator : Char} {piece : List Char}
    (h : piece ∈ splitList separator cs) (hc : c ∈ piece) : c ∈ cs ∧ c ≠ separator := by
  induction cs generalizing piece with
  | nil =>
      rw [List.mem_singleton.mp h] at hc
      cases hc
  | cons d cs ih =>
      rw [splitList] at h
      split at h
      · rcases List.mem_cons.mp h with rfl | h
        · cases hc
        · exact (ih h hc).imp_left (List.mem_cons_of_mem _)
      · next hne =>
          split at h
          · next hnil => exact absurd hnil (splitList_ne_nil cs)
          · next first pieces hpieces =>
              rw [hpieces] at ih
              rcases List.mem_cons.mp h with rfl | h
              · rcases List.mem_cons.mp hc with rfl | hc
                · exact ⟨List.mem_cons_self, hne⟩
                · exact (ih List.mem_cons_self hc).imp_left (List.mem_cons_of_mem _)
              · exact (ih (List.mem_cons_of_mem _ h) hc).imp_left (List.mem_cons_of_mem _)

/-- The last piece keeps the last character. -/
theorem splitList_concat {separator : Char} (hc : c ≠ separator) (cs : List Char) :
    ∃ piece, piece ++ [c] ∈ splitList separator (cs ++ [c]) := by
  induction cs with
  | nil => exact ⟨[], by rw [List.nil_append, splitList_of_notMem (by simp [hc.symm])]; simp⟩
  | cons d cs ih =>
      obtain ⟨piece, hpiece⟩ := ih
      rw [List.cons_append, splitList]
      split
      · exact ⟨piece, List.mem_cons_of_mem _ hpiece⟩
      · split
        · next hnil => exact absurd hnil (splitList_ne_nil _)
        · next first pieces hpieces =>
            rw [hpieces] at hpiece
            rcases List.mem_cons.mp hpiece with rfl | hpiece
            · exact ⟨d :: piece, List.mem_cons_self⟩
            · exact ⟨piece, List.mem_cons_of_mem _ hpiece⟩

/-! ## Words -/

theorem wordsFrom_append {word run : List Char} (hrun : ∀ c ∈ run, isBlank c = false)
    (rest : List Char) : wordsFrom word (run ++ rest) = wordsFrom (word ++ run) rest := by
  induction run generalizing word with
  | nil => rw [List.nil_append, List.append_nil]
  | cons c run ih =>
      rw [List.cons_append, wordsFrom, if_neg (by simp [hrun c List.mem_cons_self]),
        ih fun d hd => hrun d (List.mem_cons_of_mem _ hd), List.append_assoc, List.singleton_append]

/-- A word is not empty and has no blank, and its characters are those of the text. -/
theorem of_mem_wordsFrom {word : List Char} {w : String} (h : w ∈ wordsFrom word cs)
    (hword : ∀ c ∈ word, isBlank c = false) :
    w ≠ "" ∧ ∀ c ∈ w.toList, isBlank c = false ∧ (c ∈ word ∨ c ∈ cs) := by
  have hone : ∀ {word : List Char}, ¬ word.isEmpty = true → String.ofList word ≠ "" := by
    intro word hne
    rwa [Ne, String.ofList_eq_empty_iff, ← List.isEmpty_iff]
  induction cs generalizing word with
  | nil =>
      rw [wordsFrom] at h
      split at h
      · cases h
      · next hne =>
          obtain rfl := List.mem_singleton.mp h
          refine ⟨hone hne, fun c hc => ?_⟩
          rw [String.toList_ofList] at hc
          exact ⟨hword c hc, .inl hc⟩
  | cons d cs ih =>
      rw [wordsFrom] at h
      have hnil : ∀ c ∈ ([] : List Char), isBlank c = false := fun _ hc => nomatch hc
      have hlater : w ∈ wordsFrom [] cs →
          w ≠ "" ∧ ∀ c ∈ w.toList, isBlank c = false ∧ (c ∈ word ∨ c ∈ d :: cs) := by
        intro h
        obtain ⟨hne, hall⟩ := ih h hnil
        refine ⟨hne, fun c hc => (hall c hc).imp_right fun hor => .inr ?_⟩
        exact List.mem_cons_of_mem _ (hor.resolve_left List.not_mem_nil)
      split at h
      · split at h
        · exact hlater h
        · next hne =>
            rcases List.mem_cons.mp h with rfl | h
            · refine ⟨hone hne, fun c hc => ?_⟩
              rw [String.toList_ofList] at hc
              exact ⟨hword c hc, .inl hc⟩
            · exact hlater h
      · next hblank =>
          have hword' : ∀ c ∈ word ++ [d], isBlank c = false := by
            intro c hc
            rcases List.mem_append.mp hc with hc | hc
            · exact hword c hc
            · rw [List.mem_singleton.mp hc]
              simpa using hblank
          obtain ⟨hne, hall⟩ := ih h hword'
          refine ⟨hne, fun c hc => (hall c hc).imp_right fun hor => ?_⟩
          rcases hor with hor | hor
          · rcases List.mem_append.mp hor with hor | hor
            · exact .inl hor
            · exact .inr (List.mem_singleton.mp hor ▸ List.mem_cons_self)
          · exact .inr (List.mem_cons_of_mem _ hor)

/-- The last word keeps the last character. -/
theorem wordsFrom_concat (hc : isBlank c = false) (word cs : List Char) :
    ∃ words last, wordsFrom word (cs ++ [c]) = words ++ [String.ofList (last ++ [c])] := by
  induction cs generalizing word with
  | nil =>
      refine ⟨[], word, ?_⟩
      rw [List.nil_append, wordsFrom, if_neg (by simp [hc]), wordsFrom, if_neg (by simp)]
      rfl
  | cons d cs ih =>
      rw [List.cons_append, wordsFrom]
      split
      · split
        · exact ih []
        · obtain ⟨words, last, hwords⟩ := ih []
          exact ⟨_ :: words, last, by rw [hwords]; rfl⟩
      · exact ih _

end Concordance.Text
