import Concordance.Proofs.Query.Formula.Grammar
import Concordance.Proofs.Text.Runs

/-!
# The texts of tokens

How a formula is written, apart from the reader that takes characters from its front.

- `Token.Writes`: the text of a token, as long as it can be in front of what stands behind. A mark
  of an exponent directly behind the digits belongs to a number, and so does a sign behind the mark.
- `Writes`: tokens one behind the other, with blanks anywhere between them.
- `spells_iff_writes`: these are the tokens that characters are cut into. There is one way to do so
  (`existsUnique_writes`).
- `isSome_readDouble_iff`, `isSome_readNat_iff`: which literals stand for a number, and which digits
  for an argument.
-/

namespace Concordance.Formula

open Text

namespace Token

/-- Whether a character starts an exponent. -/
def isMark (c : Char) : Bool := c = 'e' || c = 'E'

/-- Whether a character is a sign. -/
def isSign (c : Char) : Bool := c = '+' || c = '-'

/-- The sign of an exponent, which is left out only if none stands there. -/
def Signs (sign behind : List Char) : Prop :=
  sign = ['+'] ∨ sign = ['-'] ∨ sign = [] ∧ EndsRun isSign behind

/-- The exponent of a number, which is left out only if no mark stands there. -/
inductive Exponent : List Char → List Char → Prop
  | absent {behind : List Char} (h : EndsRun isMark behind) : Exponent [] behind
  | marked {mark : Char} {sign digits behind : List Char} (hmark : isMark mark = true)
      (hsign : Signs sign (digits ++ behind)) (hdigits : ∀ c ∈ digits, c.isDigit = true)
      (hbehind : EndsRun Char.isDigit behind) : Exponent (mark :: (sign ++ digits)) behind

/-- The text of a token in front of what stands behind it. -/
inductive Writes : Token → List Char → List Char → Prop
  | number {mantissa exponent behind : List Char} (hne : mantissa ≠ [])
      (hmantissa : ∀ c ∈ mantissa, isDecimal c = true)
      (hends : EndsRun isDecimal (exponent ++ behind)) (hexponent : Exponent exponent behind) :
      Writes (.number (mantissa ++ exponent)) (mantissa ++ exponent) behind
  | argument {digits behind : List Char} (hdigits : ∀ c ∈ digits, c.isDigit = true)
      (hends : EndsRun Char.isDigit behind) : Writes (.argument digits) ('_' :: digits) behind
  | name {c : Char} {chars behind : List Char} (hletter : isAlphabetic c = true)
      (hchars : ∀ d ∈ chars, continuesName d = true) (hends : EndsRun continuesName behind) :
      Writes (.name (c :: chars)) (c :: chars) behind
  | symbol {c : Char} {behind : List Char} (hdecimal : isDecimal c = false) (hline : c ≠ '_')
      (hletter : isAlphabetic c = false) (hblank : isBlank c = false) :
      Writes (.symbol c) [c] behind

/-! ## Reading a token -/

theorem takeSign_cons (c : Char) (cs : List Char) :
    takeSign (c :: cs) = if c = '+' ∨ c = '-' then ([c], cs) else ([], c :: cs) := rfl

theorem takeSign_of_signs {sign behind : List Char} (h : Signs sign behind) :
    takeSign (sign ++ behind) = (sign, behind) := by
  rcases h with rfl | rfl | ⟨rfl, hends⟩
  · rfl
  · rfl
  · cases behind with
    | nil => rfl
    | cons c behind =>
        have hc := endsRun_cons.mp hends
        simp only [isSign, Bool.or_eq_false_iff, decide_eq_false_iff_not] at hc
        exact if_neg (not_or.mpr hc)

theorem signs_takeSign (cs : List Char) :
    Signs (takeSign cs).1 (takeSign cs).2 ∧ (takeSign cs).1 ++ (takeSign cs).2 = cs := by
  cases cs with
  | nil => exact ⟨.inr (.inr ⟨rfl, endsRun_nil⟩), rfl⟩
  | cons c cs =>
      rw [takeSign_cons]
      by_cases hsign : c = '+' ∨ c = '-'
      · rw [if_pos hsign]
        exact ⟨hsign.imp (congrArg ([·])) fun h => .inl (congrArg ([·]) h), rfl⟩
      · rw [if_neg hsign]
        refine ⟨.inr (.inr ⟨rfl, endsRun_cons.mpr ?_⟩), rfl⟩
        simpa [isSign] using hsign

theorem isMark_iff {c : Char} : isMark c = true ↔ c = 'e' ∨ c = 'E' := by simp [isMark]

theorem takeExponent_cons (c : Char) (cs : List Char) :
    takeExponent (c :: cs) =
      if c = 'e' ∨ c = 'E' then
        (c :: (takeSign cs).1 ++ (takeSign cs).2.takeWhile Char.isDigit,
          (takeSign cs).2.dropWhile Char.isDigit)
      else ([], c :: cs) := rfl

theorem takeExponent_of_exponent {exponent behind : List Char} (h : Exponent exponent behind) :
    takeExponent (exponent ++ behind) = (exponent, behind) := by
  cases h with
  | absent hends =>
      cases behind with
      | nil => rfl
      | cons c behind =>
          have hc := endsRun_cons.mp hends
          rw [← Bool.not_eq_true, isMark_iff] at hc
          exact if_neg hc
  | @marked mark sign digits behind hmark hsign hdigits hbehind =>
      rw [List.cons_append, takeExponent_cons, if_pos (isMark_iff.mp hmark), List.append_assoc,
        takeSign_of_signs hsign]
      dsimp only
      rw [takeWhile_run hdigits hbehind, dropWhile_run hdigits hbehind, List.cons_append]

theorem exponent_takeExponent (cs : List Char) :
    Exponent (takeExponent cs).1 (takeExponent cs).2 ∧
      (takeExponent cs).1 ++ (takeExponent cs).2 = cs := by
  cases cs with
  | nil => exact ⟨.absent endsRun_nil, rfl⟩
  | cons c cs =>
      rw [takeExponent_cons]
      by_cases hmark : c = 'e' ∨ c = 'E'
      · rw [if_pos hmark]
        obtain ⟨hsigns, hcs⟩ := signs_takeSign cs
        have hdigits : (takeSign cs).2.takeWhile Char.isDigit ++
            (takeSign cs).2.dropWhile Char.isDigit = (takeSign cs).2 :=
          List.takeWhile_append_dropWhile
        refine ⟨.marked (isMark_iff.mpr hmark) (hdigits.symm ▸ hsigns)
          (fun _ => List.mem_takeWhile_imp) (endsRun_dropWhile _ _), ?_⟩
        rw [List.cons_append, List.cons_append, List.append_assoc, hdigits, hcs]
      · rw [if_neg hmark]
        refine ⟨.absent (endsRun_cons.mpr ?_), rfl⟩
        rwa [← Bool.not_eq_true, isMark_iff]

/-- The digits and the point lie together. -/
theorem code_of_isDecimal {c : Char} (h : isDecimal c = true) : 0x2E ≤ c.toNat ∧ c.toNat ≤ 0x39 := by
  rcases (by simpa [isDecimal] using h : c.isDigit = true ∨ c = '.') with hdigit | rfl
  · have hcode := code_of_isDigit hdigit
    omega
  · decide

theorem isBlank_of_isDecimal {c : Char} (h : isDecimal c = true) : isBlank c = false := by
  rcases (by simpa [isDecimal] using h : c.isDigit = true ∨ c = '.') with hdigit | rfl
  · exact isBlank_of_isDigit hdigit
  · decide

theorem isDecimal_of_isAlphabetic {c : Char} (h : isAlphabetic c = true) : isDecimal c = false := by
  have hbehind : ∀ r ∈ alphabeticRanges, 0x39 < r.1 := by decide +kernel
  obtain ⟨r, hr, hfirst, -⟩ := inRanges_iff.mp (inRanges_of_isAlphabetic h)
  have := hbehind r hr
  refine Bool.not_eq_true _ ▸ fun hdecimal => ?_
  have := code_of_isDecimal hdecimal
  omega

/-- The text of a token is not empty and does not start with a blank. -/
theorem Writes.exists_cons {t : Token} {text behind : List Char} (h : t.Writes text behind) :
    ∃ c more, text = c :: more ∧ isBlank c = false := by
  cases h with
  | number hne hmantissa =>
      obtain ⟨c, more, rfl⟩ := List.exists_cons_of_ne_nil hne
      exact ⟨c, _, rfl, isBlank_of_isDecimal (hmantissa c List.mem_cons_self)⟩
  | argument => exact ⟨_, _, rfl, by decide⟩
  | name hletter => exact ⟨_, _, rfl, isBlank_of_isAlphabetic hletter⟩
  | symbol _ _ _ hblank => exact ⟨_, _, rfl, hblank⟩

/-- Where the text of a token stands, that token is read. -/
theorem read_of_writes {t : Token} {c : Char} {more behind : List Char}
    (h : t.Writes (c :: more) behind) : read c (more ++ behind) = (t, behind) := by
  generalize htext : c :: more = text at h
  cases h with
  | @number mantissa exponent _ hne hmantissa hends hexponent =>
      obtain ⟨d, digits, rfl⟩ := List.exists_cons_of_ne_nil hne
      obtain ⟨rfl, rfl⟩ := List.cons.inj htext
      have hdigits := fun x hx => hmantissa x (List.mem_cons_of_mem _ hx)
      rw [read, if_pos (hmantissa c List.mem_cons_self), List.append_eq, List.append_assoc,
        takeWhile_run hdigits hends, dropWhile_run hdigits hends,
        takeExponent_of_exponent hexponent]
  | argument hdigits hends =>
      obtain ⟨rfl, rfl⟩ := List.cons.inj htext
      rw [read, if_neg (by decide), if_pos rfl, takeWhile_run hdigits hends,
        dropWhile_run hdigits hends]
  | name hletter hchars hends =>
      obtain ⟨rfl, rfl⟩ := List.cons.inj htext
      have hdecimal : ¬ isDecimal c = true := by simp [isDecimal_of_isAlphabetic hletter]
      have hline : c ≠ '_' := by
        rintro rfl
        exact absurd hletter (by decide)
      rw [read, if_neg hdecimal, if_neg hline, if_pos hletter, takeWhile_run hchars hends,
        dropWhile_run hchars hends]
  | symbol hdecimal hline hletter _ =>
      obtain ⟨rfl, rfl⟩ := List.cons.inj htext
      rw [read, if_neg (by simp [hdecimal]), if_neg hline, if_neg (by simp [hletter])]
      rfl

/-- The token that is read is written there. -/
theorem writes_read {c : Char} (rest : List Char) (hblank : isBlank c = false) :
    ∃ text, (read c rest).1.Writes text (read c rest).2 ∧ c :: rest = text ++ (read c rest).2 := by
  unfold read
  split_ifs with hdecimal hline hletter
  · dsimp only
    obtain ⟨hexponent, hbehind⟩ := exponent_takeExponent (rest.dropWhile isDecimal)
    refine ⟨_, .number (List.cons_ne_nil _ _) ?_ ?_ hexponent, ?_⟩
    · intro d hd
      rcases List.mem_cons.mp hd with rfl | hd
      · exact hdecimal
      · exact List.mem_takeWhile_imp hd
    · exact hbehind.symm ▸ endsRun_dropWhile _ _
    · rw [List.append_assoc, hbehind, List.cons_append, List.takeWhile_append_dropWhile]
  · subst hline
    refine ⟨_, .argument (fun _ => List.mem_takeWhile_imp) (endsRun_dropWhile _ _), ?_⟩
    rw [List.cons_append, List.takeWhile_append_dropWhile]
  · refine ⟨_, .name hletter (fun _ => List.mem_takeWhile_imp) (endsRun_dropWhile _ _), ?_⟩
    rw [List.cons_append, List.takeWhile_append_dropWhile]
  · exact ⟨_, .symbol (by simpa using hdecimal) hline (by simpa using hletter) hblank, rfl⟩

end Token

/-! ## Tokens one behind the other -/

/-- Tokens with blanks between them, and blanks at the end. -/
inductive Writes : List Token → List Char → Prop
  | nil {blanks : List Char} (h : ∀ c ∈ blanks, isBlank c = true) : Writes [] blanks
  | cons {blanks text behind : List Char} {t : Token} {ts : List Token}
      (hblanks : ∀ c ∈ blanks, isBlank c = true) (ht : t.Writes text behind)
      (h : Writes ts behind) : Writes (t :: ts) (blanks ++ text ++ behind)

/-- Characters are cut into tokens if and only if those are written there. -/
theorem spells_iff_writes {cs : List Char} {ts : List Token} : Spells cs ts ↔ Writes ts cs := by
  constructor
  · intro h
    induction h with
    | nil hskip => exact .nil (List.dropWhile_eq_nil_iff.mp hskip)
    | @cons cs c rest ts hskip _ ih =>
        have hblank : isBlank c = false := by
          have hends := endsRun_dropWhile isBlank cs
          rw [show cs.dropWhile isBlank = c :: rest from hskip] at hends
          exact endsRun_cons.mp hends
        obtain ⟨text, htext, hrest⟩ := Token.writes_read rest hblank
        have hcs : cs = cs.takeWhile isBlank ++ text ++ (Token.read c rest).2 := by
          rw [List.append_assoc, ← hrest, ← hskip]
          exact List.takeWhile_append_dropWhile.symm
        rw [hcs]
        exact .cons (fun _ => List.mem_takeWhile_imp) htext ih
  · intro h
    induction h with
    | nil hblanks => exact .nil (List.dropWhile_eq_nil_iff.mpr hblanks)
    | @cons blanks text behind t ts hblanks ht _ ih =>
        obtain ⟨c, more, rfl, hblank⟩ := ht.exists_cons
        have hread := Token.read_of_writes ht
        have hskip : Compiler.skipBlanks (blanks ++ c :: more ++ behind) = c :: (more ++ behind) := by
          rw [List.append_assoc]
          exact dropWhile_run hblanks (endsRun_cons.mpr hblank)
        have hcons : Spells (blanks ++ c :: more ++ behind)
            ((Token.read c (more ++ behind)).1 :: ts) := .cons hskip (by rw [hread]; exact ih)
        rwa [hread] at hcons


theorem exists_spells (cs : List Char) : ∃ ts, Spells cs ts := by
  induction hn : cs.length using Nat.strong_induction_on generalizing cs with
  | _ n ih =>
      cases hskip : Compiler.skipBlanks cs with
      | nil => exact ⟨[], .nil hskip⟩
      | cons c rest =>
          have hread := Token.length_read_le c rest
          have hblanks := (cs.dropWhile_suffix isBlank).length_le
          rw [show cs.dropWhile isBlank = c :: rest from hskip, List.length_cons] at hblanks
          obtain ⟨ts, hts⟩ := ih _ (by omega) (Token.read c rest).2 rfl
          exact ⟨_, .cons hskip hts⟩

theorem Spells.unique {cs : List Char} {ts us : List Token} (h : Spells cs ts)
    (h' : Spells cs us) : ts = us := by
  induction h generalizing us with
  | nil hskip =>
      cases h' with
      | nil => rfl
      | cons hskip' => cases hskip.symm.trans hskip'
  | cons hskip _ ih =>
      cases h' with
      | nil hskip' => cases hskip.symm.trans hskip'
      | cons hskip' h' =>
          obtain ⟨rfl, rfl⟩ := List.cons.inj (hskip.symm.trans hskip')
          rw [ih h']

/-- All characters are written as tokens, in one way. -/
theorem existsUnique_writes (cs : List Char) : ∃! ts, Writes ts cs := by
  obtain ⟨ts, hts⟩ := exists_spells cs
  refine ⟨ts, spells_iff_writes.mp hts, fun us hus => ?_⟩
  exact (spells_iff_writes.mpr hus).unique hts

/-! ## Numbers and arguments -/

namespace Token

/-- An exponent that stands for a number: none, or one with digits. -/
def IsExponent (cs : List Char) : Prop :=
  cs = [] ∨ ∃ mark sign digits, isMark mark = true ∧ sign ∈ [[], ['+'], ['-']] ∧ digits ≠ [] ∧
    (∀ c ∈ digits, c.isDigit = true) ∧ cs = mark :: (sign ++ digits)

/-- A literal that stands for a number: digits with at most one point in front, among or behind
them, and an exponent. -/
def IsNumeral (cs : List Char) : Prop :=
  ∃ whole places exponent, (∀ c ∈ whole ++ places, c.isDigit = true) ∧ whole ++ places ≠ [] ∧
    IsExponent exponent ∧
    (cs = whole ++ '.' :: (places ++ exponent) ∨ places = [] ∧ cs = whole ++ exponent)

theorem IsExponent.endsRun {cs : List Char} (h : IsExponent cs) : EndsRun Char.isDigit cs := by
  rcases h with rfl | ⟨mark, sign, digits, hmark, -, -, -, rfl⟩
  · exact endsRun_nil
  · rcases isMark_iff.mp hmark with rfl | rfl <;> exact endsRun_cons.mpr rfl

/-- The digits behind the mark of an exponent and its sign. -/
theorem isSome_readExponent_digits (negative : Bool) (ds : List Char) :
    (if ds.isEmpty ∨ !ds.all Char.isDigit then none
      else some (if negative then -(Number.natOfDigits ds : Int)
        else Number.natOfDigits ds)).isSome = true ↔
      ds ≠ [] ∧ ∀ d ∈ ds, d.isDigit = true := by
  rw [Option.isSome_ite']
  simp

theorem isSome_readExponent_iff {cs : List Char} :
    (Number.readExponent cs).isSome = true ↔ IsExponent cs := by
  constructor
  · intro h
    cases cs with
    | nil => exact .inl rfl
    | cons c cs =>
        rw [Number.readExponent.eq_def] at h
        dsimp only at h
        split at h
        · next hmark =>
            split at h
            · next ds =>
                obtain ⟨hne, hall⟩ := (isSome_readExponent_digits false ds).mp h
                exact .inr ⟨c, ['+'], ds, isMark_iff.mpr hmark, by simp, hne, hall, rfl⟩
            · next ds =>
                obtain ⟨hne, hall⟩ := (isSome_readExponent_digits true ds).mp h
                exact .inr ⟨c, ['-'], ds, isMark_iff.mpr hmark, by simp, hne, hall, rfl⟩
            · obtain ⟨hne, hall⟩ := (isSome_readExponent_digits false cs).mp h
              exact .inr ⟨c, [], cs, isMark_iff.mpr hmark, by simp, hne, hall, rfl⟩
        · cases h
  · rintro (rfl | ⟨mark, sign, digits, hmark, hsign, hne, hdigits, rfl⟩)
    · rfl
    · rw [Number.readExponent.eq_def]
      dsimp only
      rw [if_pos (isMark_iff.mp hmark)]
      simp only [List.mem_cons, List.not_mem_nil, or_false] at hsign
      rcases hsign with rfl | rfl | rfl
      · split
        · next ds heq =>
            have := hdigits '+' (by rw [show digits = '+' :: ds from heq]; simp)
            cases this
        · next ds heq =>
            have := hdigits '-' (by rw [show digits = '-' :: ds from heq]; simp)
            cases this
        · exact (isSome_readExponent_digits false digits).mpr ⟨hne, hdigits⟩
      · exact (isSome_readExponent_digits false digits).mpr ⟨hne, hdigits⟩
      · exact (isSome_readExponent_digits true digits).mpr ⟨hne, hdigits⟩

/-- A decimal with these digits in front of its exponent. -/
theorem isSome_readDecimal_parts (whole places rest : List Char) :
    (if whole.isEmpty ∧ places.isEmpty then none
      else (Number.readExponent rest).map fun exponent =>
        Double.ofDecimal false (Number.natOfDigits (whole ++ places))
          (exponent - places.length)).isSome = true ↔
      whole ++ places ≠ [] ∧ IsExponent rest := by
  rw [← isSome_readExponent_iff]
  split
  · next hempty => simp_all [List.isEmpty_iff]
  · next hne =>
      rw [Option.isSome_map, List.isEmpty_iff, List.isEmpty_iff, ← List.append_eq_nil_iff] at *
      exact (and_iff_right hne).symm

theorem isSome_readDecimal_point {cs more : List Char}
    (h : cs.dropWhile Char.isDigit = '.' :: more) :
    (Number.readDecimal false cs).isSome = true ↔
      cs.takeWhile Char.isDigit ++ more.takeWhile Char.isDigit ≠ [] ∧
        IsExponent (more.dropWhile Char.isDigit) := by
  unfold Number.readDecimal
  rw [h]
  exact isSome_readDecimal_parts _ _ _

theorem isSome_readDecimal_whole {cs : List Char}
    (h : ∀ more, cs.dropWhile Char.isDigit ≠ '.' :: more) :
    (Number.readDecimal false cs).isSome = true ↔
      cs.takeWhile Char.isDigit ≠ [] ∧ IsExponent (cs.dropWhile Char.isDigit) := by
  have hparts := isSome_readDecimal_parts (cs.takeWhile Char.isDigit) [] (cs.dropWhile Char.isDigit)
  rw [List.append_nil] at hparts
  rw [← hparts]
  unfold Number.readDecimal
  dsimp only
  split
  · next more hpoint => exact absurd hpoint (h more)
  · rw [List.append_nil]

theorem isSome_readDecimal_iff {cs : List Char} :
    (Number.readDecimal false cs).isSome = true ↔ IsNumeral cs := by
  have htake : ∀ {l : List Char}, ∀ c ∈ l.takeWhile Char.isDigit, c.isDigit = true :=
    fun _ => List.mem_takeWhile_imp
  constructor
  · intro h
    have hcs : cs = cs.takeWhile Char.isDigit ++ cs.dropWhile Char.isDigit :=
      List.takeWhile_append_dropWhile.symm
    by_cases hpoint : ∃ more, cs.dropWhile Char.isDigit = '.' :: more
    · obtain ⟨more, hmore⟩ := hpoint
      obtain ⟨hne, hexponent⟩ := (isSome_readDecimal_point hmore).mp h
      refine ⟨_, _, _, List.forall_mem_append.mpr ⟨htake, htake⟩, hne, hexponent, .inl ?_⟩
      rwa [List.takeWhile_append_dropWhile, ← hmore]
    · rw [not_exists] at hpoint
      obtain ⟨hne, hexponent⟩ := (isSome_readDecimal_whole hpoint).mp h
      exact ⟨_, [], _, List.forall_mem_append.mpr ⟨htake, fun _ hc => nomatch hc⟩,
        by rwa [List.append_nil], hexponent, .inr ⟨rfl, hcs⟩⟩
  · rintro ⟨whole, places, exponent, hdigits, hne, hexponent, hcs⟩
    obtain ⟨hwhole, hplaces⟩ := List.forall_mem_append.mp hdigits
    rcases hcs with rfl | ⟨rfl, rfl⟩
    · have hends : EndsRun Char.isDigit ('.' :: (places ++ exponent)) := endsRun_cons.mpr rfl
      rw [isSome_readDecimal_point (dropWhile_run hwhole hends), takeWhile_run hwhole hends,
        takeWhile_run hplaces hexponent.endsRun, dropWhile_run hplaces hexponent.endsRun]
      exact ⟨hne, hexponent⟩
    · rw [List.append_nil] at hne
      have hdrop := dropWhile_run hwhole hexponent.endsRun
      rw [isSome_readDecimal_whole, takeWhile_run hwhole hexponent.endsRun, hdrop]
      · exact ⟨hne, hexponent⟩
      · rintro more hpoint
        rw [hdrop] at hpoint
        subst hpoint
        rcases hexponent with hnil | ⟨mark, sign, digits, hmark, -, -, -, hcons⟩
        · cases hnil
        · rw [← (List.cons.inj hcons).1] at hmark
          cases hmark

theorem toLower_of_isDecimal {c : Char} (h : isDecimal c = true) : c.toLower = c := by
  have hcode := code_of_isDecimal h
  unfold Char.toLower
  rw [dif_neg]
  rintro ⟨hupper, -⟩
  have : 0x41 ≤ c.toNat := hupper
  omega

/-- A literal starts with a digit or a point, so it is neither a sign nor one of the names of
values. -/
theorem isSome_readDouble_iff {mantissa exponent : List Char} (hne : mantissa ≠ [])
    (hmantissa : ∀ c ∈ mantissa, isDecimal c = true) :
    (Number.readDouble (String.ofList (mantissa ++ exponent))).isSome = true ↔
      IsNumeral (mantissa ++ exponent) := by
  obtain ⟨c, digits, rfl⟩ := List.exists_cons_of_ne_nil hne
  have hc := hmantissa c List.mem_cons_self
  have hname : ∀ (d : Char) (name : List Char), isDecimal d = false →
      String.ofList ((c :: digits ++ exponent).map Char.toLower) ≠ String.ofList (d :: name) := by
    intro d name hd heq
    rw [String.ofList_inj, List.cons_append, List.map_cons, toLower_of_isDecimal hc] at heq
    rw [(List.cons.inj heq).1, hd] at hc
    cases hc
  rw [← isSome_readDecimal_iff, List.cons_append]
  unfold Number.readDouble
  rw [String.toList_ofList]
  split
  next negative cs hsign =>
  have hunsigned : (negative, cs) = (false, c :: (digits ++ exponent)) := by
    rw [← hsign]
    split
    · next heq =>
        rw [(List.cons.inj heq).1] at hc
        cases hc
    · next heq =>
        rw [(List.cons.inj heq).1] at hc
        cases hc
    · rfl
  obtain ⟨rfl, rfl⟩ := Prod.mk.inj hunsigned
  split
  · next heq => exact absurd heq (hname 'i' ['n', 'f'] rfl)
  · next heq => exact absurd heq (hname 'i' ['n', 'f', 'i', 'n', 'i', 't', 'y'] rfl)
  · next heq => exact absurd heq (hname 'n' ['a', 'n'] rfl)
  · rfl

/-- Digits without a sign stand for an argument if there are any, below the limit. -/
theorem isSome_readNat_iff {digits : List Char} (hdigits : ∀ c ∈ digits, c.isDigit = true) :
    (Number.readNat Wire.word64 (String.ofList digits)).isSome = true ↔
      digits ≠ [] ∧ Number.natOfDigits digits < Wire.word64 := by
  have hall : digits.all Char.isDigit = true := List.all_eq_true.mpr hdigits
  unfold Number.readNat
  rw [String.toList_ofList]
  dsimp only
  split
  · next rest => cases hdigits '+' List.mem_cons_self
  · rw [hall]
    by_cases hne : digits = []
    · simp [hne]
    · simp [hne]

end Token

end Concordance.Formula
