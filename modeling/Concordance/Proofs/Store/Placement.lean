import Concordance.Proofs.Store.Settings

/-!
# Where the values of settings stand

Whatever the settings of a text are, each value is found in it between two quotes that it does not
have (`Quoted`), or bare behind an equals sign up to a semicolon or the end (`Bare`).

- `stands_of_mem`: every value that is read stands in the text.
- `Bare.of_semicolon`: a bare value stands on one side of a semicolon.
- `Bare.of_quote`: behind an equals sign and a quote, no bare value starts.
- `Bare.concat`: a bare value that runs to a quote at the end of the text has it at its end.
- `Quoted.between`: the quotes of a value stand where quotes of their kind are.
-/

namespace Concordance.Config

open Text

/-- A value that stands between two quotes and has none of them itself. -/
def Quoted (quote : Char) (value cs : List Char) : Prop :=
  quote ∉ value ∧ ∃ before after, cs = before ++ quote :: (value ++ quote :: after)

/-- A value that runs from an equals sign to a semicolon or to the end, without the blanks around
it. It does not start with a quote. -/
def Bare (value cs : List Char) : Prop :=
  value.head? ≠ some '\'' ∧ ∃ before run after, cs = before ++ '=' :: (run ++ after) ∧ ';' ∉ run ∧
    (after = [] ∨ ∃ more, after = ';' :: more) ∧ trimChars run = value

def Stands (value cs : List Char) : Prop :=
  Quoted '\'' value cs ∨ Quoted '"' value cs ∨ Bare value cs

section Stands

variable {value cs : List Char}

theorem Quoted.append {quote : Char} (h : Quoted quote value cs) (before : List Char) :
    Quoted quote value (before ++ cs) := by
  obtain ⟨hnot, more, after, rfl⟩ := h
  exact ⟨hnot, before ++ more, after, (List.append_assoc ..).symm⟩

theorem Bare.append (h : Bare value cs) (before : List Char) : Bare value (before ++ cs) := by
  obtain ⟨hhead, more, run, after, rfl, hrun⟩ := h
  exact ⟨hhead, before ++ more, run, after, (List.append_assoc ..).symm, hrun⟩

theorem Stands.append (h : Stands value cs) (before : List Char) : Stands value (before ++ cs) :=
  h.imp (·.append before) (·.imp (·.append before) (·.append before))

/-- A value that is read behind an equals sign stands there. -/
theorem stands_of_readValue {key value : String} {cs rest : List Char}
    (h : readValue key (cs.dropWhile isBlank) = .ok (value, rest)) :
    Stands value.toList ('=' :: cs) := by
  have hblanks := cs.takeWhile_append_dropWhile (p := isBlank)
  rcases readValue_eq_ok h with ⟨quote, hquote, hnot, heq⟩ | ⟨hhead, hvalue, -⟩
  · have hquoted : Quoted quote value.toList ('=' :: cs) :=
      ⟨hnot, '=' :: cs.takeWhile isBlank, rest, by rw [List.cons_append, ← heq, hblanks]⟩
    rcases hquote with rfl | rfl
    · exact .inl hquoted
    · exact .inr (.inl hquoted)
  · have hends := endsRun_dropWhile isBlank cs
    generalize cs.dropWhile isBlank = behind at hblanks hhead hvalue hends
    have hrun := behind.takeWhile_append_dropWhile (p := (· ≠ ';'))
    have htrim : value.toList = trimChars (behind.takeWhile (· ≠ ';')) := by
      rw [hvalue, trim, String.toList_ofList, String.toList_ofList]
    refine .inr (.inr ⟨?_, [], cs.takeWhile isBlank ++ behind.takeWhile (· ≠ ';'),
      behind.dropWhile (· ≠ ';'), ?_, ?_, ?_, ?_⟩)
    · rw [htrim]
      cases behind with
      | nil => exact Option.some_ne_none _ |>.symm
      | cons c behind =>
          rw [List.takeWhile_cons]
          split
          · rwa [head?_trimChars (endsRun_cons.mp hends)]
          · exact Option.some_ne_none _ |>.symm
    · rw [List.nil_append, List.append_assoc, hrun, hblanks]
    · rw [List.mem_append, not_or]
      exact ⟨fun h => absurd (List.mem_takeWhile_imp h) (by decide),
        fun h => absurd (List.mem_takeWhile_imp h) (by decide)⟩
    · cases hafter : behind.dropWhile (· ≠ ';') with
      | nil => exact .inl rfl
      | cons c more =>
          have hc := endsRun_dropWhile (· ≠ ';') behind c (by rw [hafter]; rfl)
          rw [decide_eq_false_iff_not, not_not] at hc
          exact .inr ⟨more, by rw [hc]⟩
    · rw [trimChars_blanks fun c => List.mem_takeWhile_imp, htrim]

/-- Every value that is read stands in the text. -/
theorem stands_of_mem {n : Nat} {cs : List Char} {pairs : List (String × String)}
    (h : readPairs n cs = .ok pairs) {key value : String} (hmem : (key, value) ∈ pairs) :
    Stands value.toList cs := by
  induction n generalizing cs pairs with
  | zero =>
      cases h
      cases hmem
  | succ n ih =>
      have hgap := cs.takeWhile_append_dropWhile (p := isGap)
      rw [readPairs_succ] at h
      split at h
      · cases h
        cases hmem
      · have hkey := (cs.dropWhile isGap).takeWhile_append_dropWhile (p := isKey)
        split at h
        · next rest heq =>
            obtain ⟨⟨first, behind⟩, hfirst, h⟩ := Fallible.bind_eq_ok.mp h
            obtain ⟨more, hmore, h⟩ := Fallible.bind_eq_ok.mp h
            cases h
            have hstands := stands_of_readValue hfirst
            obtain ⟨before, hbefore⟩ :=
              (readValue_suffix hfirst).trans (List.dropWhile_suffix isBlank)
            rw [← hgap, ← hkey, heq, ← List.append_assoc]
            rcases List.mem_cons.mp hmem with hpair | hmem
            · cases hpair
              exact hstands.append _
            · rw [← hbefore, ← List.cons_append, ← List.append_assoc]
              exact (ih hmore hmem).append _
        · cases h

end Stands

/-! ## Parts of a text -/

section Parts

variable {value cs : List Char}

theorem Bare.subset (h : Bare value cs) : ∀ x ∈ value, x ∈ cs ∧ x ≠ ';' := by
  obtain ⟨-, before, run, after, rfl, hrun, -, rfl⟩ := h
  intro x hx
  have hx := mem_of_mem_trimChars hx
  exact ⟨by simp [hx], fun heq => hrun (heq ▸ hx)⟩

/-- The equals sign of a bare value is none of its characters. -/
theorem Bare.count_lt (h : Bare value cs) (p : Char → Bool) (hp : p '=' = true) :
    (value.filter p).length < (cs.filter p).length := by
  obtain ⟨-, before, run, after, rfl, -, -, rfl⟩ := h
  obtain ⟨first, last, -, -, hrun⟩ := exists_trimChars run
  conv => rhs; rw [hrun]
  simp [hp]
  omega

/-- A bare value stands on one side of a semicolon. -/
theorem Bare.of_semicolon {left right : List Char} (h : Bare value (left ++ ';' :: right)) :
    Bare value left ∨ Bare value right := by
  obtain ⟨hhead, before, run, after, heq, hrun, hafter, htrim⟩ := h
  rcases List.append_eq_append_iff.mp heq with ⟨middle, hbefore, hright⟩ | ⟨middle, hleft, hbehind⟩
  · -- the equals sign stands on the right
    cases middle with
    | nil => cases hright
    | cons c middle =>
        obtain ⟨-, hright⟩ := List.cons_eq_cons.mp hright
        exact .inr ⟨hhead, middle, run, after, hright, hrun, hafter, htrim⟩
  · cases middle with
    | nil => cases hbehind
    | cons c middle =>
        obtain ⟨rfl, hrest⟩ := List.cons_eq_cons.mp hbehind
        left
        rcases List.append_eq_append_iff.mp hrest with
          ⟨rest, hmiddle, hafter'⟩ | ⟨rest, hrun', hsemi⟩
        · refine ⟨hhead, before, run, rest, by rw [hleft, hmiddle], hrun, ?_, htrim⟩
          cases rest with
          | nil => exact .inl rfl
          | cons d rest =>
              rcases hafter with rfl | ⟨more, rfl⟩
              · cases hafter'
              · exact .inr ⟨rest, by rw [(List.cons_eq_cons.mp hafter').1]⟩
        · cases rest with
          | nil =>
              rw [List.append_nil] at hrun'
              refine ⟨hhead, before, run, [], ?_, hrun, .inl rfl, htrim⟩
              rw [hleft, hrun', List.append_nil]
          | cons d rest =>
              obtain ⟨rfl, -⟩ := List.cons_eq_cons.mp hsemi
              exact absurd (by rw [hrun']; simp) hrun

/-- A bare value stands on one side of a semicolon, also of one behind a quote. -/
theorem Bare.of_quote_semicolon {quote : Char} {left right : List Char}
    (h : Bare value (left ++ quote :: ';' :: right)) :
    Bare value (left ++ [quote]) ∨ Bare value right := by
  rw [List.append_cons] at h
  exact h.of_semicolon

/-- A bare value stands behind an equals sign. -/
theorem Bare.of_cons {c : Char} (hc : c ≠ '=') (h : Bare value (c :: cs)) : Bare value cs := by
  obtain ⟨hhead, before, run, after, heq, hrun⟩ := h
  cases before with
  | nil => exact absurd (List.cons_eq_cons.mp heq).1 hc
  | cons d before => exact ⟨hhead, before, run, after, (List.cons_eq_cons.mp heq).2, hrun⟩

/-- No bare value starts with the quote behind an equals sign. -/
theorem Bare.of_quote {key : List Char} (hkey : '=' ∉ key)
    (h : Bare value (key ++ '=' :: '\'' :: cs)) : Bare value cs := by
  induction key with
  | nil =>
      obtain ⟨hhead, before, run, after, heq, hsemi, hafter, htrim⟩ := h
      rcases before with _ | ⟨c, _ | ⟨d, before⟩⟩
      · exfalso
        obtain ⟨-, heq⟩ := List.cons_eq_cons.mp heq
        cases run with
        | nil =>
            rcases hafter with rfl | ⟨more, rfl⟩
            · cases heq
            · cases heq
        | cons c run =>
            obtain ⟨rfl, -⟩ := List.cons_eq_cons.mp heq
            exact hhead (htrim ▸ head?_trimChars (by decide) run)
      · cases heq
      · obtain ⟨-, heq⟩ := List.cons_eq_cons.mp heq
        exact ⟨hhead, before, run, after, (List.cons_eq_cons.mp heq).2, hsemi, hafter, htrim⟩
  | cons c key ih =>
      rw [List.mem_cons, not_or] at hkey
      exact ih hkey.2 (h.of_cons (Ne.symm hkey.1))

/-- A bare value that runs to the end of a text ends like it. -/
theorem Bare.concat {x : Char} (hx : isBlank x = false) (hne : x ≠ '=' ∧ x ≠ ';')
    (h : Bare value (cs ++ [x])) (hend : ';' ∉ cs ∨ x ∈ value ∧ x ∉ cs) :
    ∃ more, value = more ++ [x] ∧ ∀ y ∈ more, y ∈ cs := by
  obtain ⟨-, before, run, after, heq, -, hafter, rfl⟩ := h
  have hall : after = [] := by
    rcases hafter with rfl | ⟨more, rfl⟩
    · rfl
    · exfalso
      rcases List.eq_nil_or_concat' more with rfl | ⟨more, y, rfl⟩
      · rw [← List.cons_append, ← List.append_assoc] at heq
        exact hne.2 (List.append_singleton_inj.mp heq).2
      · have hall : before ++ '=' :: (run ++ ';' :: (more ++ [y])) =
            before ++ '=' :: (run ++ ';' :: more) ++ [y] := by simp
        have hcs := (List.append_singleton_inj.mp (heq.trans hall)).1
        rcases hend with hend | ⟨hmem, hnot⟩
        · exact hend (by rw [hcs]; simp)
        · exact hnot (by rw [hcs]; simp [mem_of_mem_trimChars hmem])
  rw [hall, List.append_nil] at heq
  rcases List.eq_nil_or_concat' run with rfl | ⟨run, y, rfl⟩
  · exact absurd (List.append_singleton_inj.mp heq).2 hne.1
  · rw [← List.cons_append, ← List.append_assoc] at heq
    obtain ⟨rfl, rfl⟩ := List.append_singleton_inj.mp heq
    obtain ⟨more, hmore, hsub⟩ := trimChars_concat hx run
    exact ⟨more, hmore, fun z hz => by simp [hsub z hz]⟩

/-- The quotes of a value stand behind what has no quotes of their kind. -/
theorem Quoted.of_append {quote : Char} {left : List Char} (hleft : quote ∉ left)
    (h : Quoted quote value (left ++ cs)) : Quoted quote value cs := by
  induction left with
  | nil => exact h
  | cons c left ih =>
      rw [List.mem_cons, not_or] at hleft
      refine ih hleft.2 ?_
      obtain ⟨hnot, before, after, heq⟩ := h
      cases before with
      | nil => exact absurd (List.cons_eq_cons.mp heq).1.symm hleft.1
      | cons d before => exact ⟨hnot, before, after, (List.cons_eq_cons.mp heq).2⟩

/-- The quotes of a value stand in front of what has no quotes of their kind. -/
theorem Quoted.of_append_right {quote : Char} {right : List Char} (hright : quote ∉ right)
    (h : Quoted quote value (cs ++ right)) : Quoted quote value cs := by
  induction right using List.reverseRecOn with
  | nil => rwa [List.append_nil] at h
  | append_singleton right c ih =>
      rw [List.mem_append, List.mem_singleton, not_or] at hright
      refine ih hright.1 ?_
      obtain ⟨hnot, before, after, heq⟩ := h
      rw [← List.append_assoc] at heq
      rcases List.eq_nil_or_concat' after with rfl | ⟨after, d, rfl⟩
      · rw [← List.cons_append, ← List.append_assoc] at heq
        exact absurd (List.append_singleton_inj.mp heq).2.symm hright.2
      · have hall : before ++ quote :: (value ++ quote :: (after ++ [d])) =
            before ++ quote :: (value ++ quote :: after) ++ [d] := by simp
        exact ⟨hnot, before, after, (List.append_singleton_inj.mp (heq.trans hall)).1⟩

theorem Quoted.subset {quote : Char} (h : Quoted quote value cs) :
    quote ∈ cs ∧ ∀ x ∈ value, x ∈ cs ∧ x ≠ quote := by
  obtain ⟨hnot, before, after, rfl⟩ := h
  refine ⟨by simp, fun x hx => ⟨by simp [hx], ?_⟩⟩
  rintro rfl
  exact hnot hx

end Parts

end Concordance.Config
