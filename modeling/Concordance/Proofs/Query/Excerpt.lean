import Concordance.Proofs.Query.BestWindow
import Mathlib.Data.List.Infix
import Mathlib.Data.Nat.PSub

/-!
# The tokens of a phrase

The tokens that are shown for a window are found by their places: two searches, one walk back and
one walk on (`rangeSteps`). Here every look at a place and every difference is checked, and there is
no answer if one of them fails. For tokens in order none of them does, and the places that come out
are those of the excerpt (`rangeSteps_spec`).

The walks share one budget. Each of them is described by one lemma that says all of it: where it
stops, that it has passed no end of a sentence, and that it has kept to the budget if it has moved at
all (`walkBack_spec`, `walkOn_spec`).
-/

namespace Concordance.Phrase

variable {size first last : Nat} {w : Window} {tokens : List ForwardEntry}

/-! ## Steps with checked places -/

/-- Moves the first place back to the start of the sentence, as long as there is room. -/
def walkBack (size : Nat) (tokens : List ForwardEntry) (last : Nat) : (first : Nat) → Option Nat
  | 0 => some 0
  | first + 1 => do
    let t ← tokens[first]?
    if endsSentence t then some (first + 1)
    else do
      let length ← last.psub (first + 1)
      if length + 1 < size then walkBack size tokens last first else some (first + 1)

/-- Moves the last place on to the end of the sentence, as long as there is room. -/
def walkOn (size : Nat) (tokens : List ForwardEntry) (first last : Nat) : Option Nat :=
  if last + 1 < tokens.length then do
    let t ← tokens[last]?
    if endsSentence t then some last
    else do
      let length ← last.psub first
      if length + 1 < size then walkOn size tokens first (last + 1) else some last
  else some last
termination_by tokens.length - last

/-- The tokens from one place to another one, both included. -/
def slice? (tokens : List ForwardEntry) (first last : Nat) : Option (List ForwardEntry) :=
  if first ≤ last + 1 ∧ last < tokens.length then some ((tokens.take (last + 1)).drop first) else none

/-- The places of the first and the last token that are shown for a window; none if all tokens are in
front of it. -/
def rangeSteps (size : Nat) (w : Window) (tokens : List ForwardEntry) :
    Option (Option (Nat × Nat)) :=
  let first := tokens.findIdx fun t => w.start ≤ t.position
  if tokens.length ≤ first then some none
  else do
    let last := max (tokens.findIdx (fun t => w.stop ≤ t.position) - 1) first
    let first ← walkBack size tokens last first
    let last ← walkOn size tokens first last
    some (some (first, last))

/-! ## The walks -/

@[simp] theorem sentenceRest_nil (previous : ForwardEntry) (budget : Nat) :
    sentenceRest previous budget [] = [] := by
  cases budget <;> rfl

@[simp] theorem sentenceRest_zero (previous : ForwardEntry) (behind : List ForwardEntry) :
    sentenceRest previous 0 behind = [] := rfl

/-- Nothing goes on behind the end of a sentence. -/
theorem sentenceRest_of_ends {previous : ForwardEntry} (h : endsSentence previous = true)
    (budget : Nat) (behind : List ForwardEntry) : sentenceRest previous budget behind = [] := by
  cases behind with
  | nil => exact sentenceRest_nil previous budget
  | cons t rest =>
      cases budget with
      | zero => rfl
      | succ budget => rw [sentenceRest, if_pos h]

/-- A walk back ends, has passed no end of a sentence, and has kept to the budget. -/
theorem walkBack_spec (size : Nat) (hlast : last < tokens.length) (hfirst : first ≤ last) :
    ∃ first', walkBack size tokens last first = some first' ∧
      first' + (sentenceStart (size - (last + 1 - first)) (tokens.take first).reverse).length =
        first ∧
      (∀ i (h : i < tokens.length), first' ≤ i → i < first → endsSentence tokens[i] = false) ∧
      (first' = first ∨ last + 1 - first' ≤ size) := by
  induction first with
  | zero => exact ⟨0, rfl, by simp [sentenceStart], by omega, .inl rfl⟩
  | succ first ih =>
      have hget : tokens[first]? = some tokens[first] := List.getElem?_eq_getElem (by omega)
      have htake : (tokens.take (first + 1)).reverse =
          tokens[first] :: (tokens.take first).reverse := by
        rw [List.take_succ_eq_append_getElem (by omega), List.reverse_append]
        rfl
      unfold walkBack sentenceStart
      rw [hget, Option.bind_eq_bind, Option.bind_some, htake]
      by_cases hends : endsSentence tokens[first] = true
      · rw [if_pos hends, List.takeWhile_cons_of_neg (by simp [hends])]
        exact ⟨_, rfl, by simp, by omega, .inl rfl⟩
      · rw [if_neg hends, Option.bind_eq_bind, Nat.psub_eq_sub hfirst, Option.bind_some,
          List.takeWhile_cons_of_pos (by simp [hends])]
        by_cases hroom : last - (first + 1) + 1 < size
        · rw [if_pos hroom]
          obtain ⟨first', hwalk, hlength, hpassed, hshort⟩ := ih (by omega)
          have hbudget : size - (last + 1 - (first + 1)) = size - (last + 1 - first) + 1 := by omega
          refine ⟨first', hwalk, ?_, ?_, .inr (by omega)⟩
          · rw [hbudget, List.take_succ_cons, List.length_cons]
            unfold sentenceStart at hlength
            omega
          · intro i hi hle hless
            by_cases hlast : i = first
            · subst hlast
              simpa using hends
            · exact hpassed i hi hle (by omega)
        · have hbudget : size - (last + 1 - (first + 1)) = 0 := by omega
          rw [if_neg hroom, hbudget, List.take_zero]
          exact ⟨_, rfl, rfl, by omega, .inl rfl⟩

/-- A walk on ends at a token, has passed no end of a sentence, and has kept to the budget. -/
theorem walkOn_spec (size : Nat) (hlast : last < tokens.length) (hfirst : first ≤ last) :
    ∃ last', walkOn size tokens first last = some last' ∧ last' < tokens.length ∧
      last' = last + (sentenceRest tokens[last] (size - (last + 1 - first))
        (tokens.drop (last + 1))).length ∧
      (∀ i (h : i < tokens.length), last ≤ i → i < last' → endsSentence tokens[i] = false) ∧
      (last' = last ∨ last' + 1 - first ≤ size) := by
  induction hrest : tokens.length - last generalizing last with
  | zero => omega
  | succ n ih =>
      unfold walkOn
      by_cases hmore : last + 1 < tokens.length
      · have hget : tokens[last]? = some tokens[last] := List.getElem?_eq_getElem hlast
        have hdrop : tokens.drop (last + 1) = tokens[last + 1] :: tokens.drop (last + 1 + 1) :=
          List.drop_eq_getElem_cons hmore
        rw [if_pos hmore, hget, Option.bind_eq_bind, Option.bind_some, hdrop]
        by_cases hends : endsSentence tokens[last] = true
        · rw [if_pos hends, sentenceRest_of_ends hends]
          exact ⟨last, rfl, hlast, rfl, by omega, .inl rfl⟩
        · rw [if_neg hends, Option.bind_eq_bind, Nat.psub_eq_sub hfirst, Option.bind_some]
          by_cases hroom : last - first + 1 < size
          · have hbudget : size - (last + 1 - first) = size - (last + 1 + 1 - first) + 1 := by omega
            obtain ⟨last', hwalk, hinside, hlength, hpassed, hshort⟩ :=
              ih hmore (by omega) (by omega)
            rw [if_pos hroom, hbudget, sentenceRest, if_neg hends, List.length_cons]
            refine ⟨last', hwalk, hinside, by omega, ?_, .inr (by omega)⟩
            intro i hi hle hless
            by_cases hsame : i = last
            · subst hsame
              simpa using hends
            · exact hpassed i hi (by omega) hless
          · have hbudget : size - (last + 1 - first) = 0 := by omega
            rw [if_neg hroom, hbudget, sentenceRest_zero]
            exact ⟨last, rfl, hlast, rfl, by omega, .inl rfl⟩
      · rw [if_neg hmore, List.drop_of_length_le (by omega), sentenceRest_nil]
        exact ⟨last, rfl, hlast, rfl, by omega, .inl rfl⟩

/-! ## What is shown for a window -/

/-- Tokens in the order of their positions. -/
def InOrder (tokens : List ForwardEntry) : Prop :=
  tokens.Pairwise fun a b => a.position ≤ b.position

instance (tokens : List ForwardEntry) : Decidable (InOrder tokens) :=
  inferInstanceAs (Decidable (tokens.Pairwise _))

/-- Places between which the tokens are shown for a window. -/
structure IsRange (size : Nat) (w : Window) (tokens : List ForwardEntry) (first last : Nat) :
    Prop where
  ordered : first ≤ last
  inside : last < tokens.length
  /-- The tokens of the window are shown. -/
  shows : ∀ i (h : i < tokens.length), w.start ≤ tokens[i].position → tokens[i].position < w.stop →
    first ≤ i ∧ i ≤ last
  /-- No more tokens are shown than allowed, unless the window has more; one is always shown. -/
  short : last + 1 - first ≤
    max size (max 1 (tokens.countP fun t => w.start ≤ t.position ∧ t.position < w.stop))
  /-- A token that is shown in front of the window ends no sentence. -/
  before : ∀ i (h : i < tokens.length), first ≤ i → tokens[i].position < w.start →
    endsSentence tokens[i] = false
  /-- A token that is shown ends no sentence if the next one is shown too, behind the window. -/
  behind : ∀ i (h : i + 1 < tokens.length), first ≤ i → i < last → w.stop ≤ tokens[i + 1].position →
    endsSentence tokens[i] = false

/-- An excerpt has the tokens from one place to another one. -/
structure Excerpt.Shows (e : Excerpt) (tokens : List ForwardEntry) (first last : Nat) : Prop where
  ordered : first ≤ last
  inside : last < tokens.length
  shown : e.tokens = (tokens.take (last + 1)).drop first
  before : e.cutBefore = decide (0 < first)
  behind : e.cutBehind = decide (last + 1 < tokens.length)

theorem Excerpt.Shows.slice? {e : Excerpt} (h : e.Shows tokens first last) :
    slice? tokens first last = some e.tokens := by
  rw [Phrase.slice?, if_pos ⟨Nat.le_succ_of_le h.ordered, h.inside⟩, h.shown]

/-- Tokens between others are shown by an excerpt of them. -/
theorem Excerpt.shows_of_append {front shown rest : List ForwardEntry} {cutBefore cutBehind : Bool}
    (hne : shown ≠ []) (htokens : tokens = front ++ shown ++ rest)
    (hbefore : cutBefore = decide (0 < front.length))
    (hbehind : cutBehind = decide (0 < rest.length)) (hfirst : first = front.length) (hlast : last + 1 = front.length + shown.length) :
    (⟨shown, cutBefore, cutBehind⟩ : Excerpt).Shows tokens first last := by
  have hpos := List.length_pos_iff.mpr hne
  have hlength : tokens.length = front.length + shown.length + rest.length := by
    rw [htokens, List.length_append, List.length_append]
  refine ⟨by omega, by omega, ?_, by rw [hbefore, hfirst], ?_⟩
  · rw [hlast, hfirst, htokens, ← List.length_append, List.take_left, List.drop_left]
  · show cutBehind = _
    rw [hbehind, decide_eq_decide]
    omega

theorem findIdx_iff (horder : InOrder tokens) (position : Nat) {i : Nat} (hi : i < tokens.length) :
    tokens.findIdx (fun t => position ≤ t.position) ≤ i ↔ position ≤ tokens[i].position := by
  constructor
  · intro hle
    have hfound : tokens.findIdx (fun t => position ≤ t.position) < tokens.length :=
      Nat.lt_of_le_of_lt hle hi
    have hthere := List.findIdx_getElem (w := hfound)
    simp only [decide_eq_true_eq] at hthere
    rcases Nat.lt_or_eq_of_le hle with hless | hsame
    · exact Nat.le_trans hthere (List.pairwise_iff_getElem.mp horder _ _ hfound hi hless)
    · simpa only [← hsame] using hthere
  · intro hle
    refine Nat.le_of_not_lt fun hless => ?_
    have hnot := List.not_of_lt_findIdx hless
    simp at hnot
    omega

/-- The members that a property holds of first, by their number. -/
theorem takeWhile_eq_take {α : Type} {p : α → Bool} {l : List α} {n : Nat}
    (hall : ∀ i (h : i < l.length), i < n → p l[i] = true)
    (hnext : ∀ h : n < l.length, p l[n] = false) :
    l.takeWhile p = l.take n ∧ l.dropWhile p = l.drop n := by
  induction l generalizing n with
  | nil => simp
  | cons a rest ih =>
      cases n with
      | zero =>
          have ha : p a = false := hnext (Nat.succ_pos _)
          simp [ha]
      | succ n =>
          have ha : p a = true := hall 0 (Nat.succ_pos _) (Nat.succ_pos _)
          obtain ⟨htake, hdrop⟩ := ih
            (fun i hi hless => hall (i + 1) (Nat.succ_lt_succ hi) (Nat.succ_lt_succ hless))
            (fun h => hnext (Nat.succ_lt_succ h))
          simp [ha, htake, hdrop]

/-- From a place on, the tokens in front of a position are those up to the first one that is not. -/
theorem takeWhile_position (horder : InOrder tokens) (position : Nat) {k n : Nat}
    (hn : k + n = max k (tokens.findIdx fun t => position ≤ t.position)) :
    ((tokens.drop k).takeWhile fun t => t.position < position) = (tokens.drop k).take n ∧
      ((tokens.drop k).dropWhile fun t => t.position < position) = (tokens.drop k).drop n := by
  refine takeWhile_eq_take ?_ ?_
  · intro i hi hless
    rw [List.length_drop] at hi
    have := findIdx_iff horder position (i := k + i) (by omega)
    rw [List.getElem_drop]
    simp only [decide_eq_true_eq]
    omega
  · intro h
    rw [List.length_drop] at h
    have := findIdx_iff horder position (i := k + n) (by omega)
    rw [List.getElem_drop]
    simp only [decide_eq_false_iff_not]
    omega

theorem sentenceStart_prefix_before (budget : Nat) (before : List ForwardEntry) :
    sentenceStart budget before <+: before :=
  (List.take_prefix budget _).trans (List.takeWhile_prefix _)

theorem sentenceRest_prefix_behind (previous : ForwardEntry) (budget : Nat)
    (behind : List ForwardEntry) : sentenceRest previous budget behind <+: behind := by
  induction behind generalizing previous budget with
  | nil =>
      rw [sentenceRest_nil]
  | cons t rest ih =>
      cases budget with
      | zero => exact List.nil_prefix
      | succ budget =>
          rw [sentenceRest]
          split
          · exact List.nil_prefix
          · exact List.cons_prefix_cons.mpr ⟨rfl, ih t budget⟩

/-- The excerpt of a window, by places: `first` and `last` are those of its first and last token. -/
theorem excerpt?_eq (horder : InOrder tokens)
    (hfirst : first = tokens.findIdx fun t => w.start ≤ t.position) (hinside : first < tokens.length)
    (hlast : last = max (tokens.findIdx (fun t => w.stop ≤ t.position) - 1) first)
    (hlast' : last < tokens.length) :
    excerpt? size w tokens =
      let back := sentenceStart (size - (last + 1 - first)) (tokens.take first).reverse
      let ahead := sentenceRest tokens[last] (size - (last + 1 - first) - back.length)
        (tokens.drop (last + 1))
      some ⟨back.reverse ++ (tokens.take (last + 1)).drop first ++ ahead,
        back.length < first, ahead.length < (tokens.drop (last + 1)).length⟩ := by
  obtain ⟨hbefore, hfrom⟩ := takeWhile_position horder w.start (k := 0) (n := first) (by omega)
  obtain ⟨hcore, hbehind⟩ := takeWhile_position horder w.stop (k := first + 1) (n := last - first)
    (by omega)
  rw [List.drop_zero] at hbefore hfrom
  have hsplit : tokens.drop first = tokens[first] :: tokens.drop (first + 1) :=
    List.drop_eq_getElem_cons hinside
  -- the tokens of the window and the first one are those from `first` to `last`
  have hshown : tokens[first] :: (tokens.drop (first + 1)).take (last - first) =
      (tokens.take (last + 1)).drop first := by
    rw [List.drop_take, hsplit, show last + 1 - first = last - first + 1 by omega,
      List.take_succ_cons]
  have hlength : ((tokens.take (last + 1)).drop first).length = last + 1 - first := by
    rw [List.length_drop, List.length_take]
    omega
  have hend : ((tokens.take (last + 1)).drop first).getLastD tokens[first] = tokens[last] := by
    rw [List.getLastD_eq_getLast?, List.getLast?_drop, if_neg (by rw [List.length_take]; omega),
      List.getLast?_take, if_neg (Nat.succ_ne_zero last), Nat.add_sub_cancel,
      List.getElem?_eq_getElem hlast']
    rfl
  have hdrop : (tokens.drop (first + 1)).drop (last - first) = tokens.drop (last + 1) := by
    rw [List.drop_drop]
    congr 1
    omega
  unfold excerpt?
  rw [hbefore, hfrom, hsplit]
  dsimp only
  rw [hcore, hbehind, hshown, hlength, hend, hdrop, List.length_reverse, List.length_take,
    Nat.min_eq_left (Nat.le_of_lt hinside)]

/-- Tokens with some in front of them and some behind are shown by an excerpt. -/
theorem Excerpt.shows_of_prefixes {first' last' : Nat} {back ahead : List ForwardEntry}
    (hle : first ≤ last) (hlast : last < tokens.length)
    (hback : back <+: (tokens.take first).reverse) (hahead : ahead <+: tokens.drop (last + 1))
    (hfirst' : first' + back.length = first) (hlast' : last' = last + ahead.length) :
    (⟨back.reverse ++ (tokens.take (last + 1)).drop first ++ ahead, back.length < first,
      ahead.length < (tokens.drop (last + 1)).length⟩ : Excerpt).Shows tokens first' last' := by
  obtain ⟨front, hfront⟩ : back.reverse <:+ tokens.take first := by
    rwa [← List.reverse_prefix, List.reverse_reverse]
  obtain ⟨rest, hrest⟩ := hahead
  have hcore : tokens.take first ++ (tokens.take (last + 1)).drop first = tokens.take (last + 1) := by
    have hsplit := List.take_append_drop first (tokens.take (last + 1))
    rwa [List.take_take, Nat.min_eq_left (by omega)] at hsplit
  have htokens : tokens = front ++ (back.reverse ++ (tokens.take (last + 1)).drop first ++ ahead) ++
      rest := by
    rw [List.append_assoc, List.append_assoc, List.append_assoc, hrest, ← List.append_assoc front,
      hfront, ← List.append_assoc, hcore, List.take_append_drop]
  have hfrontLength := congrArg List.length hfront
  have hrestLength := congrArg List.length hrest
  have hcoreLength : ((tokens.take (last + 1)).drop first).length = last + 1 - first := by
    rw [List.length_drop, List.length_take]
    omega
  rw [List.length_append, List.length_reverse, List.length_take] at hfrontLength
  rw [List.length_append, List.length_drop] at hrestLength
  have hshownLength : (back.reverse ++ (tokens.take (last + 1)).drop first ++ ahead).length =
      last' + 1 - first' := by
    rw [List.length_append, List.length_append, List.length_reverse]
    omega
  refine Excerpt.shows_of_append ?_ htokens ?_ ?_ (by omega) (by omega)
  · refine List.length_pos_iff.mp ?_
    omega
  · rw [decide_eq_decide]
    omega
  · rw [decide_eq_decide, List.length_drop]
    omega

/-- Between two places there are no more tokens than have a property, if those have it. -/
theorem length_le_countP {p : ForwardEntry → Bool} (hinside : last < tokens.length)
    (hall : ∀ i (h : i < tokens.length), first ≤ i → i ≤ last → p tokens[i] = true) :
    last + 1 - first ≤ tokens.countP p := by
  have hpart : ∀ t ∈ (tokens.take (last + 1)).drop first, p t = true := by
    intro t ht
    obtain ⟨i, hi, rfl⟩ := List.mem_iff_getElem.mp ht
    rw [List.length_drop, List.length_take] at hi
    rw [List.getElem_drop, List.getElem_take]
    exact hall (first + i) (by omega) (Nat.le_add_right _ _) (by omega)
  have hlength : ((tokens.take (last + 1)).drop first).length = last + 1 - first := by
    rw [List.length_drop, List.length_take, Nat.min_eq_left hinside]
  rw [← hlength, ← List.countP_eq_length.mpr hpart]
  exact ((List.drop_sublist _ _).trans (List.take_sublist _ _)).countP_le

/-- The places that the walks come to are those between which tokens are shown. -/
theorem isRange_of_walks (horder : InOrder tokens) {first' last' : Nat}
    (hfirst : first = tokens.findIdx fun t => w.start ≤ t.position)
    (hlast : last = max (tokens.findIdx (fun t => w.stop ≤ t.position) - 1) first)
    (hback : first' ≤ first) (hon : last ≤ last') (honInside : last' < tokens.length)
    (hbackPassed : ∀ i (h : i < tokens.length), first' ≤ i → i < first →
      endsSentence tokens[i] = false)
    (honPassed : ∀ i (h : i < tokens.length), last ≤ i → i < last' → endsSentence tokens[i] = false)
    (hbackShort : first' = first ∨ last + 1 - first' ≤ size)
    (honShort : last' = last ∨ last' + 1 - first' ≤ size) :
    IsRange size w tokens first' last' := by
  have hstart : ∀ i (h : i < tokens.length), first ≤ i ↔ w.start ≤ tokens[i].position := by
    intro i hi
    rw [hfirst]
    exact findIdx_iff horder w.start hi
  have hstop := fun i (h : i < tokens.length) => findIdx_iff horder w.stop h
  refine ⟨by omega, honInside, ?_, ?_, ?_, ?_⟩
  · intro i hi hfrom hto
    have := (hstart i hi).mpr hfrom
    have := mt (hstop i hi).mp (by omega)
    omega
  · -- where nothing was added, all tokens but perhaps the first one are in the window
    by_cases hgrown : last' + 1 - first' ≤ size
    · exact Nat.le_trans hgrown (Nat.le_max_left _ _)
    refine Nat.le_trans ?_ (Nat.le_max_right _ _)
    by_cases hone : last = first
    · exact Nat.le_trans (by omega) (Nat.le_max_left _ _)
    refine Nat.le_trans ?_ (Nat.le_max_right _ _)
    refine length_le_countP honInside fun i hi hfrom hto => ?_
    have := (hstart i hi).mp (by omega)
    have := mt (hstop i hi).mpr (by omega)
    rw [decide_eq_true_eq]
    omega
  · intro i hi hle hless
    have := mt (hstart i hi).mp (by omega)
    exact hbackPassed i hi hle (by omega)
  · intro i hi hle hless hbehind
    have := (hstop (i + 1) hi).mpr hbehind
    by_cases hback : i < first
    · exact hbackPassed i (by omega) hle hback
    · exact honPassed i (by omega) (by omega) hless

/-- In front of a window there is nothing to show. -/
theorem rangeSteps_eq_none (size : Nat) (hall : ∀ t ∈ tokens, t.position < w.start) :
    rangeSteps size w tokens = some none ∧ excerpt? size w tokens = none := by
  have hlength : (tokens.findIdx fun t => w.start ≤ t.position) = tokens.length := by
    simpa [List.findIdx_eq_length] using hall
  have hdrop : tokens.dropWhile (fun t => t.position < w.start) = [] := by
    simpa [List.dropWhile_eq_nil_iff] using hall
  unfold rangeSteps excerpt?
  rw [hlength, hdrop]
  exact ⟨if_pos le_rfl, rfl⟩

/-- Steps with checked places never fail. There is an excerpt unless all tokens are in front of the
window, and it shows the tokens between the places that are found. -/
theorem rangeSteps_spec (horder : InOrder tokens) (size : Nat) (w : Window) :
    (rangeSteps size w tokens = some none ∧ excerpt? size w tokens = none ∧
      ∀ t ∈ tokens, t.position < w.start) ∨
    ∃ first last e, rangeSteps size w tokens = some (some (first, last)) ∧
      excerpt? size w tokens = some e ∧ e.Shows tokens first last ∧
      IsRange size w tokens first last ∧ ∃ t ∈ tokens, w.start ≤ t.position := by
  let first := tokens.findIdx fun t => w.start ≤ t.position
  let stop := tokens.findIdx fun t => w.stop ≤ t.position
  let last := max (stop - 1) first
  by_cases hnone : tokens.length ≤ first
  · have hall : ∀ t ∈ tokens, t.position < w.start := by
      have hlength : first = tokens.length := Nat.le_antisymm List.findIdx_le_length hnone
      simpa using List.findIdx_eq_length.mp hlength
    obtain ⟨hrange, hexcerpt⟩ := rangeSteps_eq_none size hall
    exact .inl ⟨hrange, hexcerpt, hall⟩
  · have hinside : first < tokens.length := Nat.lt_of_not_le hnone
    have hstop : stop ≤ tokens.length := List.findIdx_le_length
    have hlast : last < tokens.length := by omega
    have hle : first ≤ last := Nat.le_max_right _ _
    obtain ⟨first', hback, hbackLength, hbackPassed, hbackShort⟩ := walkBack_spec size hlast hle
    have hle' : first' ≤ last := by omega
    obtain ⟨last', hon, honInside, honLength, honPassed, honShort⟩ := walkOn_spec size hlast hle'
    refine .inr ⟨first', last', _, ?_, excerpt?_eq horder rfl hinside rfl hlast, ?_,
      isRange_of_walks horder rfl rfl (by omega) (by omega) honInside hbackPassed honPassed
        hbackShort honShort,
      tokens[first], List.getElem_mem hinside, (findIdx_iff horder w.start hinside).mp le_rfl⟩
    · unfold rangeSteps
      dsimp only
      rw [if_neg hnone]
      show (do
        let first ← walkBack size tokens last first
        let last ← walkOn size tokens first last
        some (some (first, last))) = _
      rw [hback, Option.bind_eq_bind, Option.bind_some, hon]
      rfl
    · have hbudget : size - (last + 1 - first') = size - (last + 1 - first) -
          (sentenceStart (size - (last + 1 - first)) (tokens.take first).reverse).length := by
        omega
      rw [hbudget] at honLength
      exact Excerpt.shows_of_prefixes hle hlast (sentenceStart_prefix_before _ _)
        (sentenceRest_prefix_behind _ _ _) hbackLength honLength

/-- The start of a text shows the tokens up to the place that the walk on comes to. -/
theorem opening?_spec (size : Nat) (hne : tokens ≠ []) :
    ∃ last e, walkOn size tokens 0 0 = some last ∧ opening? size tokens = some e ∧
      e.Shows tokens 0 last := by
  obtain ⟨t, rest, rfl⟩ := List.exists_cons_of_ne_nil hne
  have hinside : 0 < (t :: rest).length := Nat.succ_pos _
  obtain ⟨last, hwalk, -, hlength, -⟩ := walkOn_spec size hinside (Nat.le_refl 0)
  have hshows := Excerpt.shows_of_prefixes (Nat.le_refl 0) hinside List.nil_prefix
    (sentenceRest_prefix_behind _ _ _) (Nat.add_zero 0) hlength
  exact ⟨last, _, hwalk, rfl, by simpa using hshows⟩

end Concordance.Phrase
