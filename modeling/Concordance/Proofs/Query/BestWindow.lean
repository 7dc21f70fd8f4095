import Concordance.Proofs.Query.Arrangement
import Concordance.Query.Summary
import Mathlib.Data.Finset.Card
import Mathlib.Data.List.MinMax
import Mathlib.Data.List.TakeWhile
import Mathlib.Data.Prod.Lex
import Mathlib.Order.Bounds.Basic

/-!
# The best window

A window starts at a hit and takes in the hits that start in it (`within`). Its `score` is the number of
their features and then their own number. The window that is chosen is the first one of the best ones
(`IsBest`), and ends with the last of its hits, or with itself (`bestWindow_is_best`).

Windows are tried hit by hit, so a start with several hits is tried several times, each time without
the hits before. Those windows have a part of the hits only (`inside_sublist`), and the first one has all
of them (`inside_eq_within`): the score of a start is that of its first window, and a later window can
be chosen only if it has all the hits too.
-/

namespace Concordance

namespace Phrase

variable {size s : Nat} {hits taken before rest : List Hit} {h first : Hit} {w x : Window}
  {ws : List Window}

/-! ## Beginnings of lists -/

section

variable {α : Type} {p : α → Bool} {l : List α}

/-- Where a property ends for good, its first members are all. -/
theorem takeWhile_eq_filter (h : l.Pairwise fun a b => p b = true → p a = true) :
    l.takeWhile p = l.filter p := by
  induction l with
  | nil => rfl
  | cons a rest ih =>
      obtain ⟨hhead, htail⟩ := List.pairwise_cons.mp h
      by_cases ha : p a = true
      · rw [List.takeWhile_cons_of_pos ha, List.filter_cons_of_pos ha, ih htail]
      · have hnone : rest.filter p = [] := by
          rw [List.filter_eq_nil_iff]
          exact fun b hb hpb => ha (hhead b hb hpb)
        rw [List.takeWhile_cons_of_neg ha, List.filter_cons_of_neg ha, hnone]

end

/-! ## What windows are worth -/

/-- The hits that start in the window of a size from a start on. -/
def within (size start : Nat) (hits : List Hit) : List Hit :=
  hits.filter fun h => start ≤ h.span.start ∧ h.span.start < start + size

/-- What hits are worth: their features count first, and then the hits themselves. -/
def worth (hits : List Hit) : ℕ ×ₗ ℕ :=
  toLex ((hits.map (·.feature)).toFinset.card, hits.length)

/-- What a start is worth: what the hits are that start in its window. -/
def score (size start : Nat) (hits : List Hit) : ℕ ×ₗ ℕ := worth (within size start hits)

/-- The start of a hit is the best one: no start of a hit is worth more, and no smaller one as much. -/
structure IsBest (size : Nat) (hits : List Hit) (start : Nat) : Prop where
  hit : ∃ h ∈ hits, h.span.start = start
  most : ∀ h ∈ hits, score size h.span.start hits ≤ score size start hits
  first : ∀ h ∈ hits, score size h.span.start hits = score size start hits → start ≤ h.span.start

/-- There is one best start. -/
theorem IsBest.unique {s' : Nat} (h : IsBest size hits s) (h' : IsBest size hits s') : s' = s := by
  obtain ⟨a, ha, rfl⟩ := h.hit
  obtain ⟨b, hb, rfl⟩ := h'.hit
  have hsame : score size b.span.start hits = score size a.span.start hits :=
    le_antisymm (h.most b hb) (h'.most a ha)
  exact Nat.le_antisymm (h'.first a ha hsame.symm) (h.first b hb hsame)

/-- Fewer hits are not worth more. -/
theorem worth_le_of_sublist {part all : List Hit} (hsub : part.Sublist all) :
    worth part ≤ worth all := by
  have hfeatures : (part.map (·.feature)).toFinset.card ≤ (all.map (·.feature)).toFinset.card :=
    Finset.card_le_card (Multiset.toFinset_subset.mpr (hsub.map _).subset)
  exact Prod.Lex.toLex_mono ⟨hfeatures, hsub.length_le⟩

theorem distinctFeatures_eq_card (hits : List Hit) :
    distinctFeatures hits = (hits.map (·.feature)).toFinset.card := by
  have hnodup : (ascending (hits.map (·.feature))).Nodup := SortedMap.nodup_keys _
  rw [distinctFeatures, ← List.toFinset_card_of_nodup hnodup]
  congr 1
  ext feature
  simp

/-- What a window counts. -/
def Window.score (w : Window) : ℕ ×ₗ ℕ := toLex (w.features, w.hits)

theorem Window.beats_iff : w.beats x = true ↔ x.score < w.score := by
  simp [Window.beats, Window.score, Prod.Lex.toLex_lt_toLex, @eq_comm _ x.features]

/-- The best of some windows is the first one of which the score is the greatest. -/
theorem best?_eq_argmax (ws : List Window) : best? ws = ws.argmax Window.score := by
  have hstep : ∀ (rest : List Window) (w : Window),
      some (rest.foldl (fun best w => if w.beats best then w else best) w) =
        rest.foldl (List.argAux fun b c => c.score < b.score) (some w) := by
    intro rest
    induction rest with
    | nil => exact fun w => rfl
    | cons x rest ih =>
        intro w
        rw [List.foldl_cons, List.foldl_cons, ih]
        congr 1
        simp only [List.argAux, ← Window.beats_iff]
        split <;> rfl
  cases ws with
  | nil => rfl
  | cons w rest => exact hstep rest w

/-! ## The windows of sorted hits -/

/-- Hits in the order of their starts. -/
def Sorted (hits : List Hit) : Prop := hits.Pairwise fun a b => a.span.start ≤ b.span.start

/-- The hits of the window that starts with the first of some hits. -/
def inside (size : Nat) (first : Hit) (rest : List Hit) : List Hit :=
  (first :: rest).takeWhile fun h => h.span.start < first.span.start + size

theorem mem_windows : w ∈ windows size hits ↔
    ∃ before first rest, hits = before ++ first :: rest ∧ w = windowAt size first rest := by
  induction hits with
  | nil => simp [windows]
  | cons h hits ih =>
      rw [windows, List.mem_cons, ih]
      constructor
      · rintro (rfl | ⟨before, first, rest, rfl, rfl⟩)
        · exact ⟨[], h, hits, rfl, rfl⟩
        · exact ⟨h :: before, first, rest, rfl, rfl⟩
      · rintro ⟨before, first, rest, hsplit, rfl⟩
        cases before with
        | nil =>
            obtain ⟨rfl, rfl⟩ := List.cons.inj hsplit
            exact .inl rfl
        | cons h' before =>
            obtain ⟨rfl, rfl⟩ := List.cons.inj hsplit
            exact .inr ⟨before, first, rest, rfl, rfl⟩

/-- A window that has some hits: it counts them, and ends with the last of them or with itself. -/
structure Window.Has (size : Nat) (taken : List Hit) (w : Window) : Prop where
  features : w.features = (taken.map (·.feature)).toFinset.card
  count : w.hits = taken.length
  stop : ∃ far, IsGreatest {stop | ∃ h ∈ taken, h.span.stop = stop} far ∧
    w.stop = min far (w.start + size)

theorem Window.Has.score (h : w.Has size taken) : w.score = worth taken := by
  rw [Window.score, worth, h.features, h.count]

/-- A window that fits below the greatest position has the hits that are inside. -/
theorem windowAt_has (hsize : 1 ≤ size) (hfits : first.span.start + size < Wire.maxWord32) :
    (windowAt size first rest).Has size (inside size first rest) := by
  have hlimit : saturatingAdd first.span.start size = first.span.start + size :=
    Nat.min_eq_left (Nat.le_of_lt hfits)
  have hne : inside size first rest ≠ [] := by
    rw [inside, List.takeWhile_cons_of_pos (by simp; omega)]
    exact List.cons_ne_nil _ _
  have hspans : (inside size first rest).map (·.span) ≠ [] := by simpa using hne
  obtain ⟨last, hlast, hgreatest, hmax⟩ := Concordance.Window.exists_foldl_max_stop hspans
  obtain ⟨h, hmem, rfl⟩ := List.mem_map.mp hlast
  have hwindow : windowAt size first rest = ⟨first.span.start,
      min h.span.stop (first.span.start + size), distinctFeatures (inside size first rest),
      (inside size first rest).length⟩ := by
    rw [List.map_map] at hmax
    unfold windowAt
    dsimp only
    rw [hlimit, ← inside, if_neg (fun hempty => hne (List.isEmpty_iff.mp hempty))]
    exact congrArg (fun far => Window.mk _ (min far _) _ _) hmax
  rw [hwindow]
  refine ⟨distinctFeatures_eq_card _, rfl, h.span.stop, ⟨⟨h, hmem, rfl⟩, ?_⟩, rfl⟩
  rintro _ ⟨g, hg, rfl⟩
  exact hgreatest _ (List.mem_map_of_mem hg)

/-- A window of sorted hits has hits of its start only. -/
theorem inside_sublist (hsorted : Sorted (before ++ first :: rest)) :
    (inside size first rest).Sublist
      (within size first.span.start (before ++ first :: rest)) := by
  have htail : ∀ h ∈ first :: rest, first.span.start ≤ h.span.start := by
    obtain ⟨-, htail, -⟩ := List.pairwise_append.mp hsorted
    obtain ⟨hbehind, -⟩ := List.pairwise_cons.mp htail
    intro h hh
    rcases List.mem_cons.mp hh with rfl | hh
    · exact Nat.le_refl _
    · exact hbehind h hh
  have hall : (inside size first rest).filter (fun h => first.span.start ≤ h.span.start ∧
      h.span.start < first.span.start + size) = inside size first rest := by
    rw [List.filter_eq_self]
    intro h hh
    have hstart := htail h ((List.takeWhile_sublist _).subset hh)
    have hlimit := List.mem_takeWhile_imp hh
    simp only [decide_eq_true_eq] at hlimit ⊢
    exact ⟨hstart, hlimit⟩
  rw [← hall]
  exact ((List.takeWhile_sublist _).trans (List.sublist_append_right _ _)).filter _

/-- The first window of a start has all its hits. -/
theorem inside_eq_within (hsorted : Sorted (before ++ first :: rest))
    (hfirst : ∀ h ∈ before, h.span.start < first.span.start) :
    inside size first rest = within size first.span.start (before ++ first :: rest) := by
  obtain ⟨-, htail, -⟩ := List.pairwise_append.mp hsorted
  have hstarts : ∀ h ∈ first :: rest, first.span.start ≤ h.span.start := by
    rw [List.forall_mem_cons]
    exact ⟨Nat.le_refl _, (List.pairwise_cons.mp htail).1⟩
  have hbefore : within size first.span.start before = [] := by
    rw [within, List.filter_eq_nil_iff]
    intro h hh
    have := hfirst h hh
    simp only [decide_eq_true_eq]
    omega
  have hprefix : (first :: rest).Pairwise fun a b =>
      decide (b.span.start < first.span.start + size) = true →
        decide (a.span.start < first.span.start + size) = true := by
    refine htail.imp fun hle => ?_
    simp only [decide_eq_true_eq]
    omega
  rw [inside, takeWhile_eq_filter hprefix]
  rw [within] at hbefore
  rw [within, List.filter_append, hbefore, List.nil_append]
  refine List.filter_congr fun h hh => ?_
  simp [hstarts h hh]

/-- A start of a hit has a first window. -/
theorem exists_first (hsorted : Sorted hits) (hh : h ∈ hits) :
    ∃ before first rest, hits = before ++ first :: rest ∧ first.span.start = h.span.start ∧
      ∀ g ∈ before, g.span.start < first.span.start := by
  obtain ⟨first, hfind⟩ : ∃ first, hits.find? (fun g => g.span.start = h.span.start) = some first := by
    refine Option.isSome_iff_exists.mp (List.find?_isSome.mpr ⟨h, hh, ?_⟩)
    simp
  obtain ⟨hstart, before, rest, rfl, hbefore⟩ := List.find?_eq_some_iff_append.mp hfind
  have hsame : first.span.start = h.span.start := by simpa using hstart
  refine ⟨before, first, rest, rfl, hsame, fun g hg => ?_⟩
  have hle : g.span.start ≤ first.span.start :=
    (List.pairwise_append.mp hsorted).2.2 g hg first List.mem_cons_self
  have hne : g.span.start ≠ h.span.start := by simpa using hbefore g hg
  omega

/-! ## The best one -/

/-- Windows of sorted hits are in the order of their starts. -/
theorem windows_ascend (hsorted : Sorted hits) :
    (windows size hits).Pairwise fun a b => a.start ≤ b.start := by
  induction hits with
  | nil => exact .nil
  | cons h hits ih =>
      obtain ⟨hhead, htail⟩ := List.pairwise_cons.mp hsorted
      refine List.pairwise_cons.mpr ⟨fun w hw => ?_, ih htail⟩
      obtain ⟨before, first, rest, hsplit, rfl⟩ := mem_windows.mp hw
      exact hhead first (hsplit ▸ List.mem_append_right _ List.mem_cons_self)

theorem start_le_of_idxOf_le (hascend : ws.Pairwise fun a b => a.start ≤ b.start) (hw : w ∈ ws)
    (hx : x ∈ ws) (h : ws.idxOf w ≤ ws.idxOf x) : w.start ≤ x.start := by
  rcases Nat.lt_or_eq_of_le h with hless | hsame
  · have hordered := List.pairwise_iff_getElem.mp hascend _ _
      (List.idxOf_lt_length_of_mem hw) (List.idxOf_lt_length_of_mem hx) hless
    simpa using hordered
  · rw [(List.idxOf_inj hw).mp hsame]

/-- The best of the windows of sorted hits starts with the best start, and has all the hits that start
in it. -/
theorem isBest_of_best? (hsorted : Sorted hits) (hsize : 1 ≤ size)
    (hfits : ∀ h ∈ hits, h.span.start + size < Wire.maxWord32)
    (hbest : best? (windows size hits) = some w) :
    IsBest size hits w.start ∧ w.Has size (within size w.start hits) := by
  rw [best?_eq_argmax] at hbest
  obtain ⟨hmem, hmost, hearly⟩ := List.argmax_eq_some_iff.mp hbest
  -- a start is worth what its first window is
  have hfirsts : ∀ h ∈ hits, ∃ x ∈ windows size hits, x.start = h.span.start ∧
      x.score = score size h.span.start hits := by
    intro h hh
    obtain ⟨before, first, rest, rfl, hsame, hbefore⟩ := exists_first hsorted hh
    have hhas : (windowAt size first rest).Has size (inside size first rest) :=
      windowAt_has hsize (hfits first (List.mem_append_right _ List.mem_cons_self))
    refine ⟨windowAt size first rest, mem_windows.mpr ⟨_, _, _, rfl, rfl⟩, hsame, ?_⟩
    rw [hhas.score, inside_eq_within hsorted hbefore, hsame, score]
  obtain ⟨h, hh, hstart, taken, hhas, hsub⟩ : ∃ h ∈ hits, w.start = h.span.start ∧
      ∃ taken, w.Has size taken ∧ taken.Sublist (within size w.start hits) := by
    obtain ⟨before, first, rest, rfl, rfl⟩ := mem_windows.mp hmem
    have hfirst : first ∈ before ++ first :: rest := List.mem_append_right _ List.mem_cons_self
    exact ⟨first, hfirst, rfl, _, windowAt_has hsize (hfits first hfirst), inside_sublist hsorted⟩
  -- so the chosen window is worth as much as its start, and has all hits
  have hscore : w.score = score size w.start hits := by
    obtain ⟨x, hx, -, hxscore⟩ := hfirsts h hh
    refine le_antisymm (hhas.score ▸ worth_le_of_sublist hsub) ?_
    rw [hstart, ← hxscore]
    exact hmost x hx
  have hall : taken = within size w.start hits := by
    refine hsub.eq_of_length ?_
    have hworth : worth taken = worth (within size w.start hits) := hhas.score.symm.trans hscore
    exact congrArg (fun worth => (ofLex worth).2) hworth
  refine ⟨⟨⟨h, hh, hstart.symm⟩, ?_, ?_⟩, hall ▸ hhas⟩
  · intro g hg
    obtain ⟨x, hx, -, hxscore⟩ := hfirsts g hg
    rw [← hxscore, ← hscore]
    exact hmost x hx
  · intro g hg hsame
    obtain ⟨x, hx, hxstart, hxscore⟩ := hfirsts g hg
    have hindex := hearly x hx (hscore.trans (hsame.symm.trans hxscore.symm)).le
    rw [← hxstart]
    exact start_le_of_idxOf_le (windows_ascend hsorted) hmem hx hindex

theorem best?_eq_none_iff : best? (windows size hits) = none ↔ hits = [] := by
  cases hits with
  | nil => simp [windows, best?]
  | cons h rest => simp [windows, best?]

end Phrase

namespace PhraseSettings

open Phrase

variable {hits : List Hit}

/-- A window size with which a hit fits below the greatest position is not cut. -/
theorem bestWindow?_eq (p : PhraseSettings)
    (hfits : ∀ h ∈ hits, h.span.start + p.windowSize < Wire.maxWord32) :
    p.bestWindow? hits =
      (best? (windows p.windowSize hits)).filter fun w => max p.cardinality 1 ≤ w.features := by
  cases hits with
  | nil => rfl
  | cons h rest =>
      have hword : p.windowSize % Wire.word32 = p.windowSize := by
        have := hfits h List.mem_cons_self
        refine Nat.mod_eq_of_lt ?_
        simp only [Wire.maxWord32] at this
        omega
      rw [PhraseSettings.bestWindow?, Phrase.bestWindow?, hword]

/-- Of hits in the order of starts and features the best window is answered: none if and only if there
are no hits, or the window with the best start has too few features. Otherwise it starts with the best
start, and it ends with the last end of the hits that start in it, or with itself. -/
theorem bestWindow_is_best (p : PhraseSettings) (hsize : 1 ≤ p.windowSize)
    (hordered : hits.Pairwise fun a b => a.span.start < b.span.start ∨
      (a.span.start = b.span.start ∧ a.feature ≤ b.feature))
    (hfits : ∀ h ∈ hits, h.span.start + p.windowSize < Wire.maxWord32) :
    (p.bestWindow? hits = none ↔ hits = [] ∨ ∃ start, IsBest p.windowSize hits start ∧
      ((within p.windowSize start hits).map (·.feature)).toFinset.card < max p.cardinality 1) ∧
    ∀ w, p.bestWindow? hits = some w →
      IsBest p.windowSize hits w.start ∧
      max p.cardinality 1 ≤ ((within p.windowSize w.start hits).map (·.feature)).toFinset.card ∧
      ∃ far, IsGreatest {stop | ∃ h ∈ within p.windowSize w.start hits, h.span.stop = stop} far ∧
        w.stop = min far (w.start + p.windowSize) := by
  have hsorted : Sorted hits := hordered.imp fun h => by omega
  rw [bestWindow?_eq p hfits]
  cases hchosen : best? (windows p.windowSize hits) with
  | none =>
      refine ⟨iff_of_true rfl (.inl (best?_eq_none_iff.mp hchosen)), ?_⟩
      intro w hw
      cases hw
  | some w =>
      obtain ⟨hisbest, hhas⟩ := isBest_of_best? hsorted hsize hfits hchosen
      have hne : hits ≠ [] := by
        rintro rfl
        cases hchosen
      by_cases hmany : max p.cardinality 1 ≤ w.features
      · rw [Option.filter_some, if_pos (decide_eq_true hmany)]
        rw [hhas.features] at hmany
        refine ⟨iff_of_false nofun ?_, ?_⟩
        · rintro (hnil | ⟨start, hstart, hfew⟩)
          · exact hne hnil
          · rw [hisbest.unique hstart] at hfew
            omega
        · intro _ hw
          cases hw
          exact ⟨hisbest, hmany, hhas.stop⟩
      · rw [Option.filter_some, if_neg (by simpa using hmany)]
        rw [hhas.features] at hmany
        refine ⟨iff_of_true rfl (.inr ⟨w.start, hisbest, Nat.lt_of_not_le hmany⟩), ?_⟩
        intro _ hw
        cases hw

/-- Hits of length 1 at places. -/
def hitsAt (places : List (Nat × Nat)) : List Hit :=
  places.map fun (start, feature) => ⟨⟨start, 1⟩, feature⟩

theorem bestWindow_is_best_early :
    ∃ (p : PhraseSettings) (w : Window), p.windowSize = 3 ∧
      p.bestWindow? (hitsAt [(1, 0), (2, 0), (7, 0), (8, 1), (20, 0), (21, 1)]) = some w ∧
      w.stop = 9 ∧
      IsBest 3 (hitsAt [(1, 0), (2, 0), (7, 0), (8, 1), (20, 0), (21, 1)]) 7 := by
  let p : PhraseSettings := { (default : PhraseSettings) with windowSize := 3 }
  let hits := hitsAt [(1, 0), (2, 0), (7, 0), (8, 1), (20, 0), (21, 1)]
  have hsize : 1 ≤ p.windowSize := by decide
  have hordered : hits.Pairwise fun a b => a.span.start < b.span.start ∨
      (a.span.start = b.span.start ∧ a.feature ≤ b.feature) := by decide
  have hfits : ∀ h ∈ hits, h.span.start + p.windowSize < Wire.maxWord32 := by decide
  have hwindow : p.bestWindow? hits = some ⟨7, 9, 2, 2⟩ := by decide +kernel
  obtain ⟨hbest, -, -⟩ := (bestWindow_is_best p hsize hordered hfits).2 _ hwindow
  exact ⟨p, _, rfl, hwindow, rfl, hbest⟩

end PhraseSettings

end Concordance
