import Concordance.Proofs.Query.Arrangement

/-!
# Windows are exact

A window puts the first spans of all parts from a position on in order and cuts them off at the
number it needs. The spans in range are a beginning of such a list, so the last one that is needed
is in range if and only if so many are, and a part has a span in range if and only if the first one
from the position on is (`all_near_iff`). What is left is the end of the match: the greatest one of
the spans chosen.
-/

namespace Concordance

namespace Span

/-- Spans by start; several may start alike. -/
abbrev StartsRise (spans : List Span) : Prop := spans.Pairwise fun a b => a.start ≤ b.start

theorem firstFrom?_least {spans : List Span} (h : StartsRise spans) {position : Nat} {s : Span}
    (hfirst : firstFrom? position spans = some s) :
    ∀ t ∈ spans, position ≤ t.start → s.start ≤ t.start := by
  intro t ht hle
  obtain ⟨-, before, behind, rfl, hbefore⟩ := List.find?_eq_some_iff_append.mp hfirst
  rcases List.mem_append.mp ht with ht | ht
  · have := hbefore t ht
    simp at this
    omega
  · rcases List.mem_cons.mp ht with rfl | ht
    · exact Nat.le_refl _
    · exact (List.pairwise_cons.mp (List.pairwise_append.mp h).2.1).1 t ht

/-- Whether a span starts at a position or at most so many positions behind. -/
def isNear (start range : Nat) (s : Span) : Bool := start ≤ s.start && s.start ≤ start + range

theorem isNear_iff {start range : Nat} {s : Span} :
    s.isNear start range = true ↔ start ≤ s.start ∧ s.start ≤ start + range := by
  simp [isNear]

/-- A part has a span in range if and only if the first one from the position on is. -/
theorem any_isNear {spans : List Span} (h : StartsRise spans) (start range : Nat) :
    spans.any (isNear start range) =
      ((firstFrom? start spans).map fun s => decide (s.start ≤ start + range)).getD false := by
  cases hfirst : firstFrom? start spans with
  | none =>
      have hbefore := List.find?_eq_none.mp hfirst
      rw [Option.map_none, Option.getD_none, List.any_eq_false]
      exact fun t ht hnear => hbefore t ht (decide_eq_true (isNear_iff.mp hnear).1)
  | some s =>
      rw [Option.map_some, Option.getD_some, Bool.eq_iff_iff, List.any_eq_true, decide_eq_true_eq]
      have hle := List.find?_some hfirst
      constructor
      · rintro ⟨t, ht, hnear⟩
        obtain ⟨hstart, hrange⟩ := isNear_iff.mp hnear
        exact Nat.le_trans (firstFrom?_least h hfirst t ht hstart) hrange
      · intro hrange
        exact ⟨s, List.mem_of_find?_eq_some hfirst,
          isNear_iff.mpr ⟨of_decide_eq_true hle, hrange⟩⟩

end Span

namespace Window

open Concordance.Span

/-- The number of parts that have a span in range. -/
def partsNear (parts : List (List Span)) (start range : Nat) : Nat :=
  parts.countP fun part => part.any (isNear start range)

theorem partsNear_eq {parts : List (List Span)} (h : ∀ part ∈ parts, StartsRise part)
    (start range : Nat) :
    partsNear parts start range =
      (parts.filterMap (firstFrom? start)).countP (·.start ≤ start + range) := by
  rw [partsNear, List.countP_filterMap]
  exact List.countP_congr fun part hpart => by rw [any_isNear (h part hpart)]

/-- Of members in an order where the good ones come first, so many are good if the first so many
are. -/
theorem all_take_iff {α : Type} {p : α → Bool} {l : List α}
    (h : l.Pairwise fun a b => p b = true → p a = true) (n : Nat) :
    ((l.take n).length = n ∧ ∀ a ∈ l.take n, p a = true) ↔ n ≤ l.countP p := by
  induction l generalizing n with
  | nil =>
      simp
      omega
  | cons a rest ih =>
      obtain ⟨hfirst, hrest⟩ := List.pairwise_cons.mp h
      cases n with
      | zero => simp
      | succ n =>
          rw [List.take_succ_cons, List.length_cons, List.forall_mem_cons]
          by_cases ha : p a = true
          · rw [List.countP_cons_of_pos ha, Nat.add_le_add_iff_right, ← ih hrest]
            simp [ha]
          · have hnone : rest.countP p = 0 :=
              List.countP_eq_zero.mpr fun b hb hgood => ha (hfirst b hb hgood)
            rw [List.countP_cons_of_neg ha, hnone]
            simp [ha]

/-- The smallest spans are all near if and only if so many are near. -/
theorem all_near_iff {need bound : Nat} {spans : List Span} :
    (∃ chosen, AreSmallest need spans chosen ∧ ∀ t ∈ chosen, t.start ≤ bound) ↔
      need ≤ spans.countP (·.start ≤ bound) := by
  have hsorted : (spans.mergeSort precedes).Pairwise fun a b =>
      decide (b.start ≤ bound) = true → decide (a.start ≤ bound) = true :=
    (inOrder_mergeSort spans).imp fun hab => by
      have := precedes_iff.mp hab
      simp
      omega
  rw [← (List.mergeSort_perm spans precedes).countP_eq, ← all_take_iff hsorted]
  simp only [areSmallest_iff, decide_eq_true_eq]
  constructor
  · rintro ⟨chosen, ⟨hperm, hlength⟩, hnear⟩
    exact ⟨hperm.length_eq.symm.trans hlength, fun t ht => hnear t (hperm.mem_iff.mpr ht)⟩
  · rintro ⟨hlength, hnear⟩
    exact ⟨_, ⟨.rfl, hlength⟩, hnear⟩

theorem AreSmallest.perm {need : Nat} {spans chosen chosen' : List Span}
    (h : AreSmallest need spans chosen) (h' : AreSmallest need spans chosen') :
    chosen.Perm chosen' :=
  (areSmallest_iff.mp h).1.trans (areSmallest_iff.mp h').1.symm

/-- The greatest stop of so many spans, the smallest of the first ones from a position on. -/
def IsStop (parts : List (List Span)) (need start stop : Nat) : Prop :=
  ∃ chosen, AreSmallest need (parts.filterMap (firstFrom? start)) chosen ∧
    (∃ last ∈ chosen, last.stop = stop) ∧ ∀ t ∈ chosen, t.stop ≤ stop

/-- If so many parts have a span in range, the spans of a window stop somewhere. -/
theorem exists_isStop {parts : List (List Span)} (h : ∀ part ∈ parts, StartsRise part)
    {need start range : Nat} (hneed : 1 ≤ need) (hnear : need ≤ partsNear parts start range) :
    ∃ stop, IsStop parts need start stop := by
  rw [partsNear_eq h] at hnear
  obtain ⟨chosen, hchosen, -⟩ := all_near_iff.mpr hnear
  have hlength := (areSmallest_iff.mp hchosen).2
  have hne : chosen ≠ [] := List.ne_nil_of_length_pos (by omega)
  obtain ⟨last, hlast, hgreatest, -⟩ := exists_foldl_max_stop hne
  exact ⟨last.stop, chosen, hchosen, ⟨last, hlast, rfl⟩, hgreatest⟩

/-- A match that is as long as to the stop of a chosen span stops there. -/
theorem stop_of_chosen {parts : List (List Span)} {need : Nat} {chosen : List Span} {s last : Span}
    (h : AreSmallest need (parts.filterMap (firstFrom? s.start)) chosen) (hlast : last ∈ chosen)
    (hlength : s.length = last.stop - s.start) : s.stop = last.stop := by
  obtain ⟨others, hperm, -, -⟩ := h
  have hmem := hperm.mem_iff.mp (List.mem_append_left others hlast)
  obtain ⟨part, -, hfirst⟩ := List.mem_filterMap.mp hmem
  have hle : s.start ≤ last.start := by simpa using List.find?_some hfirst
  unfold stop saturatingAdd at *
  omega

/-- The match of a window that starts at a position. -/
theorem matchFrom?_iff {parts : List (List Span)} (h : ∀ part ∈ parts, StartsRise part)
    {range need start : Nat} {cuts : List Span} {s : Span} :
    matchFrom? parts range need cuts start = some s ↔
      s.start = start ∧ need ≤ partsNear parts start range ∧ IsStop parts need start s.stop ∧
        s.length = s.stop - start ∧ ∀ c ∈ cuts, ¬ (start ≤ c.start ∧ c.start < s.stop) := by
  have hcut : s.isCut cuts = false ↔ ∀ c ∈ cuts, ¬ (s.start ≤ c.start ∧ c.start < s.stop) := by
    simp [isCut]
  rw [matchFrom?_eq_some, hcut, partsNear_eq h, ← all_near_iff]
  constructor
  · rintro ⟨rfl, chosen, hchosen, hnear, ⟨last, hlast, hgreatest, hlength⟩, huncut⟩
    have hstop := stop_of_chosen hchosen hlast hlength
    rw [← hstop] at hlength hgreatest
    exact ⟨rfl, ⟨chosen, hchosen, hnear⟩, ⟨chosen, hchosen, ⟨last, hlast, hstop.symm⟩, hgreatest⟩,
      hlength, huncut⟩
  · rintro ⟨rfl, ⟨near, hsmallest, hnear⟩, ⟨chosen, hchosen, ⟨last, hlast, hstop⟩, hgreatest⟩,
      hlength, huncut⟩
    have hsame := hchosen.perm hsmallest
    rw [← hstop] at hgreatest hlength
    exact ⟨rfl, chosen, hchosen, fun t ht => hnear t (hsame.mem_iff.mp ht),
      ⟨last, hlast, hgreatest, hlength⟩, huncut⟩

/-- Without a delimiter, a window has a match from every start where so many parts are in range. -/
theorem exists_mem_of_near {parts : List (List Span)} (h : ∀ part ∈ parts, StartsRise part)
    {range need start : Nat} (hneed : 1 ≤ need) (hnear : need ≤ partsNear parts start range)
    (hstart : ∃ part ∈ parts, ∃ t ∈ part, t.start = start) : ∃ s, s ∈ spans parts range need [] := by
  obtain ⟨_, chosen, hchosen, ⟨last, hlast, rfl⟩, hgreatest⟩ := exists_isStop h hneed hnear
  let s : Span := ⟨start, last.stop - start⟩
  have hstop : s.stop = last.stop := stop_of_chosen hchosen hlast rfl
  have hmatch : matchFrom? parts range need [] start = some s := by
    refine (matchFrom?_iff h).mpr ⟨rfl, hnear, ?_, by rw [hstop], nofun⟩
    rw [hstop]
    exact ⟨chosen, hchosen, ⟨last, hlast, rfl⟩, hgreatest⟩
  obtain ⟨part, hpart, t, ht, rfl⟩ := hstart
  refine ⟨s, List.mem_filterMap.mpr ⟨t.start, mem_ascending.mpr ?_, hmatch⟩⟩
  exact List.mem_map.mpr ⟨t, List.mem_flatten.mpr ⟨part, hpart, ht⟩, rfl⟩

/-- The matches of a window ascend, at most one for each start. There is one if and only if a span
of any part starts there, so many parts as are needed have a span in range, and no delimiter starts
before the greatest stop of the spans that are needed: the smallest of the first ones from there on.
The match reaches up to this stop. -/
theorem windows_exact {parts : List (List Span)} (h : ∀ part ∈ parts, StartsRise part)
    (range : Nat) {need : Nat} (hneed : 1 ≤ need) (cuts : List Span) :
    StartsAscend (spans parts range need cuts) ∧
    (∀ start, need ≤ partsNear parts start range → ∃ stop, IsStop parts need start stop) ∧
    ∀ s, s ∈ spans parts range need cuts ↔
      (∃ part ∈ parts, ∃ t ∈ part, t.start = s.start) ∧ need ≤ partsNear parts s.start range ∧
        IsStop parts need s.start s.stop ∧ s.length = s.stop - s.start ∧
        ∀ c ∈ cuts, ¬ (s.start ≤ c.start ∧ c.start < s.stop) := by
  refine ⟨startsAscend_window parts range need cuts, fun start => exists_isStop h hneed, fun s => ?_⟩
  rw [spans, List.mem_filterMap]
  simp only [mem_ascending, matchFrom?_iff h]
  constructor
  · rintro ⟨_, hstart, rfl, hmatch⟩
    obtain ⟨t, ht, hstart⟩ := List.mem_map.mp hstart
    obtain ⟨part, hpart, ht⟩ := List.mem_flatten.mp ht
    exact ⟨⟨part, hpart, t, ht, hstart⟩, hmatch⟩
  · rintro ⟨⟨part, hpart, t, ht, hstart⟩, hmatch⟩
    exact ⟨s.start, List.mem_map.mpr ⟨t, List.mem_flatten.mpr ⟨part, hpart, ht⟩, hstart⟩, rfl, hmatch⟩

/-- Two of three parts are enough: the first one has no span from 2 on. -/
theorem windows_exact_two_of_three :
    (⟨2, 5⟩ : Span) ∈ spans [[⟨1, 1⟩], [⟨2, 5⟩, ⟨2, 7⟩], [⟨1, 9⟩, ⟨4, 1⟩]] 2 2 [⟨7, 1⟩] := by
  have hchosen : AreSmallest 2 [⟨2, 5⟩, ⟨4, 1⟩] [⟨2, 5⟩, ⟨4, 1⟩] := ⟨[], .rfl, rfl, nofun⟩
  refine ((windows_exact (by decide) 2 (by decide) [⟨7, 1⟩]).2.2 ⟨2, 5⟩).mpr ?_
  exact ⟨by decide, by decide, ⟨_, hchosen, ⟨⟨2, 5⟩, by decide, rfl⟩, by decide⟩, rfl, by decide⟩

end Window

end Concordance
