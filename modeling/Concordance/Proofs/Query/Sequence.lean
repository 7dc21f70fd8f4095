import Concordance.Proofs.Query.Arrangement
import Mathlib.Data.List.Pairwise

/-!
# Sequences that are found

A sequence takes in every part the first span that may follow and never goes back on it. What it
answers for is always there (`offers_of_mem_spans`). What is there is found if each part has to go on
exactly where the one before it stops, or if in all parts but the first and the last the stops ascend
with the starts: then the span that starts first is also the first to make room for the next part
(`last?_ahead`). Where a longer span starts before a shorter one, and stops behind it, the longer one
can stand in the way (`exists_hidden`).
-/

namespace Concordance

open Concordance.Span

namespace Span

/-- Spans of which none stops before one that precedes it. -/
abbrev StopsAscend (spans : List Span) : Prop := spans.Pairwise fun a b => a.stop ≤ b.stop

theorem stop_le_of_start_le {spans : List Span} (hstarts : StartsAscend spans)
    (hstops : StopsAscend spans) {s t : Span} (hs : s ∈ spans) (ht : t ∈ spans)
    (hle : s.start ≤ t.start) : s.stop ≤ t.stop := by
  let Agrees (a b : Span) : Prop :=
    (a.start ≤ b.start → a.stop ≤ b.stop) ∧ (b.start ≤ a.start → b.stop ≤ a.stop)
  have hagree : spans.Pairwise Agrees := (hstarts.and hstops).imp fun ⟨hstart, hstop⟩ =>
    ⟨fun _ => hstop, fun hle => absurd hstart (Nat.not_lt.mpr hle)⟩
  have : Std.Symm Agrees := ⟨fun _ _ h => ⟨h.2, h.1⟩⟩
  have hself : ∀ a ∈ spans, Agrees a a := fun _ _ => ⟨fun _ => Nat.le_refl _, fun _ => Nat.le_refl _⟩
  exact (hagree.forall_of_forall hself hs ht).1 hle

end Span

namespace Succession

variable {mode : Succession}

/-- A span may come behind another one. -/
def MayFollow (mode : Succession) (previous s : Span) : Prop :=
  match mode with
  | ordered _ => previous.stop ≤ s.start
  | adjacent => s.start = previous.stop

instance (mode : Succession) (previous s : Span) : Decidable (mode.MayFollow previous s) :=
  match mode with
  | ordered _ => inferInstanceAs (Decidable (previous.stop ≤ s.start))
  | adjacent => inferInstanceAs (Decidable (s.start = previous.stop))

/-- From a position on, the parts have a sequence to offer: one span of each, every one behind the
one before it, the last near enough to the first. -/
def Offers (mode : Succession) (start : Nat) : List (List Span) → Prop
  | [] => False
  | head :: tail => ∃ first ∈ head, first.start = start ∧ ∃ chosen,
    List.Forall₂ (fun s part => s ∈ part) chosen tail ∧
      (first :: chosen).IsChain mode.MayFollow ∧ mode.Spares first (chosen.getLastD first)

/-! ## The next span -/

theorem next?_eq (previous : Span) (part : List Span) :
    mode.next? previous part = part.find? (mode.MayFollow previous ·) := by
  cases mode with
  | ordered range => rfl
  | adjacent => rfl

theorem mem_of_next? {part : List Span} {previous s : Span}
    (h : mode.next? previous part = some s) : s ∈ part ∧ mode.MayFollow previous s := by
  rw [next?_eq] at h
  have hfound := List.find?_some h
  exact ⟨List.mem_of_find?_eq_some h, of_decide_eq_true hfound⟩

/-- If any span of a part may follow, one is taken that does not start behind it. -/
theorem exists_next {part : List Span} (h : StartsAscend part) {previous t : Span} (ht : t ∈ part)
    (hfollow : mode.MayFollow previous t) :
    ∃ s, mode.next? previous part = some s ∧ s.start ≤ t.start := by
  cases hnext : mode.next? previous part with
  | none =>
      rw [next?_eq] at hnext
      exact absurd (decide_eq_true hfollow) (List.find?_eq_none.mp hnext t ht)
  | some s =>
      refine ⟨s, rfl, ?_⟩
      cases mode with
      | ordered range => exact ((follows_toSet h).mpr hnext).2.2 t ht hfollow
      | adjacent => exact Nat.le_of_eq ((mem_of_next? hnext).2.trans hfollow.symm)

/-- From a later stop on, no earlier span is taken. -/
theorem next?_mono {part : List Span} (h : StartsAscend part) {previous previous' s s' : Span}
    (hstop : previous.stop ≤ previous'.stop) (hs : mode.next? previous part = some s)
    (hs' : mode.next? previous' part = some s') : s.start ≤ s'.start := by
  obtain ⟨hmem, hfollow⟩ := mem_of_next? hs'
  cases mode with
  | ordered range =>
      exact ((follows_toSet h).mpr hs).2.2 s' hmem (Nat.le_trans hstop hfollow)
  | adjacent =>
      rw [show s.start = previous.stop from (mem_of_next? hs).2,
        show s'.start = previous'.stop from hfollow]
      exact hstop

/-! ## One part after the other -/

theorem last?_cons {part : List Span} {rest : List (List Span)} {previous s : Span}
    (h : mode.next? previous part = some s) :
    mode.last? previous (part :: rest) = mode.last? s rest := by
  rw [last?, h]

theorem last?_cons_eq_some {part : List Span} {rest : List (List Span)} {previous last : Span}
    (h : mode.last? previous (part :: rest) = some last) :
    ∃ s, mode.next? previous part = some s ∧ mode.last? s rest = some last := by
  cases hnext : mode.next? previous part with
  | none =>
      rw [last?, hnext] at h
      cases h
  | some s =>
      rw [last?_cons hnext] at h
      exact ⟨s, rfl, h⟩

/-- The spans taken on the way to the last one follow each other. -/
theorem chain_of_last? {parts : List (List Span)} {first last : Span}
    (h : mode.last? first parts = some last) :
    ∃ chosen, List.Forall₂ (fun s part => s ∈ part) chosen parts ∧
      (first :: chosen).IsChain mode.MayFollow ∧ chosen.getLastD first = last := by
  induction parts generalizing first with
  | nil => exact ⟨[], .nil, .singleton first, Option.some.inj h⟩
  | cons part rest ih =>
      obtain ⟨s, hnext, hlast⟩ := last?_cons_eq_some h
      obtain ⟨hmem, hfollow⟩ := mem_of_next? hnext
      obtain ⟨chosen, hmems, hchain, rfl⟩ := ih hlast
      exact ⟨s :: chosen, .cons hmem hmems, .cons_cons hfollow hchain, List.getLastD_cons ..⟩

/-- Where each part has to go on at a certain position, there is one way through the parts. -/
theorem last?_of_adjacent {parts : List (List Span)} (hstarts : ∀ part ∈ parts, StartsAscend part)
    {previous : Span} {chosen : List Span}
    (hmem : List.Forall₂ (fun s part => s ∈ part) chosen parts)
    (hchain : (previous :: chosen).IsChain adjacent.MayFollow) :
    adjacent.last? previous parts = some (chosen.getLastD previous) := by
  induction hmem generalizing previous with
  | nil => rfl
  | @cons t part chosen rest ht _ ih =>
      obtain ⟨hpart, hrest⟩ := List.forall_mem_cons.mp hstarts
      obtain ⟨hfollow, hchain⟩ := List.isChain_cons_cons.mp hchain
      have hnext : adjacent.next? previous part = some t :=
        (follows_toSet hpart).mp ⟨ht, hfollow⟩
      rw [last?_cons hnext, ih hrest hchain, List.getLastD_cons]

/-- Taking the first span that may follow stays ahead of any other way through the parts. The last
part need not be in order: nothing comes behind it. -/
theorem last?_ahead {range : Nat} {parts : List (List Span)}
    (hstarts : ∀ part ∈ parts, StartsAscend part)
    (hstops : ∀ part ∈ parts.dropLast, StopsAscend part) {previous previous' : Span}
    {chosen : List Span} (hmem : List.Forall₂ (fun s part => s ∈ part) chosen parts)
    (hchain : (previous' :: chosen).IsChain (ordered range).MayFollow)
    (hstart : previous.start ≤ previous'.start)
    (hstop : parts ≠ [] → previous.stop ≤ previous'.stop) :
    ∃ last, (ordered range).last? previous parts = some last ∧
      last.start ≤ (chosen.getLastD previous').start := by
  induction hmem generalizing previous previous' with
  | nil => exact ⟨previous, rfl, hstart⟩
  | @cons t part chosen rest ht _ ih =>
      obtain ⟨hpart, hrest⟩ := List.forall_mem_cons.mp hstarts
      obtain ⟨hfollow, hchain⟩ := List.isChain_cons_cons.mp hchain
      have hroom : (ordered range).MayFollow previous t :=
        Nat.le_trans (hstop (List.cons_ne_nil _ _)) hfollow
      obtain ⟨s, hnext, hle⟩ := exists_next hpart ht hroom
      rw [last?_cons hnext, List.getLastD_cons]
      refine ih hrest (fun part' hpart' => hstops part' ?_) hchain hle fun hne => ?_
      · rw [List.dropLast_cons_of_ne_nil (fun hnil => by simp [hnil] at hpart')]
        exact List.mem_cons_of_mem _ hpart'
      · have hinner : part ∈ (part :: rest).dropLast := by
          rw [List.dropLast_cons_of_ne_nil hne]
          exact List.mem_cons_self
        exact stop_le_of_start_le hpart (hstops part hinner) (mem_of_next? hnext).1 ht hle

/-- From a later stop on, the last span stops no earlier. -/
theorem last?_mono {parts : List (List Span)} (hstarts : ∀ part ∈ parts, StartsAscend part)
    (hstops : ∀ part ∈ parts, StopsAscend part) {previous previous' last last' : Span}
    (hstop : previous.stop ≤ previous'.stop) (h : mode.last? previous parts = some last)
    (h' : mode.last? previous' parts = some last') : last.stop ≤ last'.stop := by
  induction parts generalizing previous previous' with
  | nil =>
      cases h
      cases h'
      exact hstop
  | cons part rest ih =>
      obtain ⟨hpart, hrest⟩ := List.forall_mem_cons.mp hstarts
      obtain ⟨hlevel, hlevels⟩ := List.forall_mem_cons.mp hstops
      obtain ⟨s, hnext, hlast⟩ := last?_cons_eq_some h
      obtain ⟨s', hnext', hlast'⟩ := last?_cons_eq_some h'
      have hle := next?_mono hpart hstop hnext hnext'
      exact ih hrest hlevels (stop_le_of_start_le hpart hlevel (mem_of_next? hnext).1
        (mem_of_next? hnext').1 hle) hlast hlast'

/-! ## The matches of a sequence -/

/-- The matches of a sequence without a delimiter. -/
theorem matchFrom?_eq_some_nil {parts : List (List Span)} {first s : Span} :
    mode.matchFrom? parts [] first = some s ↔ ∃ last, mode.last? first parts = some last ∧
      mode.Spares first last ∧ s = ⟨first.start, last.stop - first.start⟩ := by
  simp only [spares_iff]
  unfold matchFrom?
  cases hlast : mode.last? first parts with
  | none => simp
  | some last => simp [isCut, @eq_comm _ s]

/-- What a sequence answers for is there. -/
theorem offers_of_mem_spans {parts : List (List Span)} {s : Span} (h : s ∈ mode.spans parts []) :
    mode.Offers s.start parts := by
  cases parts with
  | nil => cases h
  | cons head tail =>
      obtain ⟨first, hfirst, hmatch⟩ := List.mem_filterMap.mp h
      obtain ⟨last, hlast, hspares, rfl⟩ := matchFrom?_eq_some_nil.mp hmatch
      obtain ⟨chosen, hmem, hchain, rfl⟩ := chain_of_last? hlast
      exact ⟨first, hfirst, rfl, chosen, hmem, hchain, hspares⟩

/-- What is there is found, if the stops of the parts between the first and the last ascend. -/
theorem exists_mem_of_offers {parts : List (List Span)}
    (hstarts : ∀ part ∈ parts, StartsAscend part)
    (hstops : mode = adjacent ∨ ∀ part ∈ parts.tail.dropLast, StopsAscend part) {start : Nat}
    (h : mode.Offers start parts) : ∃ s ∈ mode.spans parts [], s.start = start := by
  cases parts with
  | nil => exact h.elim
  | cons head tail =>
      obtain ⟨-, htail⟩ := List.forall_mem_cons.mp hstarts
      obtain ⟨first, hfirst, rfl, chosen, hmem, hchain, hspares⟩ := h
      obtain ⟨last, hlast, hreach⟩ :
          ∃ last, mode.last? first tail = some last ∧ mode.Spares first last := by
        cases mode with
        | adjacent => exact ⟨_, last?_of_adjacent htail hmem hchain, hspares⟩
        | ordered range =>
            have hlevel := hstops.resolve_left nofun
            obtain ⟨last, hlast, hle⟩ := last?_ahead htail hlevel hmem hchain (Nat.le_refl _)
              fun _ => Nat.le_refl _
            exact ⟨last, hlast, Nat.le_trans hle hspares⟩
      exact ⟨_, List.mem_filterMap.mpr
        ⟨first, hfirst, matchFrom?_eq_some_nil.mpr ⟨last, hlast, hreach, rfl⟩⟩, rfl⟩

/-- Sequences of parts whose stops ascend have stops that ascend. -/
theorem stopsAscend_spans {parts : List (List Span)}
    (hstarts : ∀ part ∈ parts, StartsAscend part) (hstops : ∀ part ∈ parts, StopsAscend part) :
    StopsAscend (mode.spans parts []) := by
  cases parts with
  | nil => exact .nil
  | cons head tail =>
      obtain ⟨hhead, htail⟩ := List.forall_mem_cons.mp hstarts
      obtain ⟨hlevel, hlevels⟩ := List.forall_mem_cons.mp hstops
      refine List.Pairwise.filterMap _ (fun a b hab s hs t ht => ?_) (hhead.and hlevel)
      obtain ⟨last, hlast, -, rfl⟩ := matchFrom?_eq_some_nil.mp hs
      obtain ⟨last', hlast', -, rfl⟩ := matchFrom?_eq_some_nil.mp ht
      have := last?_mono htail hlevels hab.2 hlast hlast'
      have := hab.1
      rw [stop_mk, stop_mk]
      omega

/-- A part with a span that stops behind a later one can hide a sequence from one position to
another. -/
theorem exists_hidden {part : List Span} (h : StartsAscend part)
    (hposition : ∀ s ∈ part, 2 ≤ s.start) (hstops : ¬ StopsAscend part) :
    ∃ range first last, (ordered range).Offers first [[⟨first, 1⟩], part, [⟨last, 1⟩]] ∧
      (ordered range).spans [[⟨first, 1⟩], part, [⟨last, 1⟩]] [] = [] := by
  obtain ⟨a, b, hsub, hstop⟩ : ∃ a b, [a, b].Sublist part ∧ b.stop < a.stop := by
    have hnot := mt List.pairwise_iff_forall_sublist.mpr hstops
    push Not at hnot
    exact hnot
  have ha : a ∈ part := hsub.subset (by simp)
  have hb : b ∈ part := hsub.subset (by simp)
  have hab : a.start < b.start := List.pairwise_iff_forall_sublist.mp h hsub
  have hpos := hposition a ha
  let first : Span := ⟨a.start - 1, 1⟩
  let last : Span := ⟨b.stop, 1⟩
  have hfirst : first.stop = a.start := by
    simp only [first, stop, saturatingAdd] at hstop ⊢
    omega
  refine ⟨b.stop, a.start - 1, b.stop, ?_, ?_⟩
  · refine ⟨first, List.mem_singleton_self first, rfl, [b, last],
      .cons hb (.cons (List.mem_singleton_self last) .nil), ?_, ?_⟩
    · refine .cons_cons ?_ (.cons_cons (Nat.le_refl b.stop) (.singleton last))
      show first.stop ≤ b.start
      omega
    · exact Nat.le_add_left _ _
  · -- the longer span is taken, and it stops behind the start of the last part
    have hnext : (ordered b.stop).next? first part = some a := by
      refine (follows_toSet h).mp ⟨ha, Nat.le_of_eq hfirst, fun t _ ht => ?_⟩
      rwa [hfirst] at ht
    have hend : (ordered b.stop).next? a [last] = none := by
      refine List.find?_eq_none.mpr fun t ht => ?_
      rw [List.mem_singleton.mp ht]
      simpa [last] using hstop
    have hnone : (ordered b.stop).matchFrom? [part, [last]] [] first = none := by
      unfold matchFrom?
      rw [last?_cons hnext, last?, hend]
    show [first].filterMap _ = []
    rw [List.filterMap_cons, hnone, List.filterMap_nil]

/-- Without a delimiter, a sequence has at most one match for each start, and there are spans for
every match. It has a match for every start from which there are spans if it is an adjacent one or
the stops ascend in all parts but the first and the last; parts whose stops ascend make a sequence
whose stops ascend. Any other part can hide a sequence. -/
theorem sequences_found (mode : Succession) (parts : List (List Span))
    (h : ∀ part ∈ parts, StartsAscend part) :
    StartsAscend (mode.spans parts []) ∧ (∀ s ∈ mode.spans parts [], mode.Offers s.start parts) ∧
    ((mode = adjacent ∨ ∀ part ∈ parts.tail.dropLast, StopsAscend part) →
      ∀ start, (∃ s ∈ mode.spans parts [], s.start = start) ↔ mode.Offers start parts) ∧
    ((∀ part ∈ parts, StopsAscend part) → StopsAscend (mode.spans parts [])) ∧
    ∀ part ∈ parts, (∀ s ∈ part, 2 ≤ s.start) → ¬ StopsAscend part →
      ∃ range first last, (ordered range).Offers first [[⟨first, 1⟩], part, [⟨last, 1⟩]] ∧
        (ordered range).spans [[⟨first, 1⟩], part, [⟨last, 1⟩]] [] = [] := by
  refine ⟨startsAscend_sequence h, fun s => offers_of_mem_spans, fun hstops start => ⟨?_, ?_⟩,
    stopsAscend_spans h, fun part hpart => exists_hidden (h part hpart)⟩
  · rintro ⟨s, hs, rfl⟩
    exact offers_of_mem_spans hs
  · exact exists_mem_of_offers h hstops

/-- Between two terms, an inner part whose stops ascend. -/
theorem sequences_found_between :
    ∃ s ∈ (ordered 6).spans [[⟨1, 1⟩], [⟨2, 2⟩, ⟨4, 3⟩], [⟨5, 1⟩]] [], s.start = 1 := by
  have hfound := sequences_found (ordered 6) [[⟨1, 1⟩], [⟨2, 2⟩, ⟨4, 3⟩], [⟨5, 1⟩]] (by decide)
  refine (hfound.2.2.1 (.inr (by decide)) 1).mpr ?_
  refine ⟨⟨1, 1⟩, by decide, rfl, [⟨2, 2⟩, ⟨5, 1⟩], ?_, by decide, spares_iff.mpr rfl⟩
  exact .cons (by decide) (.cons (by decide) .nil)

/-- The span from 2 to 5 is tried first, and hides that 1, 3 and 4 follow each other. -/
theorem sequence_hidden :
    (∀ part ∈ [[⟨1, 1⟩], [⟨2, 3⟩, ⟨3, 1⟩], [⟨4, 1⟩]], StartsAscend part) ∧
    (ordered 3).Offers 1 [[⟨1, 1⟩], [⟨2, 3⟩, ⟨3, 1⟩], [⟨4, 1⟩]] ∧
    (ordered 3).spans [[⟨1, 1⟩], [⟨2, 3⟩, ⟨3, 1⟩], [⟨4, 1⟩]] [] = [] := by
  refine ⟨by decide, ⟨⟨1, 1⟩, by decide, rfl, [⟨3, 1⟩, ⟨4, 1⟩], ?_, by decide,
    spares_iff.mpr rfl⟩, by decide⟩
  exact .cons (by decide) (.cons (by decide) .nil)

end Succession

end Concordance
