import Concordance.Proofs.Query.Meaning
import Mathlib.Data.List.Nodup

/-!
# Lists of spans and sets of spans

Plans compute with lists of spans, meanings are sets. On lists whose starts ascend both say the same:
the sets made of the lists of the parts are those of the list that is computed from them
(`Succession.matchesOf_eq`, `Window.matchesOf_eq`). What may follow a span, and what is nearest to a
position, is unique there, so the first span that a search meets is the one that is meant.
-/

namespace Concordance

namespace Span

/-- The spans of a list. -/
def toSet (spans : List Span) : Set Span := {s | s ∈ spans}

@[simp] theorem mem_toSet {spans : List Span} {s : Span} : s ∈ toSet spans ↔ s ∈ spans := Iff.rfl

@[simp] theorem toSet_nil : toSet [] = ∅ := by
  ext s
  simp

theorem nonempty_toSet {spans : List Span} : (toSet spans).Nonempty ↔ spans ≠ [] := by
  constructor
  · rintro ⟨s, hs⟩ rfl
    cases hs
  · exact fun hne => List.exists_mem_of_ne_nil spans hne

theorem anyOf_toSet (parts : List (List Span)) :
    anyOf (parts.map toSet) = toSet parts.flatten := by
  ext s
  simp [anyOf]

theorem shortest_toSet (spans : List Span) : shortest (toSet spans) = toSet (normalize spans) := by
  ext s
  exact mem_normalize.symm

/-- Where starts ascend, a span is known by its start. -/
theorem eq_of_start {spans : List Span} (h : StartsAscend spans) {s t : Span} (hs : s ∈ spans)
    (ht : t ∈ spans) (hstart : s.start = t.start) : s = t := by
  have hstarts : (spans.map (·.start)).Nodup :=
    (List.pairwise_map.mpr h).imp Nat.ne_of_lt
  exact List.inj_on_of_nodup_map hstarts hs ht hstart

theorem mem_normalize_of_ascend {spans : List Span} (h : StartsAscend spans) {s : Span} :
    s ∈ normalize spans ↔ s ∈ spans := by
  rw [mem_normalize]
  refine ⟨fun hs => hs.1, fun hs => ⟨hs, fun t ht hstart => ?_⟩⟩
  rw [eq_of_start h ht hs hstart]

theorem isStart_toSet {spans : List Span} {position : Nat} :
    IsStart (toSet spans) position ↔ spans.any (·.start = position) = true := by
  simp [IsStart]

theorem uncut_toSet {cuts : List Span} {s : Span} :
    Uncut (toSet cuts) s ↔ s.isCut cuts = false := by
  simp only [Uncut, isCut, mem_toSet, List.any_eq_false, Bool.and_eq_true, decide_eq_true_eq]
  refine forall₂_congr fun c _ => ?_
  omega

/-- In a list whose starts ascend, the first span from a position on is found first. -/
theorem isFirstFrom_toSet {spans : List Span} (h : StartsAscend spans) {position : Nat}
    {o : Option Span} :
    IsFirstFrom position (toSet spans) o ↔ firstFrom? position spans = o := by
  have hnearest : IsNearest (fun d => ∃ s ∈ spans, s.start = d) position
      ((firstFrom? position spans).map (·.start)) := IsNearest.find? h position
  constructor
  · intro hfirst
    have hmeant : IsNearest (fun d => ∃ s ∈ spans, s.start = d) position (o.map (·.start)) := by
      cases o with
      | none =>
          rintro e he ⟨s, hs, rfl⟩
          exact absurd he (Nat.not_le.mpr (hfirst s hs))
      | some s =>
          obtain ⟨hs, hposition, hleast⟩ := hfirst
          refine ⟨hposition, ⟨s, hs, rfl⟩, ?_⟩
          rintro e he hlt ⟨t, ht, rfl⟩
          exact absurd hlt (Nat.not_lt.mpr (hleast t ht he))
    have hstart := hnearest.unique hmeant
    cases hfound : firstFrom? position spans with
    | none =>
        rw [hfound, Option.map_none, eq_comm, Option.map_eq_none_iff] at hstart
        exact hstart.symm
    | some t =>
        rw [hfound, Option.map_some, eq_comm, Option.map_eq_some_iff] at hstart
        obtain ⟨s, rfl, heq⟩ := hstart
        rw [eq_of_start h (List.mem_of_find?_eq_some hfound) hfirst.1 heq.symm]
  · rintro rfl
    cases hfound : firstFrom? position spans with
    | none =>
        intro t ht
        have hnot := List.find?_eq_none.mp hfound t ht
        simpa using hnot
    | some s =>
        rw [hfound, Option.map_some] at hnearest
        obtain ⟨hposition, -, hleast⟩ := hnearest
        refine ⟨List.mem_of_find?_eq_some hfound, hposition, fun t ht hle => ?_⟩
        exact Nat.not_lt.mp fun hlt => hleast t.start hle hlt ⟨t, ht, rfl⟩

end Span

/-! ## Sequences -/

namespace Succession

open Concordance.Span

variable {mode : Succession}

theorem follows_toSet {part : List Span} (h : StartsAscend part) {previous s : Span} :
    mode.Follows previous (toSet part) s ↔ mode.next? previous part = some s := by
  cases mode with
  | ordered range =>
      have hfirst : IsFirstFrom previous.stop (toSet part) (some s) ↔
          firstFrom? previous.stop part = some s := isFirstFrom_toSet h
      exact hfirst
  | adjacent =>
      constructor
      · rintro ⟨hs, hstart⟩
        cases hfound : part.find? (·.start = previous.stop) with
        | none =>
            have hnot := List.find?_eq_none.mp hfound s hs
            simp [hstart] at hnot
        | some t =>
            have ht := List.find?_some hfound
            rw [decide_eq_true_eq] at ht
            have heq : t = s :=
              eq_of_start h (List.mem_of_find?_eq_some hfound) hs (ht.trans hstart.symm)
            rw [next?, hfound, heq]
      · intro hnext
        have hstart := List.find?_some hnext
        exact ⟨List.mem_of_find?_eq_some hnext, by simpa using hstart⟩

/-- A sequence has one way to go on. -/
theorem leadsTo_toSet {parts : List (List Span)} (h : ∀ part ∈ parts, StartsAscend part)
    {first last : Span} :
    mode.LeadsTo first (parts.map toSet) last ↔ mode.last? first parts = some last := by
  induction parts generalizing first with
  | nil =>
      rw [List.map_nil, LeadsTo, last?, Option.some.injEq]
      exact eq_comm
  | cons part rest ih =>
      obtain ⟨hpart, hrest⟩ := List.forall_mem_cons.mp h
      rw [List.map_cons, LeadsTo, last?]
      simp only [follows_toSet hpart, ih hrest]
      cases hnext : mode.next? first part with
      | none => simp
      | some s => simp

theorem spares_iff {first last : Span} :
    mode.Spares first last ↔ mode.reaches first.start last.start = true := by
  cases mode with
  | ordered range =>
      rw [Spares, reaches, decide_eq_true_eq]
      omega
  | adjacent => simp [Spares, reaches]

/-- The match that starts with a span. -/
theorem matchFrom?_eq_some {parts : List (List Span)} (h : ∀ part ∈ parts, StartsAscend part)
    {cuts : List Span} {first s : Span} :
    mode.matchFrom? parts cuts first = some s ↔
      ∃ last, mode.LeadsTo first (parts.map toSet) last ∧ mode.Spares first last ∧
        s = ⟨first.start, last.stop - first.start⟩ ∧ Uncut (toSet cuts) s := by
  simp only [leadsTo_toSet h, spares_iff, uncut_toSet]
  unfold matchFrom?
  cases hlast : mode.last? first parts with
  | none => simp
  | some last =>
      dsimp only
      constructor
      · intro hmatch
        split at hmatch
        · next hkeep =>
            cases hmatch
            rw [Bool.and_eq_true, Bool.not_eq_true'] at hkeep
            exact ⟨last, rfl, hkeep.1, rfl, hkeep.2⟩
        · cases hmatch
      · rintro ⟨_, hsame, hreaches, rfl, huncut⟩
        cases hsame
        rw [if_pos]
        rw [hreaches, huncut]
        rfl

/-- Sequences of lists are computed as they are meant. -/
theorem matchesOf_eq {parts : List (List Span)} (h : ∀ part ∈ parts, StartsAscend part)
    (cuts : List Span) :
    mode.matchesOf (toSet cuts) (parts.map toSet) =
      toSet (Span.normalize (mode.spans parts cuts)) := by
  cases parts with
  | nil => simp [matchesOf, spans, Span.normalize, Span.dropRepeats]
  | cons head rest =>
      obtain ⟨-, hrest⟩ := List.forall_mem_cons.mp h
      have hascend : StartsAscend (mode.spans (head :: rest) cuts) := startsAscend_sequence h
      ext s
      rw [mem_toSet, mem_normalize_of_ascend hascend, spans, List.mem_filterMap]
      simp only [matchFrom?_eq_some hrest]
      rfl

end Succession

/-! ## Windows -/

namespace Window

open Concordance.Span

/-- The nearest spans of lists are the first of each list, put in order. -/
theorem forall₂_isFirstFrom {parts : List (List Span)} (h : ∀ part ∈ parts, StartsAscend part)
    {position : Nat} {firsts : List (Option Span)} :
    List.Forall₂ (IsFirstFrom position) (parts.map toSet) firsts ↔
      firsts = parts.map (firstFrom? position) := by
  induction parts generalizing firsts with
  | nil => simp
  | cons part rest ih =>
      obtain ⟨hpart, hrest⟩ := List.forall_mem_cons.mp h
      cases firsts with
      | nil => simp
      | cons o firsts =>
          rw [List.map_cons, List.forall₂_cons, ih hrest, isFirstFrom_toSet hpart, List.map_cons,
            List.cons.injEq]
          exact and_congr_left fun _ => eq_comm

theorem precedes_antisymm {s t : Span} (hst : s.precedes t = true) (hts : t.precedes s = true) :
    s = t := by
  rw [precedes_iff] at hst hts
  cases s
  cases t
  simp_all
  omega

/-- So many of the spans of a list, none of the others in front of them. -/
def AreSmallest (need : Nat) (spans chosen : List Span) : Prop :=
  ∃ others, (chosen ++ others).Perm spans ∧ chosen.length = need ∧
    ∀ s ∈ chosen, ∀ t ∈ others, s.precedes t = true

/-- The smallest spans are the first ones when all are put in order, in some order. -/
theorem areSmallest_iff {need : Nat} {spans chosen : List Span} :
    AreSmallest need spans chosen ↔
      chosen.Perm ((spans.mergeSort precedes).take need) ∧ chosen.length = need := by
  have hsorted : InOrder (spans.mergeSort precedes) := inOrder_mergeSort _
  constructor
  · rintro ⟨others, hperm, hlength, hbefore⟩
    refine ⟨?_, hlength⟩
    -- put in order, the chosen spans and the others are all the spans in order
    have hparts : chosen.mergeSort precedes ++ others.mergeSort precedes =
        spans.mergeSort precedes := by
      refine List.Perm.eq_of_pairwise (fun s t _ _ => precedes_antisymm) ?_ hsorted ?_
      · refine List.pairwise_append.mpr ⟨inOrder_mergeSort _, inOrder_mergeSort _, ?_⟩
        intro s hs t ht
        exact hbefore s (List.mem_mergeSort.mp hs) t (List.mem_mergeSort.mp ht)
      · have hsame := (List.mergeSort_perm chosen precedes).append (List.mergeSort_perm others precedes)
        exact (hsame.trans hperm).trans (List.mergeSort_perm _ precedes).symm
    rw [← hparts, List.take_left' (by rw [List.length_mergeSort, hlength])]
    exact (List.mergeSort_perm chosen precedes).symm
  · rintro ⟨hperm, hlength⟩
    refine ⟨(spans.mergeSort precedes).drop need, ?_, hlength, ?_⟩
    · have hsame := hperm.append_right ((spans.mergeSort precedes).drop need)
      rw [List.take_append_drop] at hsame
      exact hsame.trans (List.mergeSort_perm _ precedes)
    · intro s hs t ht
      rw [← List.take_append_drop need (spans.mergeSort precedes)] at hsorted
      exact (List.pairwise_append.mp hsorted).2.2 s (hperm.mem_iff.mp hs) t ht

/-- So many nearest spans are the smallest of the first ones of all parts. -/
theorem areNearest_toSet {parts : List (List Span)} (h : ∀ part ∈ parts, StartsAscend part)
    {need position : Nat} {chosen : List Span} :
    AreNearest (parts.map toSet) need position chosen ↔
      AreSmallest need (parts.filterMap (firstFrom? position)) chosen := by
  have hfirsts : (parts.map (firstFrom? position)).filterMap id =
      parts.filterMap (firstFrom? position) := by
    rw [List.filterMap_map]
    rfl
  simp only [AreNearest, forall₂_isFirstFrom h, exists_and_left, exists_eq_left, hfirsts]
  rfl

/-- The greatest end of spans is the end of one of them. -/
theorem exists_foldl_max_stop {spans : List Span} (hne : spans ≠ []) :
    ∃ last ∈ spans, (∀ t ∈ spans, t.stop ≤ last.stop) ∧
      (spans.map Span.stop).foldl max 0 = last.stop := by
  cases hmax : (spans.map Span.stop).max? with
  | none => exact absurd (List.map_eq_nil_iff.mp (List.max?_eq_none_iff.mp hmax)) hne
  | some stop =>
      obtain ⟨hmem, hgreatest⟩ := List.max?_eq_some_iff.mp hmax
      obtain ⟨last, hlast, rfl⟩ := List.mem_map.mp hmem
      refine ⟨last, hlast, fun t ht => hgreatest _ (List.mem_map_of_mem ht), ?_⟩
      rw [List.foldl_max, hmax, Option.getD_some, Nat.zero_max]

/-- The last of spans in order starts last. -/
theorem start_le_of_getLast? {spans : List Span} (h : InOrder spans) {last : Span}
    (hlast : spans.getLast? = some last) : ∀ t ∈ spans, t.start ≤ last.start := by
  intro t ht
  obtain ⟨front, rfl⟩ := List.getLast?_eq_some_iff.mp hlast
  rcases List.mem_append.mp ht with ht | ht
  · have hbefore := (List.pairwise_append.mp h).2.2 t ht last List.mem_cons_self
    have := precedes_iff.mp hbefore
    omega
  · rw [List.mem_singleton.mp ht]

/-- The match that starts at a position: from there to the greatest end of the smallest spans, which
all start in range. -/
theorem matchFrom?_eq_some {parts : List (List Span)} {range need position : Nat}
    {cuts : List Span} {s : Span} :
    matchFrom? parts range need cuts position = some s ↔
      s.start = position ∧ ∃ chosen,
        AreSmallest need (parts.filterMap (firstFrom? position)) chosen ∧
        (∀ t ∈ chosen, t.start ≤ position + range) ∧
        (∃ last ∈ chosen, (∀ t ∈ chosen, t.stop ≤ last.stop) ∧ s.length = last.stop - position) ∧
        s.isCut cuts = false := by
  simp only [areSmallest_iff]
  unfold matchFrom? nearest
  dsimp only
  generalize hchosen : ((parts.filterMap (firstFrom? position)).mergeSort precedes).take need = chosen
  have hinOrder : InOrder chosen := by
    rw [← hchosen]
    exact (inOrder_mergeSort _).sublist (List.take_sublist _ _)
  constructor
  · intro hmatch
    split at hmatch
    · cases hmatch
    · next last hlast =>
        split at hmatch
        · cases hmatch
        · next hnear =>
            rw [not_or, Nat.not_lt, Nat.not_lt] at hnear
            split at hmatch
            · cases hmatch
            · next huncut =>
                cases hmatch
                have hne : chosen ≠ [] := by
                  rintro rfl
                  cases hlast
                have hlength : chosen.length = need := by
                  refine Nat.le_antisymm ?_ hnear.1
                  rw [← hchosen]
                  exact List.length_take_le _ _
                obtain ⟨far, hfar, hends, hstop⟩ := exists_foldl_max_stop hne
                refine ⟨rfl, chosen, ⟨.rfl, hlength⟩, fun t ht => ?_,
                  ⟨far, hfar, hends, by rw [hstop]⟩, by simpa using huncut⟩
                have := start_le_of_getLast? hinOrder hlast t ht
                have := hnear.2
                omega
  · rintro ⟨rfl, found, ⟨hperm, hlength⟩, hrange, ⟨far, hfar, hends, hstop⟩, huncut⟩
    have hne : chosen ≠ [] := List.ne_nil_of_mem (hperm.mem_iff.mp hfar)
    cases hlast : chosen.getLast? with
    | none => exact absurd (List.getLast?_eq_none_iff.mp hlast) hne
    | some last =>
        have hmem : last ∈ found := hperm.mem_iff.mpr (List.mem_of_getLast? hlast)
        have hnear := hrange last hmem
        obtain ⟨far', hfar', hends', hstop'⟩ := exists_foldl_max_stop hne
        -- both spans have the greatest end
        have hsame : far'.stop = far.stop :=
          Nat.le_antisymm (hends far' (hperm.mem_iff.mpr hfar'))
            (hends' far (hperm.mem_iff.mp hfar))
        have hs : (⟨s.start, (chosen.map Span.stop).foldl max 0 - s.start⟩ : Span) = s := by
          rw [hstop', hsame, ← hstop]
        dsimp only
        rw [hs, huncut, if_neg, if_neg Bool.false_ne_true]
        rw [← hperm.length_eq, hlength]
        omega

/-- Windows of lists are computed as they are meant. -/
theorem matchesOf_eq {parts : List (List Span)} (h : ∀ part ∈ parts, StartsAscend part)
    (range need : Nat) (cuts : List Span) :
    matchesOf range need (toSet cuts) (parts.map toSet) =
      toSet (spans parts range need cuts) := by
  ext s
  rw [mem_toSet, spans, List.mem_filterMap]
  simp only [matchFrom?_eq_some, mem_ascending]
  simp only [matchesOf, anyOf_toSet, areNearest_toSet h, uncut_toSet]
  constructor
  · rintro ⟨⟨t, ht, hstart⟩, hmatch⟩
    exact ⟨s.start, List.mem_map.mpr ⟨t, ht, hstart⟩, rfl, hmatch⟩
  · rintro ⟨_, hstart, rfl, hmatch⟩
    obtain ⟨t, ht, hstart⟩ := List.mem_map.mp hstart
    exact ⟨⟨t, ht, hstart⟩, hmatch⟩

end Window

end Concordance
