import Concordance.Proofs.Query.Nearest
import Concordance.Proofs.SortedMap
import Concordance.Query.Arrangement

/-!
# What lists of spans hold

The matches of a document are spans whose starts are positions and ascend strictly (`AreMatches`).
`normalize` brings any spans into this form (`mem_normalize`), and the arrangements keep it: a
sequence has at most one match for each span of its first part, a window at most one for each start.
-/

namespace Concordance

namespace Span

/-- Spans by start, with one span for each start. -/
abbrev StartsAscend (spans : List Span) : Prop := spans.Pairwise fun a b => a.start < b.start

/-- Spans that can be the matches of a document. -/
structure AreMatches (spans : List Span) : Prop where
  ascend : StartsAscend spans
  position : ∀ s ∈ spans, 1 ≤ s.start ∧ s.start ≤ Wire.maxWord32

theorem areMatches_nil : AreMatches [] where
  ascend := List.Pairwise.nil
  position := by simp

theorem AreMatches.filter {spans : List Span} (h : AreMatches spans) (keep : Span → Bool) :
    AreMatches (spans.filter keep) where
  ascend := h.ascend.filter keep
  position s hs := h.position s (List.mem_filter.mp hs).1

/-- The spans from a position on are the first of them and those that start behind it. -/
theorem filter_from {spans : List Span} (h : StartsAscend spans) {position : Nat} {s : Span}
    (hfirst : firstFrom? position spans = some s) :
    spans.filter (position ≤ ·.start) = s :: spans.filter (s.start + 1 ≤ ·.start) := by
  unfold firstFrom? at hfirst
  induction spans with
  | nil => cases hfirst
  | cons a rest ih =>
      obtain ⟨hlater, hrest⟩ := List.pairwise_cons.mp h
      by_cases ha : position ≤ a.start
      · rw [List.find?_cons_of_pos (by simpa using ha)] at hfirst
        have hs : a = s := Option.some.inj hfirst
        subst hs
        have hfrom : rest.filter (position ≤ ·.start) = rest :=
          List.filter_eq_self.mpr fun t ht => by
            have := hlater t ht
            simp
            omega
        have hbehind : rest.filter (a.start + 1 ≤ ·.start) = rest :=
          List.filter_eq_self.mpr fun t ht => decide_eq_true (hlater t ht)
        rw [List.filter_cons_of_pos (by simpa using ha), hfrom,
          List.filter_cons_of_neg (by simp), hbehind]
      · rw [List.find?_cons_of_neg (by simpa using ha)] at hfirst
        have hs := List.find?_some hfirst
        simp at hs
        rw [List.filter_cons_of_neg (by simpa using ha), ih hrest hfirst,
          List.filter_cons_of_neg (by simp; omega)]

/-! ## Putting spans in order -/

theorem precedes_iff {a b : Span} :
    a.precedes b = true ↔ a.start < b.start ∨ a.start = b.start ∧ a.length ≤ b.length := by
  simp [precedes]

theorem precedes_trans {a b c : Span} (hab : a.precedes b = true) (hbc : b.precedes c = true) :
    a.precedes c = true := by
  rw [precedes_iff] at *
  omega

theorem precedes_total (a b : Span) : (a.precedes b || b.precedes a) = true := by
  rw [Bool.or_eq_true, precedes_iff, precedes_iff]
  omega

/-- Sorted spans. -/
abbrev InOrder (spans : List Span) : Prop := spans.Pairwise fun a b => a.precedes b = true

theorem inOrder_mergeSort (spans : List Span) : InOrder (spans.mergeSort precedes) := by
  refine List.pairwise_mergeSort ?_ precedes_total spans
  intro a b c
  exact precedes_trans

/-- Behind the first start of a list in order, dropping it in front is dropping it everywhere. -/
theorem dropWhile_start {spans : List Span} {start : Nat} (hascend : StartsAscend spans)
    (hle : ∀ s ∈ spans, start ≤ s.start) :
    spans.dropWhile (·.start = start) = spans.filter (·.start ≠ start) := by
  cases spans with
  | nil => rfl
  | cons a rest =>
      obtain ⟨hfirst, -⟩ := List.pairwise_cons.mp hascend
      have hrest : rest.filter (·.start ≠ start) = rest := by
        refine List.filter_eq_self.mpr fun s hs => ?_
        have := hle a List.mem_cons_self
        have := hfirst s hs
        simp
        omega
      by_cases ha : a.start = start
      · have hdrop : rest.dropWhile (·.start = start) = rest := by
          cases rest with
          | nil => rfl
          | cons b rest =>
              have := hfirst b List.mem_cons_self
              rw [List.dropWhile_cons_of_neg]
              simp
              omega
        rw [List.dropWhile_cons_of_pos (by simpa using ha), hdrop,
          List.filter_cons_of_neg (by simpa using ha), hrest]
      · rw [List.dropWhile_cons_of_neg (by simpa using ha),
          List.filter_cons_of_pos (by simpa using ha), hrest]

/-- What is left of spans in order: the shortest span for each start, by start. -/
theorem dropRepeats_spec {spans : List Span} (h : InOrder spans) :
    StartsAscend (dropRepeats spans) ∧
      ∀ s, s ∈ dropRepeats spans ↔
        s ∈ spans ∧ ∀ t ∈ spans, t.start = s.start → s.length ≤ t.length := by
  induction spans with
  | nil => simp [dropRepeats]
  | cons a rest ih =>
      obtain ⟨hfirst, hrest⟩ := List.pairwise_cons.mp h
      obtain ⟨hascend, hmem⟩ := ih hrest
      have hle : ∀ s ∈ dropRepeats rest, a.start ≤ s.start := by
        intro s hs
        have := precedes_iff.mp (hfirst s ((hmem s).mp hs).1)
        omega
      rw [dropRepeats, dropWhile_start hascend hle]
      constructor
      · refine List.pairwise_cons.mpr ⟨fun s hs => ?_, hascend.filter _⟩
        obtain ⟨hs, hne⟩ := List.mem_filter.mp hs
        have := hle s hs
        simp at hne
        omega
      · intro s
        rw [List.mem_cons, List.mem_filter, hmem, List.mem_cons]
        simp only [List.forall_mem_cons, ne_eq, decide_not, Bool.not_eq_true',
          decide_eq_false_iff_not]
        constructor
        · rintro (rfl | ⟨⟨hs, hshort⟩, hne⟩)
          · refine ⟨.inl rfl, fun _ => Nat.le_refl _, fun t ht heq => ?_⟩
            have := precedes_iff.mp (hfirst t ht)
            omega
          · exact ⟨.inr hs, fun heq => absurd heq.symm hne, hshort⟩
        · rintro ⟨hs, hshortest, hshort⟩
          by_cases hstart : s.start = a.start
          · -- a span that starts like the first one, and is not longer, is the first one
            left
            rcases hs with rfl | hs
            · rfl
            · have := precedes_iff.mp (hfirst s hs)
              have := hshortest hstart.symm
              cases s
              cases a
              simp_all
              omega
          · right
            rcases hs with rfl | hs
            · exact absurd rfl hstart
            · exact ⟨⟨hs, hshort⟩, hstart⟩

theorem startsAscend_normalize (spans : List Span) : StartsAscend (normalize spans) :=
  (dropRepeats_spec (inOrder_mergeSort spans)).1

/-- `normalize` keeps the shortest span for each start. -/
theorem mem_normalize {spans : List Span} {s : Span} :
    s ∈ normalize spans ↔ s ∈ spans ∧ ∀ t ∈ spans, t.start = s.start → s.length ≤ t.length := by
  rw [normalize, (dropRepeats_spec (inOrder_mergeSort spans)).2]
  simp only [List.mem_mergeSort]

/-- The shortest span of a start is kept, so only no spans become none. -/
theorem normalize_eq_nil_iff {spans : List Span} : normalize spans = [] ↔ spans = [] := by
  constructor
  · intro h
    have hrepeats : dropRepeats (spans.mergeSort precedes) = [] := h
    cases hsorted : spans.mergeSort precedes with
    | nil =>
        have hlength : (spans.mergeSort precedes).length = spans.length :=
          List.length_mergeSort spans
        rw [hsorted] at hlength
        exact List.eq_nil_of_length_eq_zero hlength.symm
    | cons a rest =>
        rw [hsorted, dropRepeats] at hrepeats
        cases hrepeats
  · rintro rfl
    simp [normalize, dropRepeats]

theorem areMatches_normalize {spans : List Span}
    (h : ∀ s ∈ spans, 1 ≤ s.start ∧ s.start ≤ Wire.maxWord32) : AreMatches (normalize spans) where
  ascend := startsAscend_normalize spans
  position s hs := h s (mem_normalize.mp hs).1

/-! ## Arrangements -/

/-- A span between two positions stops at the second one, unless it starts behind it. -/
theorem stop_mk (start stop : Nat) :
    (⟨start, stop - start⟩ : Span).stop = min (max start stop) Wire.maxWord32 := by
  simp only [Span.stop, saturatingAdd]
  omega

theorem start_of_sequence {mode : Succession} {parts : List (List Span)} {cuts : List Span}
    {first s : Span} (h : mode.matchFrom? parts cuts first = some s) : s.start = first.start := by
  unfold Succession.matchFrom? at h
  split at h
  · cases h
  · dsimp only at h
    split at h
    · cases h
      rfl
    · cases h

theorem start_of_window {parts : List (List Span)} {range need : Nat} {cuts : List Span}
    {start : Nat} {s : Span} (h : Window.matchFrom? parts range need cuts start = some s) :
    s.start = start := by
  unfold Window.matchFrom? at h
  dsimp only at h
  split at h
  · cases h
  · split at h
    · cases h
    · split at h
      · cases h
      · cases h
        rfl

/-- A sequence has at most one match for each span of its first part. -/
theorem startsAscend_sequence {mode : Succession} {parts : List (List Span)} {cuts : List Span}
    (h : ∀ part ∈ parts, StartsAscend part) : StartsAscend (mode.spans parts cuts) := by
  cases parts with
  | nil => exact .nil
  | cons head tail =>
      refine List.Pairwise.filterMap _ (fun a b hab s hs t ht => ?_) (List.forall_mem_cons.mp h).1
      rw [start_of_sequence hs, start_of_sequence ht]
      exact hab

/-- The matches of a sequence start where spans of its first part start. -/
theorem exists_of_mem_sequence {mode : Succession} {parts : List (List Span)} {cuts : List Span}
    {s : Span} (h : s ∈ mode.spans parts cuts) :
    ∃ spans ∈ parts, ∃ first ∈ spans, first.start = s.start := by
  cases parts with
  | nil => simp [Succession.spans] at h
  | cons head tail =>
      obtain ⟨first, hfirst, hmatch⟩ := List.mem_filterMap.mp h
      exact ⟨head, List.mem_cons_self, first, hfirst, (start_of_sequence hmatch).symm⟩

/-- A sequence takes a span from every part. -/
theorem exists_mem_of_last? {mode : Succession} {first last : Span} {parts : List (List Span)}
    (h : mode.last? first parts = some last) : ∀ spans ∈ parts, ∃ s, s ∈ spans := by
  induction parts generalizing first with
  | nil => simp
  | cons part rest ih =>
      unfold Succession.last? at h
      split at h
      · next s hs =>
          have hmem : s ∈ part := by
            unfold Succession.next? at hs
            split at hs
            · exact List.mem_of_find?_eq_some hs
            · exact List.mem_of_find?_eq_some hs
          exact List.forall_mem_cons.mpr ⟨⟨s, hmem⟩, ih h⟩
      · cases h

theorem exists_mem_of_sequence {mode : Succession} {parts : List (List Span)} {cuts : List Span}
    {s : Span} (h : s ∈ mode.spans parts cuts) : ∀ spans ∈ parts, ∃ t, t ∈ spans := by
  cases parts with
  | nil => simp
  | cons head tail =>
      obtain ⟨first, hfirst, hmatch⟩ := List.mem_filterMap.mp h
      refine List.forall_mem_cons.mpr ⟨⟨first, hfirst⟩, ?_⟩
      unfold Succession.matchFrom? at hmatch
      split at hmatch
      · cases hmatch
      · next last hlast => exact exists_mem_of_last? hlast

theorem exists_of_mem_window {parts : List (List Span)} {range need : Nat} {cuts : List Span}
    {s : Span} (h : s ∈ Window.spans parts range need cuts) :
    ∃ spans ∈ parts, ∃ t ∈ spans, t.start = s.start := by
  obtain ⟨start, hmem, hmatch⟩ := List.mem_filterMap.mp h
  obtain ⟨t, ht, hstart⟩ := List.mem_map.mp (mem_ascending.mp hmem)
  obtain ⟨spans, hspans, ht⟩ := List.mem_flatten.mp ht
  exact ⟨spans, hspans, t, ht, hstart.trans (start_of_window hmatch).symm⟩

/-- A window has at most one match for each start. -/
theorem startsAscend_window (parts : List (List Span)) (range need : Nat) (cuts : List Span) :
    StartsAscend (Window.spans parts range need cuts) := by
  have hstarts := ascending_lt (parts.flatten.map (·.start))
  refine List.Pairwise.filterMap _ (fun a b hab s hs t ht => ?_) hstarts
  rw [start_of_window hs, start_of_window ht]
  exact hab

/-- The matches of a window start where spans of its parts start. -/
theorem areMatches_window {parts : List (List Span)} (range need : Nat) (cuts : List Span)
    (h : ∀ spans ∈ parts, AreMatches spans) : AreMatches (Window.spans parts range need cuts) where
  ascend := startsAscend_window parts range need cuts
  position s hs := by
    obtain ⟨spans, hspans, t, ht, hstart⟩ := exists_of_mem_window hs
    rw [← hstart]
    exact (h spans hspans).position t ht

end Span

end Concordance
