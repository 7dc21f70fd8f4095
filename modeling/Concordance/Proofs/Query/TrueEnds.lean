import Concordance.Proofs.Query.Listing

/-!
# Ends that are not cut off

The stop of a span is cut off at the greatest number of 32 bits, so a span that went on behind it
would be compared with a wrong end. No match does: a structure makes its spans out of starts and
stops of those of its parts, so limits that all leaves of a pattern keep to are kept by the pattern
(`Pattern.within_meaning`). Fields start at 1 or later and end with the last position; terms also
cover a position and end where positions of documents do.
-/

namespace Concordance

namespace Span

/-- A span that starts at 1 or later, covers at least so many positions and does not go on behind a
limit. Nothing is cut off here: the sum is that of natural numbers. -/
structure Within (least limit : Nat) (s : Span) : Prop where
  start : 1 ≤ s.start
  length : least ≤ s.length
  stop : s.start + s.length ≤ limit

variable {least limit : Nat} {x y : Span}

theorem Within.stop_eq (h : x.Within least limit) (hlimit : limit ≤ Wire.maxWord32) :
    x.stop = x.start + x.length :=
  Nat.min_eq_left (Nat.le_trans h.stop hlimit)

theorem Within.mono {least' limit' : Nat} (h : x.Within least limit) (hleast : least' ≤ least)
    (hlimit : limit ≤ limit') : x.Within least' limit' where
  start := h.start
  length := Nat.le_trans hleast h.length
  stop := Nat.le_trans h.stop hlimit

/-- What reaches from the start of one span to the stop of another one, over a span, is within the
limits of the three. -/
theorem within_reach {a b c : Span} (ha : 1 ≤ a.start) (hb : b.Within least limit)
    (hc : c.Within least limit) (hlimit : limit ≤ Wire.maxWord32) (hstart : a.start ≤ b.start)
    (hstop : b.stop ≤ c.stop) : (⟨a.start, c.stop - a.start⟩ : Span).Within least limit := by
  have hb_stop := hb.stop_eq hlimit
  have hc_stop := hc.stop_eq hlimit
  have hleast := hb.length
  have hlast := hc.stop
  refine ⟨ha, ?_, ?_⟩
  · show least ≤ c.stop - a.start
    omega
  · show a.start + (c.stop - a.start) ≤ limit
    omega

/-! ## Arrangements -/

/-- The last span that a first one leads to is within limits and does not stop before the first. -/
theorem within_of_leadsTo {mode : Succession} {parts : List (Set Span)} {first last : Span}
    (hlimit : limit ≤ Wire.maxWord32) (hparts : ∀ part ∈ parts, ∀ x ∈ part, x.Within least limit)
    (hfirst : first.Within least limit) (h : mode.LeadsTo first parts last) :
    last.Within least limit ∧ first.stop ≤ last.stop := by
  induction parts generalizing first with
  | nil =>
      cases h
      exact ⟨hfirst, Nat.le_refl _⟩
  | cons part rest ih =>
      obtain ⟨hpart, hrest⟩ := List.forall_mem_cons.mp hparts
      obtain ⟨s, hfollows, hlast⟩ := h
      obtain ⟨hs, hbehind⟩ : s ∈ part ∧ first.stop ≤ s.start := by
        cases mode with
        | ordered range => exact ⟨hfollows.1, hfollows.2.1⟩
        | adjacent => exact ⟨hfollows.1, Nat.le_of_eq hfollows.2.symm⟩
      obtain ⟨hwithin, hle⟩ := ih hrest (hpart s hs) hlast
      have hstop := (hpart s hs).stop_eq hlimit
      exact ⟨hwithin, by omega⟩

theorem within_sequence {mode : Succession} {cuts : Set Span} {parts : List (Set Span)}
    (hlimit : limit ≤ Wire.maxWord32) (hparts : ∀ part ∈ parts, ∀ x ∈ part, x.Within least limit) :
    ∀ x ∈ mode.matchesOf cuts parts, x.Within least limit := by
  intro x hx
  cases parts with
  | nil => cases hx
  | cons head rest =>
      obtain ⟨hhead, hrest⟩ := List.forall_mem_cons.mp hparts
      obtain ⟨first, hfirst, last, hleads, -, rfl, -⟩ := hx
      have hwithin := hhead first hfirst
      obtain ⟨hlast, hstop⟩ := within_of_leadsTo hlimit hrest hwithin hleads
      exact within_reach hwithin.start hwithin hlast hlimit (Nat.le_refl _) hstop

theorem within_window {range need : Nat} {cuts : Set Span} {parts : List (Set Span)}
    (hlimit : limit ≤ Wire.maxWord32) (hparts : ∀ part ∈ parts, ∀ x ∈ part, x.Within least limit) :
    ∀ x ∈ Window.matchesOf range need cuts parts, x.Within least limit := by
  rintro ⟨begins, covers⟩
    ⟨⟨s, ⟨part, hpart, hs⟩, hstart⟩, chosen, hnearest, -, ⟨last, hlast, -, hlength⟩, -⟩
  obtain ⟨firsts, others, hfirsts, hperm, -, -⟩ := hnearest
  -- what is chosen is the first span of some part from the start on
  have hfound : some last ∈ firsts := by
    have hmem := hperm.mem_iff.mp (List.mem_append_left others hlast)
    simpa using hmem
  obtain ⟨part', hpart', hmem, hbehind, -⟩ := Pattern.exists_of_mem_right hfirsts hfound
  have hwithin := hparts part' hpart' last hmem
  dsimp only at hstart hlength hbehind
  subst hstart hlength
  exact within_reach (hparts part hpart s hs).start hwithin hwithin hlimit hbehind (Nat.le_refl _)

/-- Whatever an operator makes of spans within limits is within them. -/
theorem within_operator {operator : Operator} {range cardinality : Nat} {parts : List (Set Span)}
    (hlimit : limit ≤ Wire.maxWord32) (hparts : ∀ part ∈ parts, ∀ x ∈ part, x.Within least limit) :
    ∀ x ∈ operator.meaning range cardinality parts, x.Within least limit := by
  have hany : ∀ x ∈ shortest (anyOf parts), x.Within least limit := by
    rintro x ⟨⟨part, hpart, hx⟩, -⟩
    exact hparts part hpart x hx
  unfold Operator.meaning
  split
  · exact hany
  · exact fun x hx => hany x hx.1
  · exact fun x hx => hparts _ List.mem_cons_self x hx.1
  · exact fun x hx => hparts _ List.mem_cons_self x hx.1
  · exact fun x hx => hparts _ List.mem_cons_self x hx.1
  · exact within_sequence hlimit hparts
  · exact within_sequence hlimit hparts
  · exact within_sequence hlimit (List.forall_mem_cons.mp hparts).2
  · exact within_window hlimit hparts
  · exact within_window hlimit (List.forall_mem_cons.mp hparts).2
  · exact fun x hx => hx.elim

/-! ## Comparisons of ends -/

/-- Two spans whose ends are the true ones wherever an arrangement of the two compares them. -/
structure TrueEnds (x y : Span) : Prop where
  stop : x.stop = x.start + x.length
  /-- One encloses the other. -/
  encloses : y.encloses x = true ↔ y.start ≤ x.start ∧ x.start + x.length ≤ y.start + y.length
  /-- The next part of a sequence without gaps starts where the span ends. -/
  adjacent : ∀ part, Succession.adjacent.next? x part =
    part.find? fun s => s.start = x.start + x.length
  /-- The next part of a sequence with gaps starts where the span ends, or behind. -/
  gap : ∀ range part, (Succession.ordered range).next? x part =
    part.find? fun s => x.start + x.length ≤ s.start
  /-- What starts with one and stops with the other, as sequences and windows do, is cut by the
  delimiters before the end of that. -/
  cut : ∀ cuts, (⟨x.start, y.stop - x.start⟩ : Span).isCut cuts = true ↔
    ∃ c ∈ cuts, x.start ≤ c.start ∧ c.start < y.start + y.length

theorem Within.trueEnds (hx : x.Within least limit) (hy : y.Within least limit)
    (hlimit : limit ≤ Wire.maxWord32) : x.TrueEnds y := by
  have hx_stop := hx.stop_eq hlimit
  have hy_stop := hy.stop_eq hlimit
  refine ⟨hx_stop, ?_, fun part => ?_, fun range part => ?_, fun cuts => ?_⟩
  · simp [Span.encloses, hx_stop, hy_stop]
  · rw [← hx_stop]
    rfl
  · rw [← hx_stop]
    rfl
  · have hend := hy.stop
    have hbehind : ∀ c : Span, x.start ≤ c.start →
        (c.start < (⟨x.start, y.stop - x.start⟩ : Span).stop ↔ c.start < y.start + y.length) := by
      intro c hc
      rw [stop_mk]
      omega
    simp only [isCut, List.any_eq_true, Bool.and_eq_true, decide_eq_true_eq]
    constructor
    · rintro ⟨c, hc, hstart, hstop⟩
      exact ⟨c, hc, hstart, (hbehind c hstart).mp hstop⟩
    · rintro ⟨c, hc, hstart, hstop⟩
      exact ⟨c, hc, hstart, (hbehind c hstart).mpr hstop⟩

end Span

namespace Snapshot

open Concordance.Span

variable {s : Snapshot}

/-! ## Leaves -/

theorem border_le (s : Snapshot) (d : Nat) (column : String) :
    s.border d column ≤ Wire.maxWord32 := by
  unfold border
  split
  · exact Nat.min_le_right _ _
  · exact Nat.zero_le _

/-- A field ends with the last position; if it starts there, it is empty. -/
theorem within_fieldBetween {start stop : Nat} (hstart : start ≤ Wire.maxWord32)
    (hstop : stop ≤ Wire.maxWord32) : ∀ x ∈ fieldBetween start stop, x.Within 0 Wire.maxWord32 := by
  rintro ⟨begins, covers⟩ ⟨hpositive, rfl, hlength⟩
  refine ⟨hpositive, Nat.zero_le _, ?_⟩
  dsimp only at *
  omega

/-- A term covers one of the positions that documents may use. -/
theorem Positioned.within_term (h : s.Positioned) (d : Nat) (t : Term) :
    ∀ x ∈ s.meaning d (.term t), x.Within 1 (maxPosition + 1) := by
  rintro x ⟨hposition, hlength⟩
  cases hget : s.documents.get? d with
  | none => simp [positionsIn, hget] at hposition
  | some stored =>
      cases hsearch : stored.search.get? t with
      | none => simp [positionsIn, hget, hsearch] at hposition
      | some positions =>
          have hmem : x.start ∈ positions := by simpa [positionsIn, hget, hsearch] using hposition
          obtain ⟨hleast, hgreatest⟩ := (h d stored hget t positions hsearch).2 _ hmem
          exact ⟨hleast, Nat.le_of_eq hlength.symm, by omega⟩

end Snapshot

namespace Pattern

open Concordance.Span

variable {s : Snapshot} {least limit d : Nat} {p q : Pattern}

theorem exists_of_mem_meaningAll {parts : List Pattern} {spans : Set Span}
    (h : spans ∈ s.meaningAll d parts) : ∃ p ∈ parts, spans = s.meaning d p := by
  induction parts with
  | nil =>
      rw [Snapshot.meaningAll] at h
      cases h
  | cons p rest ih =>
      rw [Snapshot.meaningAll] at h
      rcases List.mem_cons.mp h with rfl | h
      · exact ⟨p, List.mem_cons_self, rfl⟩
      · obtain ⟨q, hq, heq⟩ := ih h
        exact ⟨q, List.mem_cons_of_mem p hq, heq⟩

/-- Limits that the leaves of a pattern keep to are kept by the pattern. -/
theorem within_meaning (hlimit : limit ≤ Wire.maxWord32)
    (hterm : ∀ t, ∀ x ∈ s.meaning d (.term t), x.Within least limit)
    (hfield : ∀ start stop, Node (.field start stop) p →
      ∀ x ∈ s.meaning d (.field start stop), x.Within least limit) :
    ∀ x ∈ s.meaning d p, x.Within least limit := by
  induction p using Pattern.induct with
  | term t => exact hterm t
  | field start stop => exact hfield start stop (.root _)
  | node operator range cardinality parts ih =>
      rw [Snapshot.meaning]
      refine within_operator hlimit fun spans hspans => ?_
      obtain ⟨part, hpart, rfl⟩ := exists_of_mem_meaningAll hspans
      exact ih part hpart fun start stop hnode => hfield start stop (.part hpart hnode)

theorem Node.trans {r : Pattern} (hqr : Node q r) (hpq : Node p q) : Node p r := by
  induction hqr with
  | root => exact hpq
  | part hmem _ ih => exact .part hmem (ih hpq)

/-- With a pattern all its nodes can be planned. -/
theorem exists_plan_of_node {plan : Plan} (hplan : p.plan s = .ok plan) (hnode : Node q p) :
    ∃ plan', q.plan s = .ok plan' := by
  cases hq : q.plan s with
  | ok plan' => exact ⟨plan', rfl⟩
  | error fault =>
      obtain ⟨r, hr, hfaulty⟩ := plan_error_iff.mp ⟨fault, hq⟩
      obtain ⟨fault', hp⟩ := plan_error_iff.mpr ⟨r, hnode.trans hr, hfaulty⟩
      rw [hplan] at hp
      cases hp

/-- The matches of a pattern start at 1 or later and do not go on behind the last position; those of
a pattern without fields cover a position and end where documents do. -/
structure Bounded (p : Pattern) (spans : List Span) : Prop where
  within : ∀ x ∈ spans, x.Within 0 Wire.maxWord32
  covers : (∀ start stop, ¬ Node (.field start stop) p) →
    ∀ x ∈ spans, x.Within 1 (maxPosition + 1)

theorem bounded_spansAt {plan : Plan} (h : s.Sound) (hpositioned : s.Positioned)
    (hplan : p.plan s = .ok plan) (d : Nat) : p.Bounded (plan.spansAt d) := by
  have hmeaning : ∀ x, x ∈ plan.spansAt d ↔ x ∈ s.meaning d p := by
    intro x
    rw [(renders_plan h hpositioned hplan).spans d]
    exact Iff.rfl
  have hmax : maxPosition + 1 ≤ Wire.maxWord32 := by decide
  refine ⟨fun x hx => ?_, fun hfree x hx => ?_⟩
  · refine within_meaning (Nat.le_refl _) (fun t y hy => ?_) (fun start stop _ y hy => ?_) x
      ((hmeaning x).mp hx)
    · exact (hpositioned.within_term d t y hy).mono (Nat.zero_le 1) hmax
    · exact Snapshot.within_fieldBetween (s.border_le d start) (s.border_le d stop) y hy
  · exact within_meaning hmax (hpositioned.within_term d)
      (fun start stop hnode => absurd hnode (hfree start stop)) x ((hmeaning x).mp hx)

/-- A document with words at its last two positions, and a field that starts with the first one. -/
def lastWords : List Client.Event := [
  .begin "writer" "t",
  .stage "writer" (.define ⟨[⟨"from", .uint32, none⟩, ⟨"to", .uint32, none⟩], by decide⟩),
  .stage "writer" (.document "a" {
    metadata := .ofList [("from", .uint 2147483646)]
    search := [⟨"word", "x", 2147483646⟩, ⟨"word", "y", 2147483647⟩] } false),
  .commit "writer" 7]

/-- The two words, one right behind the other. -/
def pair : Pattern := .structure .adjacentSequence 0 0 [.term ⟨"word", "x"⟩, .term ⟨"word", "y"⟩]

/-- The two words, inside of the field. -/
def pairInField : Pattern := .structure .inside 0 0 [pair, .field "from" "to"]

end Pattern

end Concordance
