import Concordance.Proofs.Query.Span
import Concordance.Query.Planning
import Mathlib.Data.Set.Basic

/-!
# What patterns mean

The matches of a pattern in a stored document, said without plans and cursors: a set of spans for
every node of the pattern, made of the sets of its parts (`Snapshot.meaning`). Sets know no order and
no repetition, so an operator says only which spans there are: the shortest of those that start
alike, the first that may follow, the nearest of each part of a window.

A pattern has a meaning whether or not it can be planned; `Pattern.Malformed` says which patterns
cannot, by the nodes at any depth that are at fault.
-/

namespace Concordance

namespace Span

/-- No span of a set starts inside a span. -/
def Uncut (cuts : Set Span) (s : Span) : Prop := ∀ c ∈ cuts, c.start < s.start ∨ s.stop ≤ c.start

/-- A position where a span of a set starts. -/
def IsStart (spans : Set Span) (position : Nat) : Prop := ∃ s ∈ spans, s.start = position

/-- The spans of any of several sets. -/
def anyOf (parts : List (Set Span)) : Set Span := {s | ∃ spans ∈ parts, s ∈ spans}

/-- Of the spans that start alike, the shortest. -/
def shortest (spans : Set Span) : Set Span :=
  {s | s ∈ spans ∧ ∀ t ∈ spans, t.start = s.start → s.length ≤ t.length}

/-- The first span that starts at a position or behind it, or nothing. -/
def IsFirstFrom (position : Nat) (spans : Set Span) : Option Span → Prop
  | some s => s ∈ spans ∧ position ≤ s.start ∧ ∀ t ∈ spans, position ≤ t.start → s.start ≤ t.start
  | none => ∀ t ∈ spans, t.start < position

end Span

namespace Succession

open Concordance.Span

/-- The span of the next part that follows a span. -/
def Follows (mode : Succession) (previous : Span) (part : Set Span) (s : Span) : Prop :=
  match mode with
  | ordered _ => IsFirstFrom previous.stop part (some s)
  | adjacent => s ∈ part ∧ s.start = previous.stop

/-- The span of the last part that the first span leads to, one part after the other. -/
def LeadsTo (mode : Succession) (first : Span) : List (Set Span) → Span → Prop
  | [], last => last = first
  | part :: rest, last => ∃ s, mode.Follows first part s ∧ mode.LeadsTo s rest last

/-- Whether the last span of a sequence starts near enough to the first one. -/
def Spares (mode : Succession) (first last : Span) : Prop :=
  match mode with
  | ordered range => last.start ≤ first.start + range
  | adjacent => True

/-- The matches of a sequence of parts: from the start of a span of the first part to the end of the
span that it leads to. -/
def matchesOf (mode : Succession) (cuts : Set Span) : List (Set Span) → Set Span
  | [] => ∅
  | head :: rest =>
    {s | ∃ first ∈ head, ∃ last, mode.LeadsTo first rest last ∧ mode.Spares first last ∧
      s = ⟨first.start, last.stop - first.start⟩ ∧ Uncut cuts s}

end Succession

namespace Window

open Concordance.Span

/-- The nearest spans from a position on, one of each of so many parts; those of the other parts do
not come before them. -/
def AreNearest (parts : List (Set Span)) (need position : Nat) (chosen : List Span) : Prop :=
  ∃ firsts others, List.Forall₂ (IsFirstFrom position) parts firsts ∧
    (chosen ++ others).Perm (firsts.filterMap id) ∧ chosen.length = need ∧
    ∀ s ∈ chosen, ∀ t ∈ others, s.precedes t = true

/-- The matches of a window: from the start of a span of any part to the greatest end of the nearest
spans of so many parts, which all start in range. -/
def matchesOf (range need : Nat) (cuts : Set Span) (parts : List (Set Span)) : Set Span :=
  {s | IsStart (anyOf parts) s.start ∧ ∃ chosen, AreNearest parts need s.start chosen ∧
    (∀ t ∈ chosen, t.start ≤ s.start + range) ∧
    (∃ last ∈ chosen, (∀ t ∈ chosen, t.stop ≤ last.stop) ∧ s.length = last.stop - s.start) ∧
    Uncut cuts s}

end Window

open Concordance.Span in
/-- The spans that an operator makes of those of the parts. -/
def Operator.meaning (operator : Operator) (range cardinality : Nat) (parts : List (Set Span)) :
    Set Span :=
  match operator, parts with
  | .union, parts => shortest (anyOf parts)
  | .presence, parts =>
    {s | s ∈ shortest (anyOf parts) ∧ ∃ found : List (Set Span), found.Sublist parts ∧
      max cardinality 1 ≤ found.length ∧ ∀ spans ∈ found, spans.Nonempty}
  | .intersection, first :: rest => {s | s ∈ first ∧ ∀ spans ∈ rest, IsStart spans s.start}
  | .difference, [kept, dropped] => {s | s ∈ kept ∧ ¬ IsStart dropped s.start}
  | .inside, [inner, outer] => {s | s ∈ inner ∧ ∃ t ∈ outer, t.start ≤ s.start ∧ s.stop ≤ t.stop}
  | .sequence, parts => Succession.matchesOf (.ordered range) ∅ parts
  | .adjacentSequence, parts => Succession.matchesOf .adjacent ∅ parts
  | .delimitedSequence, delimiter :: parts =>
    Succession.matchesOf (.ordered range) delimiter parts
  | .window, parts =>
    Window.matchesOf range (if cardinality = 0 then parts.length else cardinality) ∅ parts
  | .delimitedWindow, delimiter :: parts =>
    Window.matchesOf range (if cardinality = 0 then parts.length else cardinality) delimiter parts
  | _, _ => ∅

namespace Snapshot

/-- The positions of a term in a stored document. -/
def positionsIn (s : Snapshot) (d : Nat) (t : Term) : List Nat :=
  ((s.documents.get? d).bind (·.search.get? t)).getD []

/-- The border of a field that a column of a document stores: a signed integer above 0, cut off at
the last position. All other values are as good as 0. -/
def border (s : Snapshot) (d : Nat) (column : String) : Nat :=
  match (s.metadata.get? d column).bind Numeric.toInt? with
  | some n => min n.toNat Wire.maxWord32
  | none => 0

/-- The field between two borders. Without a start there is none, and without an end it goes on to
the last position. -/
def fieldBetween (start stop : Nat) : Set Span :=
  {s | 0 < start ∧ s.start = start ∧
    (stop = 0 ∧ s.length = Wire.maxWord32 - start ∨ start < stop ∧ s.length = stop - start)}

mutual

/-- The matches of a pattern in a document. -/
def meaning (s : Snapshot) (d : Nat) : Pattern → Set Span
  | .term t => {x | x.start ∈ s.positionsIn d t ∧ x.length = 1}
  | .field start stop => fieldBetween (s.border d start) (s.border d stop)
  | .structure operator range cardinality parts =>
    operator.meaning range cardinality (meaningAll s d parts)

/-- The matches of patterns, pattern by pattern. -/
def meaningAll (s : Snapshot) (d : Nat) : List Pattern → List (Set Span)
  | [] => []
  | p :: rest => meaning s d p :: meaningAll s d rest

end

end Snapshot

namespace Pattern

/-- The nodes of a pattern, itself included. -/
inductive Node : Pattern → Pattern → Prop
  | root (p : Pattern) : Node p p
  | part {operator : Operator} {range cardinality : Nat} {parts : List Pattern} {p q : Pattern} :
    p ∈ parts → Node q p → Node q (.structure operator range cardinality parts)

/-- The parts of a structure apart from its delimiter. -/
def arguments (operator : Operator) (parts : List Pattern) : List Pattern :=
  if operator.isDelimited then parts.tail else parts

/-- What is wrong with a node by itself: the number of its parts, or an unknown column. -/
def Faulty (s : Snapshot) : Pattern → Prop
  | .term _ => False
  | .field start stop =>
    (∀ c ∈ s.metadata.schema.columns, c.name ≠ start) ∨
      ∀ c ∈ s.metadata.schema.columns, c.name ≠ stop
  | .structure operator _ cardinality parts =>
    operator.isDelimited = true ∧ parts.length < 2 ∨
      (arguments operator parts).length < cardinality ∨
      (operator = .difference ∨ operator = .inside) ∧ (parts.length = 1 ∨ 2 < parts.length)

/-- A pattern with a faulty node, at any depth. -/
def Malformed (s : Snapshot) (p : Pattern) : Prop := ∃ q, Node q p ∧ Faulty s q

end Pattern

end Concordance
