import Concordance.SortedMap
import Concordance.Term

/-!
# Spans and their arrangements

A span is a match inside a document: the position where it starts and the number of positions that
it covers. Positions are numbers of 32 bits; an end beyond them is cut off there. The matches of a
sequence and of a window are computed inside one document from the matches of their parts. Both may
be bounded by a delimiter: no delimiter starts inside a match.
-/

namespace Concordance

/-! ## Spans -/

/-- A match inside a document. -/
structure Span where
  start : Nat
  length : Nat
  deriving DecidableEq, Repr, Inhabited, Ord

namespace Span

/-- The first position behind a span. -/
def stop (s : Span) : Nat := saturatingAdd s.start s.length

/-- Whether a span lies completely inside another one. -/
def encloses (outer inner : Span) : Bool := outer.start ≤ inner.start && inner.stop ≤ outer.stop

/-- Spans are ordered by start and then by length. -/
def precedes (a b : Span) : Bool := a.start < b.start || (a.start = b.start && a.length ≤ b.length)

/-- Keeps the first of several spans in a row that start alike. -/
def dropRepeats : List Span → List Span
  | [] => []
  | a :: rest => a :: (dropRepeats rest).dropWhile fun b => b.start = a.start

/-- Spans by start, of those with one start only the shortest. -/
def normalize (spans : List Span) : List Span := dropRepeats (spans.mergeSort precedes)

/-- The first span that starts at a position or behind it. -/
def firstFrom? (position : Nat) (spans : List Span) : Option Span :=
  spans.find? fun s => position ≤ s.start

end Span

/-! ## Arrangements -/

namespace Span

/-- Whether a delimiter starts inside a span. -/
def isCut (delimiters : List Span) (s : Span) : Bool :=
  delimiters.any fun d => s.start ≤ d.start && d.start < s.stop

end Span

/-- How the parts of a sequence follow each other. -/
inductive Succession where
  /-- Each part starts at the end of the one before it or later, and the last part starts at most
  `range` positions behind the first. -/
  | ordered (range : Nat)
  /-- Each part starts at the end of the one before it. -/
  | adjacent
  deriving DecidableEq, Repr

namespace Succession

/-- The first span of a part that may follow a span. -/
def next? (mode : Succession) (previous : Span) (part : List Span) : Option Span :=
  match mode with
  | ordered _ => Span.firstFrom? previous.stop part
  | adjacent => part.find? fun s => s.start = previous.stop

/-- The last span of the sequence that starts with a given one, taking the first span that may
follow in every part. -/
def last? (mode : Succession) (previous : Span) : List (List Span) → Option Span
  | [] => some previous
  | part :: rest =>
    match mode.next? previous part with
    | some s => last? mode s rest
    | none => none

/-- Whether a sequence may reach from one start to another. -/
def reaches (mode : Succession) (first last : Nat) : Bool :=
  match mode with
  | ordered range => last - first ≤ range
  | adjacent => true

/-- The match of a sequence that starts with a given span. -/
def matchFrom? (mode : Succession) (parts : List (List Span)) (delimiters : List Span)
    (first : Span) : Option Span :=
  match mode.last? first parts with
  | none => none
  | some last =>
    let s : Span := ⟨first.start, last.stop - first.start⟩
    if mode.reaches first.start last.start && !s.isCut delimiters then some s else none

/-- The matches of a sequence, at most one for each span of its first part. -/
def spans (mode : Succession) (parts : List (List Span)) (delimiters : List Span) : List Span :=
  match parts with
  | [] => []
  | head :: tail => head.filterMap (mode.matchFrom? tail delimiters)

end Succession

namespace Window

/-- The first spans of the parts from a position on, the nearest first. -/
def nearest (parts : List (List Span)) (start : Nat) : List Span :=
  (parts.filterMap (Span.firstFrom? start)).mergeSort Span.precedes

/-- The match of a window that starts at a position: it takes the `need` nearest spans, if the last
of them starts at most `range` positions behind. -/
def matchFrom? (parts : List (List Span)) (range need : Nat) (delimiters : List Span)
    (start : Nat) : Option Span :=
  let chosen := (nearest parts start).take need
  match chosen.getLast? with
  | none => none
  | some last =>
    if chosen.length < need ∨ range < last.start - start then none
    else
      let s : Span := ⟨start, (chosen.map Span.stop).foldl max 0 - start⟩
      if s.isCut delimiters then none else some s

/-- The matches of a window: `need` parts start within `range` positions. -/
def spans (parts : List (List Span)) (range need : Nat) (delimiters : List Span) : List Span :=
  (ascending (parts.flatten.map (·.start))).filterMap (matchFrom? parts range need delimiters)

end Window

end Concordance
