import Concordance.Query.Plan

/-!
# Cursors

A cursor walks through a plan: from document to document, and inside a document from match to match.
The cursor of a structure has a crew, the cursors of the parts, and moves only by moving them. Both
keep what they found: a structure answers a seek from its last one where that settles it, and a crew
that looks for the nearest document of any part leaves the parts alone that are far enough. What was
kept is good only as long as the seeks go forward; a seek that goes back starts the crew anew.

Every search goes from candidate to candidate, at most one for each document up to the bound of the
plan.
-/

namespace Concordance

/-- Where a crew knows the cursor of a part to stand. -/
inductive Standing where
  | unknown
  | on (number : Nat)
  | ended
  deriving DecidableEq, Repr, Inhabited

namespace Standing

/-- The standing of a cursor that was just moved. -/
def ofDocument : Option Nat → Standing
  | some d => on d
  | none => ended

/-- Whether a part has to be moved to stand on a document from a number on. -/
def isBefore (number : Nat) : Standing → Bool
  | unknown => true
  | on d => d < number
  | ended => false

def document? : Standing → Option Nat
  | on d => some d
  | unknown | ended => none

end Standing

/-- The cursors of the parts of a structure, and that of its delimiter. -/
structure Crew (κ : Type) where
  parts : List (κ × Standing) := []
  /-- The number that the known standings were sought from. -/
  target : Nat := 0
  delimiter : Option κ := none
  deriving Repr, Inhabited

/-- Where a cursor stands. -/
structure Cursor where
  /-- The number that the current document was sought from; nothing before the first seek. -/
  sought : Option Nat := none
  /-- The current document, nothing before the first and behind the last one. -/
  document : Option Nat := none
  /-- The matches of the current document. -/
  found : List Span := []
  /-- The current match. -/
  current : Option Span := none
  crew : Crew Cursor := {}
  deriving Repr, Inhabited

namespace Cursor

/-! ## Inside a document -/

/-- Moves to the first match of the current document from a position on. -/
def seekPosition (c : Cursor) (position : Nat) : Cursor :=
  { c with current := Span.firstFrom? (max position 1) c.found }

/-- The start of the current match, 0 if there is none. -/
def position (c : Cursor) : Nat := (c.current.map (·.start)).getD 0

/-- The number of matches of the current document. -/
def frequency (c : Cursor) : Nat := c.found.length

/-- Walks through matches of the current document from a position on, at most `fuel` of them. The
walk ends behind the last one, unless no position is behind it. -/
def walkFrom : (fuel : Nat) → Cursor → (position : Nat) → List Span × Cursor
  | 0, c, _ => ([], c)
  | fuel + 1, c, position =>
    let c := c.seekPosition position
    match c.current with
    | none => ([], c)
    | some s =>
      if s.start = Wire.maxWord32 then ([s], c)
      else
        let (rest, c) := walkFrom fuel c (s.start + 1)
        (s :: rest, c)

/-- Walks through all matches of the current document. -/
def walk (c : Cursor) : List Span × Cursor := walkFrom (c.found.length + 1) c 1

/-- The length of the current match; terms and sets of documents have length 1 throughout. -/
def length : Plan → Cursor → Nat
  | .restricted inner _ _, c => length inner c
  | .nothing, _ | .term _, _ | .access _, _ | .documents _, _ => 1
  | _, c => (c.current.map (·.length)).getD 0

/-! ## Seeks -/

/-- Moves a cursor to the least document from a number on. -/
abbrev Seek := Cursor → Nat → Cursor

/-- Whether the last search answers a seek too: it started no later and ended no earlier. -/
def answers (c : Cursor) (number : Nat) : Bool :=
  match c.sought with
  | none => false
  | some sought => sought ≤ number && c.document.all (number ≤ ·)

/-- The matches of a cursor that is sent to a document, nothing if it does not stop there. -/
def matchesIn (seek : Seek) (c : Cursor) (number : Nat) : List Span × Cursor :=
  let c := seek c number
  if c.document = some number then c.walk else ([], c)

/-- Searches with the crew of a cursor, unless the last search answers the seek. -/
def seekWith (search : Crew Cursor → Nat → Option (Nat × List Span) × Crew Cursor) : Seek :=
  fun c number =>
    let number := max number 1
    if c.answers number then c
    else
      let (hit, crew) := search c.crew number
      { sought := some number, document := hit.map (·.1), found := (hit.map (·.2)).getD [],
        current := none, crew }

/-- Seeks on with one cursor until it stands on a document that passes a test, in at most `fuel`
steps. -/
def seekWhere (seek : Seek) (test : Nat → Bool) : (fuel : Nat) → Seek
  | 0, c, _ => c
  | fuel + 1, c, number =>
    let c := seek c number
    match c.document with
    | none => c
    | some d => if test d then c else seekWhere seek test fuel c (d + 1)

end Cursor

namespace Crew

open Cursor (Seek)

/-- Leaps with a crew to the first candidate from a number on. -/
abbrev Leap := Crew Cursor → Nat → Option Nat × Crew Cursor

/-- Finds the matches in a candidate that the crew stands on. -/
abbrev Landing := Crew Cursor → Nat → Option (List Span) × Crew Cursor

/-- Leaps from candidate to candidate until one has matches, in at most `fuel` steps. -/
def search (leap : Leap) (land : Landing) :
    (fuel : Nat) → Crew Cursor → Nat → Option (Nat × List Span) × Crew Cursor
  | 0, crew, _ => (none, crew)
  | fuel + 1, crew, number =>
    match leap crew number with
    | (none, crew) => (none, crew)
    | (some d, crew) =>
      match land crew d with
      | (some spans, crew) => (some (d, spans), crew)
      | (none, crew) => search leap land fuel crew (d + 1)

/-! ## Leaps -/

/-- Moves a part that is not known to stand on a document from a number on. -/
def bring (number : Nat) (seek : Seek) (part : Cursor × Standing) : Cursor × Standing :=
  if part.2.isBefore number then
    let c := seek part.1 number
    (c, .ofDocument c.document)
  else part

/-- Forgets where a part stands. -/
def forget (part : Cursor × Standing) : Cursor × Standing := (part.1, .unknown)

/-- Brings every part to its first document from a number on; the nearest one is the candidate. -/
def leapAny (seeks : List Seek) : Leap := fun crew number =>
  let parts := if number < crew.target then crew.parts.map forget else crew.parts
  let parts := List.zipWith (bring number) seeks parts
  ((parts.filterMap (·.2.document?)).min?, { crew with parts, target := number })

/-- Seeks with the parts one after the other, up to the first that does not stop at the number. -/
def probe : List Seek → List (Cursor × Standing) → Nat → Option Nat × List (Cursor × Standing)
  | seek :: seeks, (c, standing) :: parts, number =>
    let c := seek c number
    match c.document with
    | none => (none, (c, standing) :: parts)
    | some d =>
      if number < d then (some d, (c, standing) :: parts)
      else
        let (found, parts) := probe seeks parts number
        (found, (c, standing) :: parts)
  | _, parts, number => (some number, parts)

/-- Probes from the last answer on until all parts stop at the number asked for, in at most `fuel`
rounds. -/
def agree (seeks : List Seek) :
    (fuel : Nat) → List (Cursor × Standing) → Nat → Option Nat × List (Cursor × Standing)
  | 0, parts, _ => (none, parts)
  | fuel + 1, parts, number =>
    match probe seeks parts number with
    | (none, parts) => (none, parts)
    | (some d, parts) => if d = number then (some d, parts) else agree seeks fuel parts d

/-- Lets the parts leap over each other until they all stand on one document, the candidate. No
parts have no candidates. -/
def leapAll (bound : Nat) (seeks : List Seek) : Leap := fun crew number =>
  if seeks.isEmpty then (none, crew)
  else
    let (found, parts) := agree seeks (bound + 2) crew.parts number
    (found, { crew with parts })

/-- Leaps with the first part alone. -/
def leapFirst (seek : Seek) : Leap := fun crew number =>
  match crew.parts with
  | [] => (none, crew)
  | (c, standing) :: parts =>
    let c := seek c number
    (c.document, { crew with parts := (c, standing) :: parts })

/-- Every number up to a bound is a candidate. -/
def leapNumbers (bound : Nat) : Leap := fun crew number =>
  (if number ≤ bound then some number else none, crew)

/-! ## Matches in a candidate -/

/-- The matches of all parts. -/
def walkAll (crew : Crew Cursor) : List (List Span) × Crew Cursor :=
  (crew.parts.map (·.1.walk.1),
    { crew with parts := crew.parts.map fun part => (part.1.walk.2, part.2) })

/-- The matches of the parts that stand on a document. -/
def walkOn (number : Nat) (crew : Crew Cursor) : List (List Span) × Crew Cursor :=
  ((crew.parts.filter (·.2 = .on number)).map (·.1.walk.1),
    { crew with parts := crew.parts.map fun part =>
        if part.2 = .on number then (part.1.walk.2, part.2) else part })

/-- How many parts stand on a document. -/
def presence (number : Nat) (crew : Crew Cursor) : Nat := crew.parts.countP (·.2 = .on number)

/-- The matches of the delimiter in a document. -/
def cuts (seek? : Option Seek) (crew : Crew Cursor) (number : Nat) : List Span × Crew Cursor :=
  match seek?, crew.delimiter with
  | some seek, some c =>
    let (spans, c) := c.matchesIn seek number
    (spans, { crew with delimiter := some c })
  | _, _ => ([], crew)

/-- The matches of all parts that stand on a candidate, if these are enough. -/
def landPresence (need : Nat) : Landing := fun crew number =>
  if need ≤ crew.presence number then
    let (spans, crew) := crew.walkOn number
    (some (Span.normalize spans.flatten), crew)
  else (none, crew)

def landIntersection : Landing := fun crew _ =>
  let (spans, crew) := crew.walkAll
  (Plan.nonEmpty (Plan.sharedSpans spans), crew)

def landDifference (dropped : Seek) : Landing := fun crew number =>
  match crew.parts with
  | [(a, standing), (b, standing')] =>
    let (spans, a) := a.walk
    let (excluded, b) := b.matchesIn dropped number
    (Plan.nonEmpty (spans.filter fun s => excluded.all (·.start ≠ s.start)),
      { crew with parts := [(a, standing), (b, standing')] })
  | _ => (none, crew)

def landInside : Landing := fun crew _ =>
  match crew.walkAll with
  | ([inner, outer], crew) => (Plan.nonEmpty (inner.filter fun s => outer.any (·.encloses s)), crew)
  | (_, crew) => (none, crew)

def landSequence (mode : Succession) (delimiter : Option Seek) : Landing := fun crew number =>
  let (spans, crew) := crew.walkAll
  let (delimiters, crew) := crew.cuts delimiter number
  (Plan.nonEmpty (Span.normalize (mode.spans spans delimiters)), crew)

def landWindow (range need : Nat) (delimiter : Option Seek) : Landing := fun crew number =>
  if need ≤ crew.presence number then
    let (spans, crew) := crew.walkOn number
    let (delimiters, crew) := crew.cuts delimiter number
    (Plan.nonEmpty (Window.spans spans range need delimiters), crew)
  else (none, crew)

/-- The field of a document is its only match. -/
def landField (table : Table) (start stop : Nat) : Landing := fun crew number =>
  ((Plan.fieldSpan? table number start stop).map fun s => [s], crew)

end Crew

namespace Cursor

/-! ## Cursors of plans -/

mutual

/-- A cursor in front of a plan. -/
def start : Plan → Cursor
  | .restricted inner _ _ => start inner
  | .union parts | .presence _ parts | .intersection parts => { crew := { parts := startAll parts } }
  | .difference kept dropped =>
    { crew := { parts := [(start kept, .unknown), (start dropped, .unknown)] } }
  | .inside inner outer =>
    { crew := { parts := [(start inner, .unknown), (start outer, .unknown)] } }
  | .sequence _ parts delimiter | .window _ _ parts delimiter =>
    { crew := { parts := startAll parts, delimiter := startOf delimiter } }
  | .nothing | .term _ | .field .. | .access _ | .documents _ => {}

def startAll : List Plan → List (Cursor × Standing)
  | [] => []
  | p :: rest => (start p, .unknown) :: startAll rest

def startOf : Option Plan → Option Cursor
  | none => none
  | some p => some (start p)

end

/-- Moves to a document of a term. A seek for the very document that the cursor is on leaves its
match where it is. -/
def seekTerm (postings : Postings) : Seek := fun c number =>
  let number := max number 1
  if c.document = some number then c
  else
    let posting := postings.firstFrom? number
    { c with
      document := posting.map (·.1)
      found := (posting.map (·.2.map fun p => (⟨p, 1⟩ : Span))).getD []
      current := none }

mutual

/-- Moves to the least document from a number on. -/
def seek : Plan → Cursor → Nat → Cursor
  | .nothing => fun c _ => c
  | .term postings => seekTerm postings
  | .field start stop table maxNumber _ =>
    seekWith (Crew.search (Crew.leapNumbers maxNumber) (Crew.landField table start stop)
      (maxNumber + 1))
  | .access lists => fun c number =>
    { c with document := (lists.filterMap (·.find? (max number 1 ≤ ·))).min? }
  | .documents numbers => fun c number =>
    { c with document := numbers.find? (max number 1 ≤ ·) }
  | .restricted inner table tests => fun c number =>
    seekWhere (seek inner) (ColumnTest.allHold tests table) (inner.bound + 2) c (max number 1)
  | .union parts =>
    seekWith (Crew.search (Crew.leapAny (seekAll parts)) (Crew.landPresence 1)
      (Plan.boundOfAll parts + 2))
  | .presence need parts =>
    seekWith (Crew.search (Crew.leapAny (seekAll parts)) (Crew.landPresence need)
      (Plan.boundOfAll parts + 2))
  | .intersection parts =>
    let bound := Plan.boundOfAll parts
    seekWith (Crew.search (Crew.leapAll bound (seekAll parts)) Crew.landIntersection (bound + 2))
  | .difference kept dropped =>
    seekWith (Crew.search (Crew.leapFirst (seek kept)) (Crew.landDifference (seek dropped))
      (kept.bound + 2))
  | .inside inner outer =>
    seekWith (Crew.search (Crew.leapAll inner.bound [seek inner, seek outer]) Crew.landInside
      (inner.bound + 2))
  | .sequence mode parts delimiter =>
    let bound := Plan.boundOfAll parts
    seekWith (Crew.search (Crew.leapAll bound (seekAll parts))
      (Crew.landSequence mode (seekOf delimiter)) (bound + 2))
  | .window range need parts delimiter =>
    seekWith (Crew.search (Crew.leapAny (seekAll parts))
      (Crew.landWindow range need (seekOf delimiter)) (Plan.boundOfAll parts + 2))

def seekAll : List Plan → List Seek
  | [] => []
  | p :: rest => seek p :: seekAll rest

def seekOf : Option Plan → Option Seek
  | none => none
  | some p => some (seek p)

end

-- the equations, derived once for all that is proved from them
attribute [grind =] seek seekAll seekOf

/-- Walks through all documents from a number on, at most `fuel` of them, and through all matches of
each. -/
def collectFrom (plan : Plan) : (fuel : Nat) → Cursor → Nat → List (Nat × List Nat) × Cursor
  | 0, c, _ => ([], c)
  | fuel + 1, c, number =>
    let c := seek plan c number
    match c.document with
    | none => ([], c)
    | some d =>
      let (spans, c) := c.walk
      let (rest, c) := collectFrom plan fuel c (d + 1)
      ((d, spans.map (·.start)) :: rest, c)

/-- Walks through all documents and all their matches. -/
def collect (plan : Plan) (c : Cursor) : List (Nat × List Nat) × Cursor :=
  collectFrom plan (plan.bound + 2) c 1

end Cursor

/-- All documents of a plan with the starts of their matches. -/
def Plan.allMatches (p : Plan) : List (Nat × List Nat) := (Cursor.collect p (Cursor.start p)).1

end Concordance
