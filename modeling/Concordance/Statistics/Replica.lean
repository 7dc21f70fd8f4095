import Concordance.Statistics.Blob

/-!
# Replicas

A replica adds up the messages of one or more peers. They have to arrive in non-decreasing
timestamp order; a message older than the last one is refused and a repeated one is ignored. Only
the keys of the last timestamp are remembered: older ones are refused anyway.
-/

namespace Concordance.Statistics

/-- Statistics merged from messages. -/
structure Replica where
  documents : Int := 0
  /-- The document frequencies that are not zero. -/
  frequencies : SortedMap Term Int := ∅
  /-- The timestamp of the last message. -/
  lastApplied : Option TimeStamp := none
  /-- The keys of the messages with the last timestamp. -/
  seen : List Message.Key := []
  deriving DecidableEq

namespace Replica

instance : Inhabited Replica := ⟨{}⟩

/-- A message is older than one that was applied. -/
structure OutOfOrder where
  timestamp : TimeStamp
  last : TimeStamp
  deriving DecidableEq, Repr

/-- The error that an old message is reported as. -/
def OutOfOrder.toError (f : OutOfOrder) : Error :=
  .consistency ("statistics blob " ++ f.timestamp.display ++ " is older than last applied " ++
    f.last.display)

/-- Adds a change; a frequency of zero is dropped. -/
def addChange (frequencies : SortedMap Term Int) (c : Change) : SortedMap Term Int :=
  let sum := frequencies.getD c.term 0 + c.increment
  if sum = 0 then frequencies.erase c.term else frequencies.insert c.term sum

/-- The replica after a message that is neither old nor repeated. -/
def accept (r : Replica) (m : Message) : Replica where
  documents := r.documents + m.documents
  frequencies := m.changes.foldl addChange r.frequencies
  lastApplied := some m.timestamp
  seen := m.key :: if r.lastApplied = some m.timestamp then r.seen else []

/-- Applies a message; answers whether it was new. -/
def apply (r : Replica) (m : Message) : Except OutOfOrder (Bool × Replica) :=
  if m.key ∈ r.seen then .ok (false, r)
  else
    match r.lastApplied with
    | some last =>
      if m.timestamp.isBefore last then .error ⟨m.timestamp, last⟩ else .ok (true, r.accept m)
    | none => .ok (true, r.accept m)

/-- Applies a blob; answers whether its message was new. -/
def applyBlob (r : Replica) (bytes : List UInt8) : Except Error (Bool × Replica) := do
  let m ← Blob.read bytes
  (r.apply m).mapError OutOfOrder.toError

def documentFrequency (r : Replica) (t : Term) : Int := r.frequencies.getD t 0

/-- The terms with a frequency that is not zero, in order, with their frequencies. -/
def terms (r : Replica) : List (Term × Int) := r.frequencies.toList

/-! ## In place -/

/-- Work on a replica in place: a fault leaves what was written before it. -/
abbrev Merging (ε α : Type) := ExceptT ε (StateM Replica) α

/-- Writes down a message that is neither old nor repeated. -/
def enter (m : Message) : Merging OutOfOrder Unit := do
  modify fun r => { r with documents := r.documents + m.documents }
  for c in m.changes do
    modify fun r => { r with frequencies := addChange r.frequencies c }
  if (← get).lastApplied ≠ some m.timestamp then
    modify fun r => { r with seen := [] }
  modify fun r => { r with seen := m.key :: r.seen }
  modify fun r => { r with lastApplied := some m.timestamp }

/-- Applies a message in place; answers whether it was new. -/
def receive (m : Message) : Merging OutOfOrder Bool := do
  if m.key ∈ (← get).seen then return false
  match (← get).lastApplied with
  | some last => if m.timestamp.isBefore last then throw ⟨m.timestamp, last⟩
  | none => pure ()
  enter m
  return true

/-- Applies a blob in place; answers whether its message was new. -/
def receiveBlob (bytes : List UInt8) : Merging Error Bool := do
  let m ← ExceptT.mk (pure (Blob.read bytes))
  (receive m).adapt OutOfOrder.toError

end Replica

end Concordance.Statistics
