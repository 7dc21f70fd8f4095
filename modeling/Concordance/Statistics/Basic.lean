import Concordance.Error
import Concordance.Number.Format
import Concordance.Term
import Concordance.Text.Blank
import Concordance.Text.Split
import Concordance.Wire.Codec

/-!
# Statistics of commits

Every commit has a timestamp and a record: by how much it changed the number of documents and the
document frequencies of terms. Timestamps are ordered by seconds, then by a counter of commits, and
a storage never hands out a lower one than before (`TimeStamp.next`).

A history keeps the newest records, oldest first, up to a limit. Dropping a record moves the horizon
to its timestamp: what happened up to there can no longer be told.
-/

namespace Concordance.Statistics

/-- The logical time of a commit. -/
structure TimeStamp where
  seconds : Nat
  counter : Nat
  deriving DecidableEq, Repr, Inhabited

instance : Ord TimeStamp :=
  ⟨compareLex (compareOn TimeStamp.seconds) (compareOn TimeStamp.counter)⟩

instance : Std.TransOrd TimeStamp :=
  inferInstanceAs
    (Std.TransCmp (compareLex (compareOn TimeStamp.seconds) (compareOn TimeStamp.counter)))

instance : Std.LawfulEqOrd TimeStamp where
  eq_of_compare {a b} h := by
    obtain ⟨hs, hc⟩ : compare a.seconds b.seconds = .eq ∧ compare a.counter b.counter = .eq :=
      Ordering.then_eq_eq.mp h
    cases a; cases b
    exact congr (congrArg _ (Std.LawfulEqOrd.eq_of_compare hs)) (Std.LawfulEqOrd.eq_of_compare hc)

namespace TimeStamp

/-- Whether a timestamp is older than another one. -/
def isBefore (a b : TimeStamp) : Bool := compare a b == .lt

/-- The timestamp after `t` when the clock reads `now`. -/
def next (t : TimeStamp) (now : Nat) : TimeStamp := ⟨max now t.seconds, t.counter + 1⟩

/-- A timestamp as text. -/
def display (t : TimeStamp) : String := s!"{t.seconds}:{t.counter}"

/-- Reads a timestamp: the seconds, a colon and the counter. -/
def parse (s : String) : Except Error TimeStamp :=
  match Text.splitOnce ':' s with
  | none => .error (.config s!"timestamp '{s}' is not <unixtime>:<counter>")
  | some (seconds, counter) =>
    match Number.readNat Wire.word64 (Text.trim seconds), Number.readNat Wire.word64 (Text.trim counter) with
    | none, _ => .error (.config s!"invalid unixtime in timestamp '{s}'")
    | some _, none => .error (.config s!"invalid counter in timestamp '{s}'")
    | some seconds, some counter => .ok ⟨seconds, counter⟩

/-- Timestamps in records. -/
def codec : Wire.Codec TimeStamp :=
  ((Wire.Codec.nat 8).pair (.nat 8)).imap (fun t => (t.seconds, t.counter)) fun (s, c) => ⟨s, c⟩

end TimeStamp

/-- By how much the document frequency of a term changed. -/
structure Change where
  term : Term
  increment : Int
  deriving DecidableEq, Repr, Inhabited

/-- What one commit changed. -/
structure Record where
  timestamp : TimeStamp
  /-- By how much the number of documents changed. -/
  documents : Int
  changes : List Change
  deriving DecidableEq, Repr, Inhabited

def termCodec : Wire.Codec Term :=
  (Wire.Codec.text.pair .text).imap (fun t => (t.type, t.value)) fun (t, v) => ⟨t, v⟩

def changeCodec : Wire.Codec Change :=
  (termCodec.pair .int).imap (fun c => (c.term, c.increment)) fun (t, i) => ⟨t, i⟩

/-- Records of commits in records. -/
def Record.codec : Wire.Codec Record :=
  (TimeStamp.codec.pair (Wire.Codec.int.pair (.list changeCodec))).imap
    (fun r => (r.timestamp, r.documents, r.changes)) fun (t, d, c) => ⟨t, d, c⟩

/-! ## Histories -/

/-- The newest records of a storage. -/
structure History where
  records : List Record := []
  /-- The timestamp of the newest record dropped. -/
  horizon : Option TimeStamp := none
  limit : Nat
  deriving DecidableEq

namespace History

/-- The empty history; it keeps at least one record. -/
def empty (limit : Nat) : History := { limit := max limit 1 }

instance : Inhabited History := ⟨empty 1⟩

/-- Drops the oldest records as long as there are more than the limit. -/
def trim (limit : Nat) (horizon : Option TimeStamp) : List Record → Option TimeStamp × List Record
  | [] => (horizon, [])
  | r :: rest =>
    if limit < (r :: rest).length then trim limit (some r.timestamp) rest else (horizon, r :: rest)

/-- Adds the record of a new commit. -/
def push (h : History) (r : Record) : History :=
  let (horizon, records) := trim h.limit h.horizon (h.records ++ [r])
  { h with horizon, records }

/-- The history of stored records behind a stored horizon. -/
def restore (limit : Nat) (horizon : Option TimeStamp) (records : List Record) : History :=
  records.foldl push { empty limit with horizon }

/-- Records asked for are no longer there. -/
structure Gone where
  since : Option TimeStamp
  horizon : TimeStamp
  deriving DecidableEq, Repr

/-- The error that lost records are reported as. -/
def Gone.toError (f : Gone) : Error :=
  let start := match f.since with
    | some t => t.display
    | none => "the start"
  .consistency ("statistics history from " ++ start ++
    " is no longer available, records up to " ++ f.horizon.display ++
    " were dropped; fetch the full table instead")

/-- Whether a timestamp is newer than a point in time; everything is newer than the start. -/
def isAfter (since : Option TimeStamp) (t : TimeStamp) : Bool :=
  match since with
  | none => true
  | some s => s.isBefore t

/-- The records newer than a point in time. -/
def since (h : History) (since : Option TimeStamp) : Except Gone (List Record) :=
  match h.horizon with
  | some horizon =>
    if isAfter since horizon then .error ⟨since, horizon⟩
    else .ok (h.records.filter fun r => isAfter since r.timestamp)
  | none => .ok (h.records.filter fun r => isAfter since r.timestamp)

end History

end Concordance.Statistics
