import Concordance.Statistics.Basic
import Concordance.Text.Blank
import Concordance.Text.Split

/-!
# Messages

Peers exchange statistics in messages. A record with many changes is split into parts; the change
of the number of documents travels with the first part, and a record without changes still makes
one message.
-/

/-! ## Cutting lists -/

namespace Concordance

/-- Cuts a list into at most `count` pieces of a size, the last one shorter if need be. -/
def pieces {α : Type} (size : Nat) : (count : Nat) → List α → List (List α)
  | 0, _ => []
  | count + 1, l => if l.isEmpty then [] else l.take size :: pieces size count (l.drop size)

/-- Cuts a list into pieces of a size, but at least of one element. -/
def cut {α : Type} (size : Nat) (l : List α) : List (List α) := pieces (max size 1) l.length l

end Concordance

/-! ## Messages -/

namespace Concordance.Statistics

/-- How the changes of a message are written. -/
inductive Encoding where
  /-- Every term in full. -/
  | standard
  /-- Terms in order, with a table of types and shared beginnings left out. -/
  | compact
  deriving DecidableEq, Repr, Inhabited

/-- The name of an encoding in a configuration. -/
def Encoding.name : Encoding → String
  | .standard => "std"
  | .compact => "compact"

/-- The name of an encoding in JSON. -/
def Encoding.title : Encoding → String
  | .standard => "Std"
  | .compact => "Compact"

def Encoding.all : List Encoding := [.standard, .compact]

def Encoding.parse (s : String) : Except Error Encoding :=
  match Text.lowerAscii (Text.trim s) with
  | "std" | "default" => .ok .standard
  | "compact" => .ok .compact
  | other => .error (.config s!"unknown statistics processor '{other}'")

/-- What a message describes. -/
inductive Origin where
  /-- The changes of one commit. -/
  | update
  /-- All statistics of a storage that joins. -/
  | register
  /-- All statistics of a storage that leaves, negated. -/
  | deregister
  deriving DecidableEq, Repr, Inhabited

def Origin.title : Origin → String
  | .update => "Update"
  | .register => "Register"
  | .deregister => "Deregister"

def Origin.all : List Origin := [.update, .register, .deregister]

/-- A message of statistics. -/
structure Message where
  timestamp : TimeStamp
  part : Nat
  origin : Origin
  encoding : Encoding
  documents : Int
  changes : List Change
  deriving DecidableEq, Repr, Inhabited

namespace Message

/-- What tells messages apart. -/
structure Key where
  timestamp : TimeStamp
  part : Nat
  origin : Origin
  deriving DecidableEq, Repr

def key (m : Message) : Key := ⟨m.timestamp, m.part, m.origin⟩

/-- The messages of a record with at most so many changes each, and at least one change each if
there are changes. -/
def split (record : Record) (origin : Origin) (encoding : Encoding) (maxEntries : Nat) :
    List Message :=
  let message (part : Nat) (changes : List Change) : Message :=
    ⟨record.timestamp, part, origin, encoding, if part = 0 then record.documents else 0, changes⟩
  match cut maxEntries record.changes with
  | [] => [message 0 []]
  | parts => parts.zipIdx.map fun (changes, part) => message part changes

/-- The messages of several records, one after the other. -/
def splitAll (records : List Record) (origin : Origin) (encoding : Encoding) (maxEntries : Nat) :
    List Message :=
  records.flatMap fun r => split r origin encoding maxEntries

/-- How many changes a message holds unless said otherwise. -/
def defaultMaxEntries : Nat := 4096

end Message

end Concordance.Statistics
