import Concordance.Console.Invocation
import Concordance.Json.Printer
import Concordance.Query.Session
import Concordance.Statistics.Message
import Concordance.Store.Commit

/-!
# Reports

What a task answers, and how it is printed: as lines for a reader, or as JSON. Tasks that are timed
say how many milliseconds they took, which the printer is told.
-/

namespace Concordance.Console

open Statistics

/-- What several commits did together. -/
structure CommitTotals where
  transactions : Nat := 0
  inserted : Nat := 0
  updated : Nat := 0
  deleted : Nat := 0
  deriving DecidableEq, Repr, Inhabited

/-- The totals with one commit more. -/
def CommitTotals.add (t : CommitTotals) (s : CommitSummary) : CommitTotals where
  transactions := t.transactions + 1
  inserted := t.inserted + s.inserted
  updated := t.updated + s.updated
  deleted := t.deleted + s.deleted

/-- Named values. -/
abbrev Row := List (String × String)

/-- What a task answers. -/
inductive Report where
  /-- A storage was set up or removed. -/
  | storage (heading : String) (config : Config)
  /-- Documents were changed; afterwards there are so many. -/
  | commits (heading : String) (totals : CommitTotals) (documents : Nat)
  /-- The result of a query, and the id of each document number. -/
  | ranking (result : QueryResult) (id? : Nat → Option String)
  | overview (documents maxNumber : Nat) (termTypes users : List String)
  /-- Messages of statistics, and their size in bytes. -/
  | messages (list : List Message) (bytes : Nat)
  | rows (list : List Row)

namespace Report

/-- The heading of a report, if it has one. -/
def heading? : Report → Option String
  | storage heading _ | commits heading _ _ => some heading
  | overview .. => some "Statistics"
  | messages .. => some "Statistics blobs"
  | ranking .. | rows _ => none

/-! ## Lines -/

/-- An integer with its sign, also if it is not negative. -/
def withSign (n : Int) : String := if n < 0 then toString n else s!"+{n}"

/-- A number at the right end of three places. -/
def padLeft (n : Nat) : String :=
  let digits := toString n
  String.ofList (List.replicate (3 - digits.length) ' ') ++ digits

/-- The lines of a ranked document. -/
def rankLines (id? : Nat → Option String) (place : Nat) (r : Rank) : List String :=
  (padLeft place ++ s!". [{r.number}] " ++ (id? r.number).getD "-" ++ " weight=" ++
      Number.fixed 5 r.weight) ::
    r.summary.map fun e => "       " ++ e.name ++ ": " ++ e.value

def messageLines (m : Message) : List String :=
  (m.timestamp.display ++ s!" part {m.part} " ++ m.origin.title ++ " nofdocs " ++
      withSign m.documents) ::
    m.changes.map fun c => "  " ++ c.term.display ++ " " ++ withSign c.increment

/-- The lines of a report without its heading. -/
def lines (elapsed : Nat) : Report → List String
  | storage _ config => ["path:   " ++ config.path.getD "", "config: " ++ config.display]
  | commits _ t documents => [
      s!"transactions: {t.transactions}",
      s!"inserted:     {t.inserted}",
      s!"updated:      {t.updated}",
      s!"deleted:      {t.deleted}",
      s!"documents:    {documents}",
      s!"duration:     {elapsed} ms"]
  | ranking r id? =>
    s!"ranked {r.ranked} of {r.visited} visited documents in {elapsed} ms" ::
      (r.ranks.zipIdx 1).flatMap fun (rank, place) => rankLines id? place rank
  | overview documents maxNumber termTypes users =>
    [s!"documents:  {documents}", s!"max docno:  {maxNumber}",
      "term types: " ++ Text.join ", " termTypes] ++
      if users.isEmpty then [] else ["users:      " ++ Text.join ", " users]
  | messages list bytes => s!"{list.length} blobs, {bytes} bytes" :: list.flatMap messageLines
  | rows list => list.map fun row => Text.join " " (row.map fun (name, value) => name ++ "=" ++ value)

/-! ## JSON -/

def pairJson (p : String × String) : Json := .ofTexts [p.1, p.2]

/-- A ranked document as JSON. -/
def rankJson (id? : Nat → Option String) (r : Rank) : Json :=
  .object [
    ("docno", .ofNat r.number),
    ("docid", .ofOption ((id? r.number).map .text)),
    ("weight", .ofDouble r.weight),
    ("summary", .array (r.summary.map fun e => pairJson (e.name, e.value)))]

def changeJson (c : Change) : Json :=
  .object [
    ("term", .object [("term_type", .text c.term.type), ("value", .text c.term.value)]),
    ("increment", .ofInt c.increment)]

def messageJson (m : Message) : Json :=
  .object [
    ("timestamp", .object [
      ("unixtime", .ofNat m.timestamp.seconds),
      ("counter", .ofNat m.timestamp.counter)]),
    ("part", .ofNat m.part),
    ("origin", .text m.origin.title),
    ("encoding", .text m.encoding.title),
    ("nofdocs_delta", .ofInt m.documents),
    ("changes", .array (m.changes.map changeJson))]

def toJson (elapsed : Nat) : Report → Json
  | storage _ config =>
    .object [("path", .text (config.path.getD "")), ("config", .text config.display)]
  | commits _ t documents => .object [
      ("transactions", .ofNat t.transactions),
      ("inserted", .ofNat t.inserted),
      ("updated", .ofNat t.updated),
      ("deleted", .ofNat t.deleted),
      ("nof_documents", .ofNat documents),
      ("duration_ms", .ofNat elapsed)]
  | ranking r id? => .object [
      ("nof_ranked", .ofNat r.ranked),
      ("nof_visited", .ofNat r.visited),
      ("ranks", .array (r.ranks.map (rankJson id?))),
      ("duration_ms", .ofNat elapsed)]
  | overview documents maxNumber termTypes users => .object [
      ("nof_documents", .ofNat documents),
      ("max_docno", .ofNat maxNumber),
      ("term_types", .ofTexts termTypes),
      ("users", .ofTexts users)]
  | messages list bytes =>
    .object [("blobs", .array (list.map messageJson)), ("bytes", .ofNat bytes)]
  | rows list => .object [("rows", .array (list.map fun row => .array (row.map pairJson)))]

/-! ## Printing -/

def print (p : Presentation) (elapsed : Nat) (r : Report) : String :=
  if p.json then
    (if p.pretty then (r.toJson elapsed).renderPretty else (r.toJson elapsed).render) ++ "\n"
  else
    let heading := if p.verbosity = 0 then [] else r.heading?.toList
    String.join ((heading ++ r.lines elapsed).map (· ++ "\n"))

end Report

end Concordance.Console
