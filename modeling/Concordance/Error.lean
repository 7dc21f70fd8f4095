/-!
# Errors

Every operation that can fail says why with an `Error`: the kind of failure and a text. The kind
decides the words in front of the text and whether trying again may help.
-/

namespace Concordance

/-- The kinds of failure. -/
inductive ErrorKind where
  /-- A file operation failed. -/
  | io
  /-- A setting, a function name or the form of a query is wrong. -/
  | config
  /-- The storage below the index refused. -/
  | storage
  /-- A change does not fit the stored documents or their schema. -/
  | transaction
  /-- Ranking met a value that it cannot use. -/
  | evaluation
  /-- Statistics are damaged or out of order. -/
  | consistency
  /-- A query was put together wrongly. -/
  | query
  /-- The operation is not legal in this state. -/
  | invalidOperation
  /-- Bytes are not the encoding of anything. -/
  | serialization
  /-- A JSON text is malformed or has the wrong shape. -/
  | json
  | other
  /-- The command line itself is at fault. -/
  | frontEnd
  deriving DecidableEq, Repr, Inhabited

/-- The words in front of the text of an error of this kind. -/
def ErrorKind.label : ErrorKind → String
  | .io => "I/O error: "
  | .config => "Configuration error: "
  | .storage => "Storage error: "
  | .transaction => "Transaction error: "
  | .evaluation => "Evaluation error: "
  | .consistency => "Consistency error: "
  | .query => "Query error: "
  | .invalidOperation => "Invalid operation: "
  | .serialization => "Serialization error: "
  | .json => "JSON error: "
  | .other => ""
  | .frontEnd => ""

def ErrorKind.name : ErrorKind → String
  | .io => "Io"
  | .config => "Config"
  | .storage => "Storage"
  | .transaction => "Transaction"
  | .evaluation => "Evaluation"
  | .consistency => "Consistency"
  | .query => "Query"
  | .invalidOperation => "InvalidOperation"
  | .serialization => "Serialization"
  | .json => "Json"
  | .other => "Other"
  | .frontEnd => "Anyhow"

/-- All kinds of failure. -/
def ErrorKind.all : List ErrorKind :=
  [.io, .config, .storage, .transaction, .evaluation, .consistency, .query, .invalidOperation,
    .serialization, .json, .other, .frontEnd]

/-- A failure: its kind and what went wrong. -/
structure Error where
  kind : ErrorKind
  text : String
  deriving DecidableEq, Repr, Inhabited

namespace Error

/-- The full text of an error. -/
def message (e : Error) : String := e.kind.label ++ e.text

/-- Failures of files and storage may pass; all others come back. -/
def isTransient (e : Error) : Bool := e.kind = .io || e.kind = .storage

abbrev io (text : String) : Error := ⟨.io, text⟩
abbrev config (text : String) : Error := ⟨.config, text⟩
abbrev storage (text : String) : Error := ⟨.storage, text⟩
abbrev transaction (text : String) : Error := ⟨.transaction, text⟩
abbrev evaluation (text : String) : Error := ⟨.evaluation, text⟩
abbrev consistency (text : String) : Error := ⟨.consistency, text⟩
abbrev invalidOperation (text : String) : Error := ⟨.invalidOperation, text⟩
abbrev serialization (text : String) : Error := ⟨.serialization, text⟩
abbrev json (text : String) : Error := ⟨.json, text⟩

end Error

end Concordance
