import Concordance.Json.Basic
import Concordance.Metadata.Schema
import Concordance.Number.Format
import Concordance.Statistics.Message
import Concordance.Text.Blank
import Concordance.Text.Split

/-!
# Configurations

A storage is described by a few settings, written `key=value` and separated by semicolons. A value
that holds a semicolon stands in quotes of either kind; there is no way to write a quote inside
quotes of its own kind.
-/

namespace Concordance

/-- The settings of a storage. -/
structure Config where
  /-- The directory of the storage; without one it is kept in memory. -/
  path : Option String := none
  /-- The size of the journal in bytes behind which a commit writes a checkpoint. -/
  cacheSize : Nat := 16 * 1024 * 1024
  /-- Whether access to documents is controlled. -/
  accessControl : Bool := false
  schema : Schema := .empty
  /-- How statistics are written. -/
  encoding : Statistics.Encoding := .standard
  /-- The number of commits whose statistics are kept. -/
  historyLimit : Nat := 10000
  deriving DecidableEq, Inhabited

namespace Config

/-! ## Values -/

/-- Cuts a unit off the end of a size: `K`, `M` or `G` for a power of 1024. -/
def splitUnit (digits : List Char) : List Char × Nat :=
  match digits.getLast? with
  | some 'K' => (digits.dropLast, 1024)
  | some 'M' => (digits.dropLast, Number.twoTo 20)
  | some 'G' => (digits.dropLast, Number.twoTo 30)
  | _ => (digits, 1)

/-- Reads a size in bytes: a number with a unit and a `B` behind it, both of them optional. -/
def parseSize (s : String) : Except Error Nat :=
  let s := Text.trim s
  let upper := (Text.upperAscii s).toList
  let (digits, factor) := splitUnit (if upper.getLast? = some 'B' then upper.dropLast else upper)
  match Number.readNat Wire.word64 (String.ofList (Text.trimChars digits)) with
  | none => .error (.config s!"malformed size '{s}'")
  | some n =>
    if n * factor < Wire.word64 then .ok (n * factor) else .error (.config s!"size '{s}' too large")

/-- Reads the truth value of a setting. -/
def parseBool (key value : String) : Except Error Bool :=
  match Text.lowerAscii (Text.trim value) with
  | "true" | "yes" | "1" | "on" => .ok true
  | "false" | "no" | "0" | "off" => .ok false
  | other => .error (.config s!"expected boolean for '{key}', got '{other}'")

/-! ## Pairs of keys and values -/

/-- Why a text is no list of settings. -/
inductive PairFault where
  | noValue (key : String)
  | unclosed (key : String)
  deriving DecidableEq, Repr

def PairFault.toError : PairFault → Error
  | .noValue key => .config s!"expected '=' after key '{key}'"
  | .unclosed key => .config s!"unterminated quote in value of '{key}'"

/-- Whether a character may stand between settings. -/
def isGap (c : Char) : Bool := Text.isBlank c || c = ';'

/-- Reads a value: what stands in quotes as it is, and anything else up to the semicolon without the
blanks around it. -/
def readValue (key : String) (cs : List Char) : Except PairFault (String × List Char) :=
  let bare := (Text.trim (String.ofList (cs.takeWhile (· ≠ ';'))), cs.dropWhile (· ≠ ';'))
  match cs with
  | [] => .ok bare
  | quote :: rest =>
    if quote = '\'' ∨ quote = '"' then
      match Text.splitOnceChars quote rest with
      | some (value, rest) => .ok (String.ofList value, rest)
      | none => .error (.unclosed key)
    else .ok bare

/-- Reads the settings of a text; every setting takes at least one character. -/
def readPairs : (fuel : Nat) → List Char → Except PairFault (List (String × String))
  | 0, _ => .ok []
  | fuel + 1, cs =>
    match cs.dropWhile isGap with
    | [] => .ok []
    | cs => do
      let key := Text.trim (String.ofList (cs.takeWhile fun c => c ≠ '=' && c ≠ ';'))
      match cs.dropWhile fun c => c ≠ '=' && c ≠ ';' with
      | '=' :: rest =>
        let (value, rest) ← readValue key (rest.dropWhile Text.isBlank)
        return (Text.lowerAscii key, value) :: (← readPairs fuel rest)
      | _ => .error (.noValue key)

/-- The settings of a text, with their keys in lower case. -/
def pairs (s : String) : Except PairFault (List (String × String)) :=
  readPairs (s.length + 1) s.toList

/-! ## Texts -/

def set (c : Config) (setting : String × String) : Except Error Config := do
  let (key, value) := setting
  match key with
  | "path" => return { c with path := some value }
  | "cache" | "cache_size" => return { c with cacheSize := ← parseSize value }
  | "acl" => return { c with accessControl := ← parseBool key value }
  | "metadata" => return { c with schema := ← Schema.parse value }
  | "statsproc" => return { c with encoding := ← Statistics.Encoding.parse value }
  | "history" | "statistics_history" =>
    match Number.readNat Wire.word64 (Text.trim value) with
    | some n => return { c with historyLimit := n }
    | none => throw (.config s!"expected a record count for '{key}', got '{value}'")
  | other => throw (.config s!"unknown configuration key '{other}'")

/-- Reads a configuration. Settings that are not named keep their defaults; of several values of a
setting the last one counts. -/
def parse (s : String) : Except Error Config := do
  (← (pairs s).mapError PairFault.toError).foldlM set {}

def display (c : Config) : String :=
  (match c.path with
    | some path => s!"path='{path}';"
    | none => "") ++
  s!"cache={c.cacheSize};acl={c.accessControl}" ++
  (if c.schema.isEmpty then "" else ";metadata='" ++ c.schema.display ++ "'") ++
  s!";statsproc={c.encoding.name};history={c.historyLimit}"

/-! ## JSON -/

def toJson (c : Config) : Json :=
  .object [
    ("path", .ofOption (c.path.map .text)),
    ("cache_size", .ofNat c.cacheSize),
    ("acl", .bool c.accessControl),
    ("metadata", c.schema.toJson),
    ("statsproc", .text (c.encoding.title)),
    ("statistics_history", .ofNat c.historyLimit)]

def encodingOfJson (v : Json) : Option Statistics.Encoding := do
  let name ← v.asName
  Statistics.Encoding.all.find? (·.title == name)

/-- The configuration of a JSON value; settings that are missing have their defaults. -/
def ofJson (v : Json) : Option Config := do
  let d : Config := {}
  match ← v.asFields ["path", "cache_size", "acl", "metadata", "statsproc", "statistics_history"] with
  | [path, cacheSize, accessControl, schema, encoding, historyLimit] =>
    return {
      path := ← Json.optionalField d.path (Json.asOption Json.asText) path
      cacheSize := ← Json.optionalField d.cacheSize (Json.asNat Wire.word64) cacheSize
      accessControl := ← Json.optionalField d.accessControl Json.asBool accessControl
      schema := ← Json.optionalField d.schema Schema.ofJson schema
      encoding := ← Json.optionalField d.encoding encodingOfJson encoding
      historyLimit := ← Json.optionalField d.historyLimit (Json.asNat Wire.word64) historyLimit }
  | _ => none

end Config

end Concordance
