import Concordance.Json.Basic

/-!
# Writing JSON

`render` writes a value on one line without blanks; `renderPretty` puts every item and member on a
line of its own, two blanks deeper than what it belongs to. What is unreadable is written `null`.
-/

namespace Concordance.Json

/-- Two hexadecimal digits. -/
def hexByte (n : Nat) : String :=
  String.ofList [Nat.digitChar (n / 16 % 16), Nat.digitChar (n % 16)]

/-- One character of a JSON text. -/
def escapeChar (c : Char) : String :=
  if c = '"' then "\\\""
  else if c = '\\' then "\\\\"
  else if c = '\n' then "\\n"
  else if c = '\r' then "\\r"
  else if c = '\t' then "\\t"
  else if c.toNat = 8 then "\\b"
  else if c.toNat = 12 then "\\f"
  else if c.toNat < 32 then "\\u00" ++ hexByte c.toNat
  else c.toString

/-- A text between double quotes. -/
def renderText (s : String) : String := "\"" ++ String.join (s.toList.map escapeChar) ++ "\""

/-- Pieces with commas between them. -/
def commaSeparated (pieces : List String) : String := ",".intercalate pieces

mutual

/-- A value on one line. -/
def render : Json → String
  | .null => "null"
  | .bool b => if b then "true" else "false"
  | .number n => n.render
  | .text s => renderText s
  | .array items => "[" ++ commaSeparated (renderItems items) ++ "]"
  | .object members => "\x7b" ++ commaSeparated (renderMembers members) ++ "\x7d"
  | .unreadable => "null"

/-- The items of an array, each on its own. -/
def renderItems : List Json → List String
  | [] => []
  | v :: rest => render v :: renderItems rest

/-- The members of an object, each on its own. -/
def renderMembers : List (String × Json) → List String
  | [] => []
  | (name, v) :: rest => (renderText name ++ ":" ++ render v) :: renderMembers rest

end

/-- The start of a line at a depth. -/
def indentation (depth : Nat) : String := "\n" ++ String.ofList (List.replicate (2 * depth) ' ')

/-- Pieces between brackets, each on a line of its own; no lines for no pieces. -/
def bracketed (opening closing : String) (depth : Nat) (pieces : List String) : String :=
  if pieces.isEmpty then opening ++ closing
  else
    let start := indentation (depth + 1)
    opening ++ start ++ ("," ++ start).intercalate pieces ++ indentation depth ++ closing

mutual

/-- A value over several lines, starting at a depth. -/
def renderPrettyAt (depth : Nat) : Json → String
  | .array items => bracketed "[" "]" depth (renderPrettyItems (depth + 1) items)
  | .object members => bracketed "\x7b" "\x7d" depth (renderPrettyMembers (depth + 1) members)
  | v => render v

/-- The items of an array at a depth. -/
def renderPrettyItems (depth : Nat) : List Json → List String
  | [] => []
  | v :: rest => renderPrettyAt depth v :: renderPrettyItems depth rest

/-- The members of an object at a depth. -/
def renderPrettyMembers (depth : Nat) : List (String × Json) → List String
  | [] => []
  | (name, v) :: rest =>
    (renderText name ++ ": " ++ renderPrettyAt depth v) :: renderPrettyMembers depth rest

end

/-- A value over several lines. -/
def renderPretty (v : Json) : String := renderPrettyAt 0 v

end Concordance.Json
