import Concordance.Metadata.Table
import Concordance.Text.Blank

/-!
# Restrictions on metadata

A restriction is a list of groups of conditions. A document passes if in every group some condition
holds for its metadata. Columns are named, and looked up in a schema before documents are tested.
-/

namespace Concordance

/-- A comparison of two numeric values. -/
inductive Comparison where
  | equal
  | notEqual
  | less
  | lessEqual
  | greater
  | greaterEqual
  deriving DecidableEq, Repr

namespace Comparison

def all : List Comparison := [equal, notEqual, less, lessEqual, greater, greaterEqual]

def symbol : Comparison → String
  | equal => "="
  | notEqual => "!="
  | less => "<"
  | lessEqual => "<="
  | greater => ">"
  | greaterEqual => ">="

/-- Reads a sign or a short name of a comparison. -/
def parse (s : String) : Except Error Comparison :=
  match Text.trim s with
  | "=" | "==" | "eq" => .ok equal
  | "!=" | "<>" | "ne" => .ok notEqual
  | "<" | "lt" => .ok less
  | "<=" | "le" => .ok lessEqual
  | ">" | "gt" => .ok greater
  | ">=" | "ge" => .ok greaterEqual
  | other => .error (.config s!"unknown compare operator '{other}'")

/-- Whether a comparison accepts this order of its two sides. -/
def accepts : Comparison → Ordering → Bool
  | equal, o => o = .eq
  | notEqual, o => o ≠ .eq
  | less, o => o = .lt
  | lessEqual, o => o ≠ .gt
  | greater, o => o = .gt
  | greaterEqual, o => o ≠ .lt

/-- Whether a comparison holds of two values. Values that do not compare satisfy none. -/
def holds (c : Comparison) (left right : Numeric) : Bool :=
  (left.compare? right).any c.accepts

end Comparison

/-- A comparison of a column with a constant. -/
structure Condition where
  comparison : Comparison
  column : String
  value : Numeric

def Condition.display (c : Condition) : String :=
  s!"{c.column} {c.comparison.symbol} {c.value.display}"

/-- Groups of conditions: every group must have a condition that holds. -/
structure Restriction where
  groups : List (List Condition) := []
  deriving Inhabited

/-- A condition on a column that was looked up. -/
structure ColumnTest where
  index : Nat
  comparison : Comparison
  value : Numeric

namespace Restriction

/-- Appends a condition to the last of some groups, or opens a group if there is none. -/
def extendLast (c : Condition) : List (List Condition) → List (List Condition)
  | [] => [[c]]
  | [group] => [group ++ [c]]
  | group :: rest => group :: extendLast c rest

/-- Adds a condition, in a group of its own or as an alternative in the last group. -/
def add (r : Restriction) (c : Condition) (newGroup : Bool) : Restriction :=
  ⟨if newGroup then r.groups ++ [[c]] else extendLast c r.groups⟩

def isEmpty (r : Restriction) : Bool := r.groups.isEmpty

/-- The text of a group; alternatives stand in parentheses. -/
def displayGroup (group : List Condition) : String :=
  let text := " OR ".intercalate (group.map Condition.display)
  if group.length > 1 then s!"({text})" else text

def display (r : Restriction) : String := " AND ".intercalate (r.groups.map displayGroup)

/-- Looks a column up. -/
def resolveCondition (schema : Schema) (c : Condition) : Except Error ColumnTest :=
  match schema.indexOf? c.column with
  | some index => .ok ⟨index, c.comparison, c.value⟩
  | none => .error (.evaluation s!"restriction references unknown metadata column '{c.column}'")

/-- Looks the columns of a restriction up. -/
def resolve (r : Restriction) (schema : Schema) : Except Error (List (List ColumnTest)) :=
  r.groups.mapM (·.mapM (resolveCondition schema))

end Restriction

/-- Whether a test holds for a document. -/
def ColumnTest.holds (t : ColumnTest) (table : Table) (number : Nat) : Bool :=
  t.comparison.holds (table.get number t.index) t.value

/-- Whether every group has a test that holds for a document. -/
def ColumnTest.allHold (groups : List (List ColumnTest)) (table : Table) (number : Nat) : Bool :=
  groups.all (·.any (·.holds table number))

end Concordance
