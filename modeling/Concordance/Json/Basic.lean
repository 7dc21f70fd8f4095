import Concordance.Number.Format
import Concordance.SortedMap

/-!
# JSON values

Objects keep their members in the order of the text, repeated names included; readers of a certain
shape decide what a repeated name means. Whole numbers of 64 bits stay exact, all other numbers
are doubles. A text can be well formed and still stand for no value: half a surrogate pair is no
character, and a number can lie outside the range of doubles. Such a value is `unreadable`; it does
no harm where nobody asks for it.

A structure is written as an object, or as the array of its fields in order; unknown members are
ignored and a repeated member is refused. A choice is written as its name, or as an object with the
name as its only member. Every reader answers nothing when the value has another shape, or when it
cannot be read.
-/

namespace Concordance

/-- A JSON number. -/
inductive JsonNumber where
  /-- A whole number from 0 below 2^64. -/
  | natural (n : Nat)
  /-- A whole number from -2^63 below 0. -/
  | negative (n : Int)
  | double (x : Double)

/-- A JSON value. -/
inductive Json where
  | null
  | bool (b : Bool)
  | number (n : JsonNumber)
  | text (s : String)
  | array (items : List Json)
  | object (members : List (String × Json))
  /-- A well formed text that stands for no value. -/
  | unreadable
  deriving Inhabited

namespace JsonNumber

def toDouble : JsonNumber → Double
  | natural n => .ofNat n
  | negative n => .ofInt n
  | double x => x

/-- The text of a number. Doubles that no JSON number stands for are written `null`. -/
def render : JsonNumber → String
  | natural n => toString n
  | negative n => toString n
  | double x => (Number.json? x).getD "null"

end JsonNumber

namespace Json

def ofNat (n : Nat) : Json := .number (.natural n)

/-- An integer as a value. -/
def ofInt (n : Int) : Json := .number (if 0 ≤ n then .natural n.toNat else .negative n)

def ofDouble (x : Double) : Json := .number (.double x)

/-- An optional value; nothing is `null`. -/
def ofOption : Option Json → Json
  | some v => v
  | none => .null

def ofTexts (l : List String) : Json := .array (l.map .text)

/-- The value of a member; of several with one name the last one counts. -/
def member? (name : String) (members : List (String × Json)) : Option Json :=
  (members.reverse.find? fun m => m.1 == name).map (·.2)

mutual

/-- Whether a value and all values inside it can be read. -/
def isReadable : Json → Bool
  | .array items => areReadable items
  | .object members => areReadableMembers members
  | .unreadable => false
  | _ => true

/-- `isReadable` for the items of an array. -/
def areReadable : List Json → Bool
  | [] => true
  | v :: rest => isReadable v && areReadable rest

/-- `isReadable` for the members of an object. -/
def areReadableMembers : List (String × Json) → Bool
  | [] => true
  | (_, v) :: rest => isReadable v && areReadableMembers rest

end

mutual

/-- The value with the members of every object in name order, each name once, its last value
counting. -/
def normalize : Json → Json
  | .array items => .array (normalizeItems items)
  | .object members => .object (SortedMap.ofList (normalizeMembers members)).toList
  | v => v

/-- `normalize` for the items of an array. -/
def normalizeItems : List Json → List Json
  | [] => []
  | v :: rest => normalize v :: normalizeItems rest

/-- `normalize` for the members of an object. -/
def normalizeMembers : List (String × Json) → List (String × Json)
  | [] => []
  | (name, v) :: rest => (name, normalize v) :: normalizeMembers rest

end

end Json

end Concordance

/-! ## Values of a known shape -/

namespace Concordance.Json

/-- A value of any shape that can be read throughout. -/
def asReadable (v : Json) : Option Json := if v.isReadable then some v else none

def asText : Json → Option String
  | .text s => some s
  | _ => none

/-- The truth value of a value. -/
def asBool : Json → Option Bool
  | .bool b => some b
  | _ => none

def asDouble : Json → Option Double
  | .number n => some n.toDouble
  | _ => none

/-- A whole number below a limit. -/
def asNat (limit : Nat) : Json → Option Nat
  | .number (.natural n) => if n < limit then some n else none
  | _ => none

/-- A whole number of 64 bits with a sign. -/
def asInt : Json → Option Int
  | .number (.natural n) => if n < Number.half64 then some n else none
  | .number (.negative n) => some n
  | _ => none

/-- The items of an array, each of a known shape. -/
def asList {α : Type} (item : Json → Option α) : Json → Option (List α)
  | .array items => items.mapM item
  | _ => none

def isArray : Json → Bool
  | .array _ => true
  | _ => false

/-- An optional value: `null` is nothing. -/
def asOption {α : Type} (shape : Json → Option α) : Json → Option (Option α)
  | .null => some none
  | v => (shape v).map some

/-- A map from names to values of a known shape; of several values of a name the last one counts. -/
def asMap {α : Type} (shape : Json → Option α) : Json → Option (SortedMap String α)
  | .object members => do
    return .ofList (← members.mapM fun (name, v) => (shape v).map (name, ·))
  | _ => none

/-- The fields of a structure, in the order of their names; nothing in the place of a missing
one. -/
def asFields (names : List String) : Json → Option (List (Option Json))
  | .object members =>
    names.mapM fun name =>
      match members.filter fun m => m.1 == name with
      | [] => some none
      | [m] => some (some m.2)
      | _ => none
  | .array items =>
    if items.length ≤ names.length then
      some (items.map some ++ List.replicate (names.length - items.length) none)
    else none
  | _ => none

/-- A field that may be missing. -/
def optionalField {α : Type} (default : α) (shape : Json → Option α) : Option Json → Option α
  | none => some default
  | some v => shape v

def requiredField {α : Type} (shape : Json → Option α) (field : Option Json) : Option α :=
  field.bind shape

/-- The name of a choice and what it carries. -/
def asChoice : Json → Option (String × Option Json)
  | .text name => some (name, none)
  | .object [(name, v)] => some (name, some v)
  | _ => none

/-- The name of a choice that carries nothing. -/
def asName (v : Json) : Option String := do
  match ← asChoice v with
  | (name, none) | (name, some .null) => some name
  | _ => none

end Concordance.Json
