import Concordance.Error
import Concordance.Json.Basic
import Concordance.Number.Format
import Concordance.Text.Blank
import Concordance.Text.Split

/-!
# Function calls

Weighting functions and summarizers are set up by a call: a name with named parameters. A parameter
is a number, a text or the name of a feature set; numbers may be given as texts and texts as
numbers.
-/

namespace Concordance

/-- The value of a parameter. -/
inductive Param where
  | number (x : Double)
  | text (s : String)
  /-- The name of a feature set. -/
  | feature (set : String)
  deriving Inhabited

def Param.display : Param → String
  | number x => Number.plain x
  | text s => s!"'{s}'"
  | feature set => s!" %{set}"

/-- A function with its parameters. -/
structure FunctionCall where
  name : String
  params : SortedMap String Param := ∅
  deriving Inhabited

namespace FunctionCall

/-- The parameter that every function takes: the name of the element for explanations. -/
def debugKey : String := "debug"

/-- The text of a call; the name of the element for explanations is left out. -/
def display (c : FunctionCall) : String :=
  let params := c.params.toList.filter fun p => p.1 ≠ debugKey
  c.name ++ "(" ++ Text.join "," (params.map fun (key, value) => s!" {key}=" ++ value.display) ++ ")"

/-- Refuses parameters that a function does not have. -/
def checkKnown (c : FunctionCall) (known : List String) : Except Error Unit :=
  match c.params.keys.find? fun key => key ≠ debugKey && !known.contains key with
  | some key => .error (.config s!"unknown parameter '{key}' for function '{c.name}'")
  | none => .ok ()

/-- A parameter of the wrong kind. -/
def expects (c : FunctionCall) (key what : String) : Error :=
  .config s!"parameter '{key}' of function '{c.name}' expects {what}"

def number (c : FunctionCall) (key : String) (default : Double) : Except Error Double :=
  match c.params.get? key with
  | none => .ok default
  | some (.number x) => .ok x
  | some (.text s) =>
    match Number.readDouble (Text.trim s) with
    | some x => .ok x
    | none => .error (c.expects key s!"a number, got '{s}'")
  | some (.feature _) => .error (c.expects key "a number, got a feature")

def text? (c : FunctionCall) (key : String) : Except Error (Option String) :=
  match c.params.get? key with
  | none => .ok none
  | some (.text s) => .ok (some s)
  | some (.number x) => .ok (some (Number.plain x))
  | some (.feature _) => .error (c.expects key "a string, got a feature")

/-- A parameter as a text, with a default. -/
def text (c : FunctionCall) (key default : String) : Except Error String := do
  return (← c.text? key).getD default

def requiredText (c : FunctionCall) (key : String) : Except Error String := do
  match ← c.text? key with
  | some s => return s
  | none => throw (.config s!"missing parameter '{key}' for function '{c.name}'")

/-- A parameter as the name of a feature set; a text names one too. -/
def featureSet? (c : FunctionCall) (key : String) : Except Error (Option String) :=
  match c.params.get? key with
  | none => .ok none
  | some (.feature set) | some (.text set) => .ok (some set)
  | some (.number _) => .error (c.expects key "a feature set")

/-- The name of a feature set that has to be there; `who` names the function in the error. -/
def requiredFeatureSet (c : FunctionCall) (key who : String) : Except Error String := do
  match ← c.featureSet? key with
  | some set => return set
  | none => throw (.config s!"{who} needs a '{key}' feature set")

/-- The name of the element for explanations. -/
def debugName? (c : FunctionCall) : Except Error (Option String) := c.text? debugKey

/-! ## JSON -/

/-- The parameter of a JSON value. An object can be read throughout, even where it is ignored. -/
def paramOfJson : Json → Option Param
  | .number n => some (.number n.toDouble)
  | .text s => some (.text s)
  | .object members =>
    match (Json.object members).asReadable.bind (Json.asFields ["feature"]) with
    | some [feature] => (Json.requiredField Json.asText feature).map .feature
    | _ => none
  | _ => none

def ofJson (v : Json) : Option FunctionCall := do
  match ← v.asFields ["name", "params"] with
  | [name, params] =>
    return {
      name := ← Json.requiredField Json.asText name
      params := ← Json.optionalField ∅ (Json.asMap paramOfJson) params }
  | _ => none

end FunctionCall

end Concordance
