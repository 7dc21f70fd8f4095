import Concordance.Exchange.Value
import Concordance.Query.Session

/-!
# Exchange forms of queries and plans

Conditions, the instructions of a formula, and what a query finds. A plan is written as an array:
its kind, and what it is made of. A pattern stands for its plan.
-/

namespace Concordance.Exchange

/-! ## Queries -/

/-- A condition, and whether it starts a group; it does unless said otherwise. -/
def condition (v : Json) : Except Error (Condition × Bool) := do
  let parts ← required "condition" (v.asList some)
  match parts with
  | .text symbol :: .text column :: value :: rest =>
    let comparison ← Comparison.parse symbol
    let value ← required "numeric value" (numeric value)
    let newGroup ← required "condition" (Json.optionalField true Json.asBool rest.head?)
    return (⟨comparison, column, value⟩, newGroup)
  | _ => .error (.json "malformed condition")

/-- A restriction: a list of conditions. -/
def restriction (v : Json) : Except Error Restriction := do
  let conditions ← (← required "restriction" (v.asList some)).mapM condition
  return conditions.foldl (fun r (c, newGroup) => r.add c newGroup) {}

def ofInstruction : Formula.Instruction → Json
  | .push x => .array [.text "push", ofDouble x]
  | .argument i => .array [.text "arg", .ofNat i]
  | .var i => .array [.text "var", .ofNat i]
  | .negate => .ofTexts ["neg"]
  | .operate .add => .ofTexts ["add"]
  | .operate .sub => .ofTexts ["sub"]
  | .operate .mul => .ofTexts ["mul"]
  | .operate .div => .ofTexts ["div"]

/-- Documents with the starts of their matches. -/
def ofMatches (l : List (Nat × List Nat)) : Json :=
  ofList (fun (number, starts) => .array [.ofNat number, ofNats starts]) l

def ofElement (e : SummaryElement) : Json :=
  .array [.text e.name, .text e.value, ofDouble e.weight, .ofInt e.index]

def ofRank (r : Rank) : Json :=
  .object [
    ("docno", .ofNat r.number),
    ("weight", ofDouble r.weight),
    ("summary", ofList ofElement r.summary)]

def ofResult (r : QueryResult) : Json :=
  .object [
    ("nof_ranked", .ofNat r.ranked),
    ("nof_visited", .ofNat r.visited),
    ("ranks", ofList ofRank r.ranks)]

/-! ## Plans -/

def pattern (v : Json) : Except Error Pattern := required "expression" (Pattern.ofJson false v)

/-- Reads whole numbers of 64 bits. -/
def nats (v : Json) : Except Error (List Nat) := required "numbers" (v.asList word64)

/-- Reads a plan for a snapshot, nested at most `depth` deep. -/
def planAt (s : Snapshot) : (depth : Nat) → Json → Except Error Plan
  | 0, _ => .error (.json "a plan is nested too deeply")
  | depth + 1, v => do
    let all (parts : Json) : Except Error (List Plan) := do
      (← required "plans" (parts.asList some)).mapM (planAt s depth)
    let delimiter (part : Json) : Except Error (Option Plan) := do
      (← required "plan" (part.asOption some)).mapM (planAt s depth)
    let number (n : Json) : Except Error Nat := required "number" (word32 n)
    match v with
    | .array [.text "expr", p] => do ((← pattern p).plan s).mapError PatternFault.toError
    | .array [.text "set", l] => return .ofDocuments (← nats l)
    | .array [.text "access", l] =>
      return .access (s.access.listsFor (← required "users" (l.asList Json.asText)))
    | .array [.text "restrict", part, conditions] => do
      let inner ← planAt s depth part
      return .restricted inner s.metadata
        (← (← restriction conditions).resolve s.metadata.schema)
    | .array [.text "union", parts] => return .union (← all parts)
    | .array [.text "intersect", parts] => return .intersection (← all parts)
    | .array [.text "contains", parts, n] => return .ofPresence (← number n) (← all parts)
    | .array [.text "diff", a, b] => return .difference (← planAt s depth a) (← planAt s depth b)
    | .array [.text "inside", a, b] => return .inside (← planAt s depth a) (← planAt s depth b)
    | .array [.text "sequence", parts, n, d] =>
      return .sequence (.ordered (← number n)) (← all parts) (← delimiter d)
    | .array [.text "sequence_imm", parts, _, d] =>
      return .sequence .adjacent (← all parts) (← delimiter d)
    | .array [.text "within", parts, n, d, m] =>
      return .ofWindow (← number n) (← number m) (← all parts) (← delimiter d)
    | .array [.text "empty"] => return .nothing
    | _ => .error (.json "malformed plan")

def plan (s : Snapshot) (v : Json) : Except Error Plan := planAt s Json.maxDepth v

end Concordance.Exchange
