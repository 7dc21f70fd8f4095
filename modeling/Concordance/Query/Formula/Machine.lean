import Concordance.Error
import Concordance.Number.Format

/-!
# The stack machine of weighting formulas

Operands are pushed, operations take their operands from the top and push the result, and the value
left at the end is the value of the program.
-/

namespace Concordance.Formula

/-- An operation on two values. -/
inductive Operator where
  | add
  | sub
  | mul
  | div
  deriving DecidableEq, Repr

/-- An instruction of the stack machine. A variable is given by its place among the declared
ones. -/
inductive Instruction where
  | push (value : Double)
  | argument (index : Nat)
  | var (index : Nat)
  | negate
  | operate (op : Operator)
  deriving DecidableEq, Repr

/-- Why a program gives no value. -/
inductive EvaluationFault where
  | divisionByZero
  | noArgument (index : Nat)
  | unboundVariable (index : Nat)
  /-- An instruction found too few values. -/
  | stackUnderflow
  /-- A program left no value, or more than one. -/
  | corruptProgram
  deriving DecidableEq, Repr

/-- The error that a fault in a formula is reported as. -/
def EvaluationFault.toError (source : String) : EvaluationFault → Error
  | divisionByZero => .evaluation s!"division by zero in weighting formula '{source}'"
  | noArgument index => .evaluation s!"weighting formula argument _{index} is not defined"
  | unboundVariable index => .evaluation s!"weighting formula variable {index} is not bound"
  | stackUnderflow => .evaluation "weighting formula stack underflow"
  | corruptProgram => .evaluation "corrupt weighting formula program"

def Operator.apply (op : Operator) (left right : Double) : Except EvaluationFault Double :=
  match op with
  | add => .ok (left + right)
  | sub => .ok (left - right)
  | mul => .ok (left * right)
  | div => if right.isZero then .error .divisionByZero else .ok (left / right)

/-- Runs an instruction on a stack, its top first. -/
def Instruction.run (arguments values : List Double) (stack : List Double) :
    Instruction → Except EvaluationFault (List Double)
  | push value => .ok (value :: stack)
  | argument index =>
    match arguments[index]? with
    | some value => .ok (value :: stack)
    | none => .error (.noArgument index)
  | var index =>
    match values[index]? with
    | some value => .ok (value :: stack)
    | none => .error (.unboundVariable index)
  | negate =>
    match stack with
    | value :: stack => .ok (-value :: stack)
    | [] => .error .stackUnderflow
  | operate op =>
    match stack with
    | right :: left :: stack => do return (← op.apply left right) :: stack
    | _ => .error .stackUnderflow

/-- Runs a program from an empty stack. -/
def execute (program : List Instruction) (arguments values : List Double) :
    Except EvaluationFault Double := do
  match ← program.foldlM (Instruction.run arguments values) [] with
  | [value] => .ok value
  | _ => .error .corruptProgram

end Concordance.Formula
