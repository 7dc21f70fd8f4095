import Concordance.Query.Formula.Compiler
import Concordance.SortedMap

/-!
# Compiled weighting formulas

A formula runs as a program of a stack machine. Its variables are the ones that have a default
value, in the order of their names; a use of the formula may give some of them other values.
-/

namespace Concordance

open Formula

/-- A weighting formula with default values of its variables. -/
structure Formula where
  source : String
  program : List Instruction
  defaults : SortedMap String Double

namespace Formula

instance : Inhabited Formula := ⟨⟨"", [], ∅⟩⟩

/-- Compiles a formula; the variables are those that have a default value. -/
def compile (source : String) (defaults : SortedMap String Double) : Except SourceFault Formula := do
  return ⟨source, ← compileSource defaults.keys source, defaults⟩

/-- The names of the variables, ascending. -/
def variableNames (f : Formula) : List String := f.defaults.keys

/-- The argument that an instruction refers to. -/
def Instruction.argument? : Instruction → Option Nat
  | argument index => some index
  | _ => none

/-- One more than the greatest argument referred to, 0 if there is none. -/
def arity (f : Formula) : Nat :=
  (f.program.filterMap Instruction.argument?).foldl (fun n index => max n (index + 1)) 0

/-- The values of the variables, some of them given and the rest at their defaults. -/
def bind (f : Formula) (given : SortedMap String Double) : Except Error (List Double) :=
  match given.keys.find? fun name => !f.defaults.contains name with
  | some name => .error (.config s!"unknown weighting formula variable '{name}'")
  | none => .ok (f.defaults.toList.map fun (name, value) => given.getD name value)

def evaluate (f : Formula) (arguments values : List Double) : Except Error Double :=
  (execute f.program arguments values).mapError (EvaluationFault.toError f.source)

end Formula

end Concordance
