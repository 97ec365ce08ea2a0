import SelectEngine.Operation
import SelectEngine.Params
import SelectEngine.Plan.Bound
import SelectEngine.Tree.Visit

/-!
# Evaluating an expression

The value of a bound expression on a row is found on a stack: a visit to an expression leaves its
value there, and an operator or a call takes the values of its operands, each as soon as the operand
has been visited. Operands are visited from left to right, and the first failure ends the
evaluation. How a column is read is left to the environment, whose answers come in any monad that
can fail: from live providers or from rows at rest.
-/

set_option autoImplicit false

namespace SelectEngine

/-- What the value of an expression depends on: the row, the parameters and the settings. -/
structure Environment (m : Type → Type) where
  /-- The value of a column of a source. -/
  column : (source position : Nat) → m Value
  params : Params
  nulls : NullMode
  /-- The deepest nesting of operands. -/
  maxDepth : Nat

/-- A computation over the values that were found and not yet taken, the last one first. -/
abbrev Evaluator (m : Type → Type) := StateT (List Value) m

variable {m : Type → Type} [Monad m] [MonadExceptOf Error m]

namespace Evaluator

/-- Leaves a value. -/
def push (v : Value) : Evaluator m Unit := modify fun stack => v :: stack

/-- Takes the last value. -/
def pop : Evaluator m Value := do
  match ← get with
  | [] => throw (.internal "evaluator stack underflow")
  | v :: stack => do
    set stack
    pure v

/-- The value of an operand, taken from where a visit to it leaves it. -/
def operand (env : Environment m) (depth : Nat) (visit : Evaluator m Unit) : Evaluator m Value := do
  if env.maxDepth ≤ depth then throw (.tooDeep env.maxDepth)
  visit
  pop

/-- The values of several operands, from left to right. -/
def inOrder : List (Evaluator m Value) → Evaluator m (List Value)
  | [] => pure []
  | operand :: rest => do
    let v ← operand
    let vs ← inOrder rest
    pure (v :: vs)

/-- The result of an operator, given how the values of its operands are found. -/
def result (env : Environment m) (op : Operator) :
    List (Evaluator m Value) → Evaluator m Value
  | [operand] =>
    if op.isUnary then do
      let a ← operand
      relay (op.applyUnary a env.nulls)
    else throw (op.operandCount 1)
  | [left, right] =>
    if op.isUnary then throw (op.operandCount 2)
    else do
      let a ← left
      let b ← right
      relay (op.applyBinary a b env.nulls)
  | operands => throw (op.operandCount operands.length)

/-- The visit to an operator. -/
def visitOperation (env : Environment m) (node : Bound) (operands : List (Evaluator m Value)) :
    Evaluator m Unit :=
  match node with
  | .operation op _ => do
    let v ← result env op operands
    push v
  | _ => throw (.internal "visit_expr on a non-expression node")

end Evaluator

namespace Bound

open Evaluator

mutual

/-- The visit to an expression that is an operand at a depth. -/
def visit (env : Environment m) (depth : Nat) : Bound → Evaluator m Unit
  | literal reading => do
    let v ← relay reading
    push v
  | param ordinal => push (env.params.value ordinal)
  | column ref => do
    let v ← env.column ref.source ref.position
    push v
  | call function args => do
    let values ← inOrder (visits env depth args)
    let v ← relay (function.invoke values)
    push v
  | operation op operands => visitOperation env (operation op operands) (visits env depth operands)
  | unbound missing _ => throw missing.error
  | other kind => throw (unhandled kind "Evaluator")

/-- How the values of the operands of an expression at a depth are found. -/
def visits (env : Environment m) (depth : Nat) : List Bound → List (Evaluator m Value)
  | [] => []
  | b :: bs => operand env depth (visit env (depth + 1) b) :: visits env depth bs

end

/-- The value of a whole expression. -/
def value (env : Environment m) (e : Bound) : m Value := do
  let (v, _) ← (do e.visit env 0; pop : Evaluator m Value).run []
  pure v

end Bound

end SelectEngine
