import SelectEngine.Cursor
import SelectEngine.Proofs.Run

/-!
# Evaluating without a stack

The value of an expression is also found by recursion, without a stack: the value of an operator is
that of its operands' values (`Bound.eval`). A visit to an expression leaves this value on top of
what was on the stack, and nothing else (`Bound.run_visit`); so the stack never runs out, and an
evaluation ends with the value or the failure that the recursion gives (`Bound.value_eq`).
-/

set_option autoImplicit false

namespace SelectEngine

/-- The result of an operator on a list of operands. -/
def Operator.apply (op : Operator) (nulls : NullMode) (operands : List Value) :
    Except Error Value :=
  match operands with
  | [a] => op.applyUnary a nulls
  | [a, b] => op.applyBinary a b nulls
  | _ => .error (op.operandCount operands.length)

namespace Bound

section

variable {m : Type → Type} [Monad m] [MonadExceptOf Error m]

mutual

/-- The value of an expression that is an operand at a depth. -/
def eval (env : Environment m) (depth : Nat) : Bound → m Value
  | literal reading => relay reading
  | param ordinal => pure (env.params.value ordinal)
  | column ref => env.column ref.source ref.position
  | call function args => do
    let values ← evalAll env depth args
    relay (function.invoke values)
  | operation op operands =>
    if operands.length = op.arity then do
      let values ← evalAll env depth operands
      relay (op.apply env.nulls values)
    else throw (op.operandCount operands.length)
  | unbound missing _ => throw missing.error
  | other kind => throw (unhandled kind "Evaluator")

/-- The values of the operands of an expression at a depth, from left to right. -/
def evalAll (env : Environment m) (depth : Nat) : List Bound → m (List Value)
  | [] => pure []
  | b :: bs => do
    if env.maxDepth ≤ depth then throw (.tooDeep env.maxDepth)
    let v ← eval env (depth + 1) b
    let vs ← evalAll env depth bs
    pure (v :: vs)

end

end

end Bound

/-! ## The stack -/

namespace Evaluator

variable {S α β : Type} {env : Environment (Run S)}

/-- The computation finds what `y` gives and leaves the stack as it was. -/
def Finds (x : Evaluator (Run S) α) (y : Run S α) : Prop :=
  ∀ stack, x.run stack = y >>= fun a => pure (a, stack)

/-- The computation leaves the value that `y` gives on top of the stack as it was. -/
def Leaves (x : Evaluator (Run S) Unit) (y : Run S Value) : Prop :=
  ∀ stack, x.run stack = y >>= fun v => pure ((), v :: stack)

theorem finds_pure (a : α) : Finds (pure a) (pure a : Run S α) := fun _ => rfl

theorem finds_throw (e : Error) : Finds (throw e) (throw e : Run S α) := fun _ => rfl

theorem finds_lift (x : Run S α) : Finds (liftM x) x := fun _ => rfl

theorem finds_relay (x : Except Error α) : Finds (relay x) (relay x : Run S α) := by
  cases x with
  | ok a => exact finds_pure a
  | error e => exact finds_throw e

theorem finds_bind {x : Evaluator (Run S) α} {y : Run S α} {f : α → Evaluator (Run S) β}
    {g : α → Run S β} (hx : Finds x y) (hf : ∀ a, Finds (f a) (g a)) :
    Finds (x >>= f) (y >>= g) := by
  intro stack
  rw [StateT.run_bind, hx, bind_assoc, bind_assoc]
  congr 1
  funext a
  rw [pure_bind]
  exact hf a stack

/-- What is found and then left is left. -/
theorem leaves_push {x : Evaluator (Run S) Value} {y : Run S Value} (hx : Finds x y) :
    Leaves (x >>= fun v => push v) y := by
  intro stack
  rw [StateT.run_bind, hx, bind_assoc]
  congr 1

theorem leaves_throw (e : Error) : Leaves (throw e) (throw e : Run S Value) := fun _ => rfl

/-- What a visit leaves is taken off the stack again. -/
theorem finds_operand {depth : Nat} {visit : Evaluator (Run S) Unit} {y : Run S Value}
    (h : Leaves visit y) :
    Finds (operand env depth visit)
      (if env.maxDepth ≤ depth then throw (.tooDeep env.maxDepth) else y) := by
  intro stack
  unfold operand
  split
  · rfl
  · simp [h stack, pop]

end Evaluator

namespace Bound

open Evaluator

variable {S : Type} {env : Environment (Run S)}

/-- The value of an operand at a depth, unless that is too deep. -/
def evalOperand (env : Environment (Run S)) (depth : Nat) (b : Bound) : Run S Value :=
  if env.maxDepth ≤ depth then throw (.tooDeep env.maxDepth) else b.eval env (depth + 1)

theorem evalAll_cons (depth : Nat) (b : Bound) (bs : List Bound) :
    evalAll env depth (b :: bs) =
      evalOperand env depth b >>= fun v => evalAll env depth bs >>= fun vs => pure (v :: vs) := by
  rw [evalAll, evalOperand]
  split <;> rfl

theorem length_visits (bs : List Bound) {depth : Nat} :
    (visits env depth bs).length = bs.length := by
  induction bs with
  | nil => rfl
  | cons b bs ih => rw [visits, List.length_cons, List.length_cons, ih]

/-- What is found by visits to operands that leave their values. -/
theorem finds_inOrder {depth : Nat} {bs : List Bound}
    (h : ∀ b ∈ bs, Finds (operand env depth (b.visit env (depth + 1))) (evalOperand env depth b)) :
    Finds (inOrder (visits env depth bs)) (evalAll env depth bs) := by
  induction bs with
  | nil => exact finds_pure []
  | cons b bs ih =>
    obtain ⟨hb, hbs⟩ := List.forall_mem_cons.mp h
    rw [visits, inOrder, evalAll_cons]
    exact finds_bind hb fun v => finds_bind (ih hbs) fun vs => finds_pure _

/-- An operator is given its operands one by one, and by the recursion all at once. -/
theorem finds_result {op : Operator} {depth : Nat} {bs : List Bound}
    (h : ∀ b ∈ bs, Finds (operand env depth (b.visit env (depth + 1))) (evalOperand env depth b)) :
    Finds (result env op (visits env depth bs)) ((operation op bs).eval env depth) := by
  rw [eval, Operator.arity]
  -- An operator with a number of operands that it does not take is refused before any of them is
  -- visited.
  rcases bs with _ | ⟨a, _ | ⟨b, _ | ⟨c, rest⟩⟩⟩
  · rw [if_neg (by split <;> decide)]
    exact finds_throw _
  · rw [evalAll_cons, evalAll]
    cases hunary : op.isUnary with
    | false =>
      rw [visits, visits, result, hunary]
      exact finds_throw _
    | true =>
      rw [visits, visits, result, hunary]
      simp only [if_true, List.length_singleton, bind_assoc, pure_bind]
      exact finds_bind (h a List.mem_cons_self) fun v => finds_relay _
  · rw [evalAll_cons, evalAll_cons, evalAll]
    cases hunary : op.isUnary with
    | true =>
      rw [visits, visits, visits, result, hunary]
      exact finds_throw _
    | false =>
      rw [visits, visits, visits, result, hunary]
      simp only [List.length_cons, List.length_nil, Bool.false_eq_true, if_false, bind_assoc,
        pure_bind]
      exact finds_bind (h a List.mem_cons_self) fun v =>
        finds_bind (h b (List.mem_cons_of_mem _ List.mem_cons_self)) fun w => finds_relay _
  · rw [if_neg (by simp only [List.length_cons]; split <;> omega)]
    rw [← length_visits (a :: b :: c :: rest)]
    exact finds_throw _

mutual

/-- The induction is on the expression: each operand finds the stack as it was before the operator,
since those before it have been taken. -/
theorem leaves_visit (depth : Nat) : ∀ e : Bound, Leaves (e.visit env depth) (e.eval env depth)
  | literal reading => leaves_push (finds_relay reading)
  | param ordinal => leaves_push (finds_pure _)
  | column ref => leaves_push (finds_lift _)
  | call function args => by
    rw [visit, eval, ← bind_assoc]
    exact leaves_push (finds_bind (finds_inOrder (finds_operands depth args)) fun values =>
      finds_relay _)
  | operation op operands => by
    rw [visit]
    exact leaves_push (finds_result (finds_operands depth operands))
  | unbound missing _ => leaves_throw _
  | other kind => leaves_throw _

theorem finds_operands (depth : Nat) : ∀ bs : List Bound, ∀ b ∈ bs,
    Finds (operand env depth (b.visit env (depth + 1))) (evalOperand env depth b)
  | [] => nofun
  | b :: bs => List.forall_mem_cons.mpr
      ⟨finds_operand (leaves_visit (depth + 1) b), finds_operands depth bs⟩

end

/-- An expression has the value that the recursion gives. -/
theorem value_eq (e : Bound) : e.value env = e.eval env 0 := by
  rw [value, StateT.run_bind, leaves_visit 0 e, bind_assoc, bind_assoc]
  exact bind_pure _

end Bound

namespace Cursor

variable {σ γ : Type}

/-- The cursor evaluates an expression as the recursion does. -/
theorem evaluate_eq (B : Backend σ γ) (e : Bound) :
    evaluate B e = get >>= fun c => onSession (e.eval (c.environment B) 0) := by
  simp only [evaluate, Bound.value_eq]

end Cursor

end SelectEngine
