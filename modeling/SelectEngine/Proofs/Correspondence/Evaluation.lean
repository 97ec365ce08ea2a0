import SelectEngine.Proofs.Evaluation
import SelectEngine.Proofs.Run

/-!
# Computations in two monads

Binding and evaluation ask for columns through an interface whose answers come in a monad that can
fail. A `Correspondence` is a relation between the computations of two such monads that returning,
sequencing and failing keep, so that whatever is built of these corresponds once the answers do. So
evaluation corresponds to evaluation (`Correspondence.eval`).

The instance that is used most is `Correspondence.atRest`: a computation over live sources reads
the same as one over data at rest, and leaves the sources as they are.
-/

set_option autoImplicit false

namespace SelectEngine

/-- A relation between the computations of two monads that returning, sequencing and failing
keep. -/
structure Correspondence (m n : Type → Type) [Monad m] [MonadExceptOf Error m] [Monad n]
    [MonadExceptOf Error n] where
  rel : {α : Type} → m α → n α → Prop
  returning : ∀ {α : Type} (a : α), rel (pure a) (pure a)
  sequencing : ∀ {α β : Type} {x : m α} {y : n α} {f : α → m β} {g : α → n β},
    rel x y → (∀ a, rel (f a) (g a)) → rel (x >>= f) (y >>= g)
  failing : ∀ {α : Type} (e : Error), rel (throw e : m α) (throw e : n α)

namespace Correspondence

variable {m n : Type → Type} [Monad m] [MonadExceptOf Error m] [Monad n] [MonadExceptOf Error n]
variable {s ρ α : Type}

/-- At `state` a computation has the given outcome and ends in the same state. -/
def atRest (state : s) : Correspondence (Run s) (Except Error) where
  rel x y := x state = (relay y : Run s _) state
  returning _ := rfl
  failing _ := rfl
  sequencing {_ _ x y f g} hx hf := by
    cases y with
    | ok a =>
      rw [Run.bind_of_ok (hx.trans (Run.relay_ok a state))]
      exact hf a
    | error e => exact Run.bind_of_error (hx.trans (Run.relay_error e state))

/-- The same relation between computations that also carry a state of their own. -/
def withState (C : Correspondence m n) (ρ : Type) : Correspondence (StateT ρ m) (StateT ρ n) where
  rel x y := ∀ r, C.rel (x.run r) (y.run r)
  returning a r := C.returning (a, r)
  failing e r := C.sequencing (C.failing e) fun a => C.returning (a, r)
  sequencing hx hf r := C.sequencing (hx r) fun (a, r) => hf a r

theorem relay (C : Correspondence m n) (x : Except Error α) :
    C.rel (SelectEngine.relay x) (SelectEngine.relay x) := by
  cases x with
  | ok a => exact C.returning a
  | error e => exact C.failing e

theorem lift (C : Correspondence m n) {x : m α} {y : n α} (h : C.rel x y) :
    (C.withState ρ).rel (liftM x) (liftM y) :=
  fun r => C.sequencing h fun a => C.returning (a, r)

theorem modify (C : Correspondence m n) (f : ρ → ρ) :
    (C.withState ρ).rel (modify f) (modify f) :=
  fun r => C.returning ((), f r)

theorem get (C : Correspondence m n) : (C.withState ρ).rel get get :=
  fun r => C.returning (r, r)

theorem set (C : Correspondence m n) (r : ρ) : (C.withState ρ).rel (set r) (set r) :=
  fun _ => C.returning ((), r)

/-- Two environments with the same parameters and settings whose columns correspond. -/
structure Environments (C : Correspondence m n) (env : Environment m) (env' : Environment n) :
    Prop where
  column : ∀ source position, C.rel (env.column source position) (env'.column source position)
  params : env.params = env'.params
  nulls : env.nulls = env'.nulls
  maxDepth : env.maxDepth = env'.maxDepth

/-- Two environments with the same parameters and the same depth limit whose columns and operators
correspond. -/
structure Operators (C : Correspondence m n) (env : Environment m) (env' : Environment n) :
    Prop where
  column : ∀ source position, C.rel (env.column source position) (env'.column source position)
  apply : ∀ (op : Operator) (operands : List Value),
    C.rel (SelectEngine.relay (op.apply env.nulls operands))
      (SelectEngine.relay (op.apply env'.nulls operands))
  params : env.params = env'.params
  maxDepth : env.maxDepth = env'.maxDepth

variable {C : Correspondence m n} {env : Environment m} {env' : Environment n}

mutual

/-- An expression evaluates alike where columns and operators correspond. -/
theorem eval_of_operators (h : Operators C env env') (depth : Nat) :
    ∀ e : Bound, C.rel (e.eval env depth) (e.eval env' depth)
  | .literal reading => C.relay reading
  | .param ordinal => by
    simp only [Bound.eval, h.params]
    exact C.returning _
  | .column ref => h.column ref.source ref.position
  | .call function args => by
    simp only [Bound.eval]
    exact C.sequencing (evalAll_of_operators h depth args) fun values =>
      C.relay (function.invoke values)
  | .operation op operands => by
    simp only [Bound.eval]
    split
    · exact C.sequencing (evalAll_of_operators h depth operands) (h.apply op)
    · exact C.failing _
  | .unbound missing args => C.failing _
  | .other kind => C.failing _

theorem evalAll_of_operators (h : Operators C env env') (depth : Nat) :
    ∀ es : List Bound, C.rel (Bound.evalAll env depth es) (Bound.evalAll env' depth es)
  | [] => C.returning []
  | e :: es => by
    simp only [Bound.evalAll, h.maxDepth]
    have rest : C.rel
        (do let v ← e.eval env (depth + 1); let vs ← Bound.evalAll env depth es; pure (v :: vs))
        (do
          let v ← e.eval env' (depth + 1)
          let vs ← Bound.evalAll env' depth es
          pure (v :: vs)) :=
      C.sequencing (eval_of_operators h (depth + 1) e) fun v =>
        C.sequencing (evalAll_of_operators h depth es) fun vs => C.returning (v :: vs)
    split
    · exact C.sequencing (C.failing _) fun _ => rest
    · exact rest

end

/-- Operators that handle nulls alike give the same results. -/
theorem Environments.operators (h : Environments C env env') : Operators C env env' where
  column := h.column
  apply op operands := by
    rw [h.nulls]
    exact C.relay _
  params := h.params
  maxDepth := h.maxDepth

/-- An expression evaluates alike in corresponding environments. -/
theorem eval (h : Environments C env env') (depth : Nat) (e : Bound) :
    C.rel (e.eval env depth) (e.eval env' depth) :=
  eval_of_operators h.operators depth e

end Correspondence

end SelectEngine
