import SelectEngine.Plan.Scope

/-!
# Resolving an expression

`Resolver.resolve` walks over an expression and finds the column of every name and the function of
every call. What is below a node that is neither is walked over as well, so that no name escapes.
An operator or a call that has as many operators and calls around it as the limit allows is refused
before anything below it is looked at.
-/

set_option autoImplicit false

namespace SelectEngine

/-- What names and calls were found to mean, by node, the latest first. -/
structure Resolution where
  columns : List (NodeId × ColumnRef)
  calls : List (NodeId × Function)

namespace Resolution

/-- Nothing resolved. -/
def empty : Resolution := ⟨[], []⟩

/-- The column of a name. -/
def column? (r : Resolution) (id : NodeId) : Option ColumnRef := r.columns.lookup id

/-- The function of a call. -/
def function? (r : Resolution) (id : NodeId) : Option Function := r.calls.lookup id

/-- Records the column of a name. -/
def addColumn (r : Resolution) (id : NodeId) (ref : ColumnRef) : Resolution :=
  { r with columns := (id, ref) :: r.columns }

/-- Records the function of a call. -/
def addCall (r : Resolution) (id : NodeId) (function : Function) : Resolution :=
  { r with calls := (id, function) :: r.calls }

end Resolution

/-- The number of a parameter, counted from one, if it is one of the given ones. -/
def ordinalAmong (params : List NodeId) (id : NodeId) : Option Nat :=
  (params.idxOf? id).map fun n => n + 1

namespace Resolution

mutual

/-- The expression of a branch, read off what its names and calls were found to mean. -/
def expression (r : Resolution) (tree : Tree) (params : List NodeId) : Branch → Bound
  | .node id kind children =>
    match kind with
    | .name =>
      match r.column? id with
      | some ref => .column ref
      | none => .unbound (.column (".".intercalate (tree.nameParts id))) []
    | .call =>
      let args := (r.expressions tree params children).tail
      match r.function? id with
      | some function => .call function args
      | none => .unbound .function args
    | .operation op => .operation op (r.expressions tree params children)
    | .param _ =>
      match ordinalAmong params id with
      | some ordinal => .param ordinal
      | none => .unbound .ordinal []
    | .text _ | .number _ | .null _ =>
      .literal ((tree.constant? id).map fun v => v.getD .null)
    | _ => .other kind

/-- The expressions of several branches in order. -/
def expressions (r : Resolution) (tree : Tree) (params : List NodeId) : List Branch → List Bound
  | [] => []
  | b :: bs => r.expression tree params b :: r.expressions tree params bs

end

end Resolution

/-- What expressions are resolved against. -/
structure Resolver (m : Type → Type) where
  tree : Tree
  scope : Scope m
  registry : Registry
  /-- The parameters of the statement in the order of the text. -/
  params : List NodeId
  /-- The most operators and calls that may stand around one another. -/
  maxDepth : Nat

namespace Resolver

variable {m : Type → Type} [Monad m] [MonadExceptOf Error m]

/-- The number of a parameter, counted from one. -/
def ordinal (r : Resolver m) (id : NodeId) : Nat := r.params.idxOf id + 1

/-- The number of a parameter, or the failure of one that is not among those of the statement. -/
def numbered (r : Resolver m) (id : NodeId) : m Nat :=
  match ordinalAmong r.params id with
  | some ordinal => pure ordinal
  | none => throw Missing.ordinal.error

/-- Refuses a node with `depth` operators and calls around it if that is too deep. -/
def guardDepth (r : Resolver m) (depth : Nat) : m Unit :=
  if r.maxDepth ≤ depth then throw (.tooDeep r.maxDepth) else pure ()

/-- The function that a call means. -/
def function (r : Resolver m) (children : List Branch) : m Function :=
  match children.head?.bind fun c => r.tree.tokenText? c.id with
  | none => throw (.internal "function call without a name")
  | some name =>
    let args := children.length - 1
    match r.registry.forCall? name args with
    | some f => pure f
    | none => throw (.noSuchFunction name args)

mutual

/-- The expression of a branch with `depth` operators and calls around it. -/
def resolve (r : Resolver m) (depth : Nat) : Branch → StateT Resolution m Bound
  | .node id kind children =>
    match kind with
    | .name => do
      let ref ← r.scope.column (r.tree.nameParts id)
      modify fun found => found.addColumn id ref
      pure (.column ref)
    | .call => do
      let function ← r.function children
      modify fun found => found.addCall id function
      r.guardDepth depth
      let parts ← r.resolveAll (depth + 1) children
      pure (.call function parts.tail)
    | .operation op => do
      r.guardDepth depth
      let operands ← r.resolveAll (depth + 1) children
      pure (.operation op operands)
    | .param _ => do
      let _ ← r.resolveAll depth children
      pure (.param (r.ordinal id))
    | .text _ | .number _ | .null _ => do
      let _ ← r.resolveAll depth children
      pure (.literal ((r.tree.constant? id).map fun v => v.getD .null))
    | _ => do
      let _ ← r.resolveAll depth children
      pure (.other kind)

/-- The expressions of several branches in order. -/
def resolveAll (r : Resolver m) (depth : Nat) : List Branch → StateT Resolution m (List Bound)
  | [] => pure []
  | b :: bs => do
    let e ← r.resolve depth b
    let es ← r.resolveAll depth bs
    pure (e :: es)

end

/-- A whole expression and the type of its value. -/
def typed (r : Resolver m) (b : Branch) : StateT Resolution m (Bound × DataType) := do
  let e ← r.resolve 0 b
  let t ← relay e.type
  pure (e, t)

end Resolver

end SelectEngine
