import SelectEngine.Tree.Branch

/-!
# Walks over a tree

A `Pass` goes over a tree with a state that it may change at every node. It says what to do at a
node: walk on below it, stop there, or fail. Where it says nothing its policy decides: a strict pass
fails, a recursing one walks on. Its two hooks run when a node is entered and when it is left; a
node is left after all below it, on failure as on success.

`Pass.walk` records the moments of a walk with its result. A `Visitor` is a pass that has no state
and no hooks.
-/

set_option autoImplicit false

namespace SelectEngine

/-- What a pass does at a node that it does not handle. -/
inductive Policy where
  /-- It fails. -/
  | strict
  /-- It walks on below the node. -/
  | recurse
deriving DecidableEq

/-- What a pass does at a node that it handles. -/
inductive Action where
  | walk
  | stop
  | fail (e : Error)

/-- How a pass with a state handles a node. -/
structure Handler (σ : Type) where
  /-- What it does at the node. -/
  act : σ → Action × σ
  /-- What it does once it has walked below the node, if that has not failed. -/
  conclude : σ → Except Error Unit × σ

/-- A pass over a tree. -/
structure Pass (σ : Type) where
  /-- Its name in failures. -/
  name : String
  policy : Policy
  /-- What entering a node does to the state. -/
  onEnter : NodeId → NodeKind → σ → σ
  /-- What leaving a node does to the state. -/
  onLeave : NodeId → NodeKind → σ → σ
  /-- How it handles a node, if it does. -/
  handler : NodeId → NodeKind → Option (Handler σ)

/-- A moment of a walk. -/
inductive Moment where
  | enter (id : NodeId)
  | handle (id : NodeId)
  /-- The pass fails at the node, not below it. -/
  | fail (id : NodeId) (e : Error)
  | leave (id : NodeId)

/-- What a walk leaves: its moments, whether it failed, and the state of the pass. -/
structure Walk (σ : Type) where
  trace : List Moment
  result : Except Error Unit
  state : σ

/-- The failure of a pass at a node that it does not handle. -/
def unhandled (kind : NodeKind) (pass : String) : Error :=
  .notImplemented s!"{kind.label} in {pass}"

variable {σ : Type}

namespace Walk

/-- A walk on which nothing is left to do. -/
def done (s : σ) : Walk σ := ⟨[], .ok (), s⟩

/-- A walk that fails at a node. -/
def failed (id : NodeId) (e : Error) (s : σ) : Walk σ := ⟨[.fail id e], .error e, s⟩

/-- One walk and then, unless it failed, another one. -/
def andThen (w : Walk σ) (next : σ → Walk σ) : Walk σ :=
  match w.result with
  | .ok () =>
    let more := next w.state
    ⟨w.trace ++ more.trace, more.result, more.state⟩
  | .error _ => w

end Walk

namespace Handler

/-- The handler's conclusion at a node. -/
def finish (h : Handler σ) (id : NodeId) (s : σ) : Walk σ :=
  match h.conclude s with
  | (.ok (), s) => .done s
  | (.error e, s) => .failed id e s

/-- The handler at a node, given the walk below it. -/
def visit (h : Handler σ) (id : NodeId) (below : σ → Walk σ) (s : σ) : Walk σ :=
  let (action, s) := h.act s
  let rest :=
    match action with
    | .walk => (below s).andThen (h.finish id)
    | .stop => .done s
    | .fail e => .failed id e s
  { rest with trace := .handle id :: rest.trace }

end Handler

namespace Pass

/-- The pass at a node that has been entered, given the walk below it. -/
def visit (p : Pass σ) (id : NodeId) (kind : NodeKind) (below : σ → Walk σ) (s : σ) : Walk σ :=
  match p.handler id kind with
  | some h => h.visit id below s
  | none =>
    match p.policy with
    | .strict => .failed id (unhandled kind p.name) s
    | .recurse => below s

mutual

/-- The walk from a node. -/
def walk (p : Pass σ) : Branch → σ → Walk σ
  | .node id kind children, s =>
    let visit := p.visit id kind (p.walkAll children) (p.onEnter id kind s)
    ⟨.enter id :: (visit.trace ++ [.leave id]), visit.result, p.onLeave id kind visit.state⟩

/-- The walk over several branches in order, up to the first failure. -/
def walkAll (p : Pass σ) : List Branch → σ → Walk σ
  | [], s => .done s
  | b :: bs, s => (p.walk b s).andThen (p.walkAll bs)

end

end Pass

/-- A pass without a state. -/
structure Visitor where
  /-- Its name in failures. -/
  name : String
  policy : Policy
  /-- What it does at a node, if it handles it. -/
  action : NodeId → NodeKind → Option Action

/-- What a visitor sees of a walk. -/
inductive Event where
  | enter (id : NodeId)
  | handle (id : NodeId)
  | leave (id : NodeId)
deriving DecidableEq

/-- A failure is seen in the result only. -/
def Moment.event? : Moment → Option Event
  | enter id => some (.enter id)
  | handle id => some (.handle id)
  | fail _ _ => none
  | leave id => some (.leave id)

namespace Visitor

/-- The visitor as a pass. -/
def pass (v : Visitor) : Pass Unit where
  name := v.name
  policy := v.policy
  onEnter _ _ s := s
  onLeave _ _ s := s
  handler id kind := (v.action id kind).map fun action =>
    ⟨fun s => (action, s), fun s => (.ok (), s)⟩

/-- The walk from a node, and whether it failed. -/
def accept (v : Visitor) (b : Branch) : List Event × Except Error Unit :=
  let walk := v.pass.walk b ()
  (walk.trace.filterMap Moment.event?, walk.result)

end Visitor

end SelectEngine
