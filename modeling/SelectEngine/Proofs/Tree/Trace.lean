import SelectEngine.Tree.Visit

/-!
# Traces of walks

What a trace says apart from the pass that leaves it. The two hooks run in nested pairs (`Nested`)
where they follow the way around a branch (`Branch.tour`), and this enters the nodes in pre-order.
After a failure nothing is entered any more: all that follows is that nodes are left
(`Moment.Outcome`).
-/

set_option autoImplicit false

namespace SelectEngine

namespace Moment

/-- One of the hooks runs. -/
def isHook : Moment → Bool
  | enter _ | leave _ => true
  | handle _ | fail _ _ => false

/-- The node that is entered. -/
def entered? : Moment → Option NodeId
  | enter id => some id
  | handle _ | fail _ _ | leave _ => none

/-- The pass fails. -/
def isFailure : Moment → Bool
  | fail _ _ => true
  | enter _ | handle _ | leave _ => false

/-- Nothing fails on a way that ends well. On one that does not, the first failure is that of the
result, and all that follows it is that nodes are left. -/
def Outcome (trace : List Moment) : Except Error Unit → Prop
  | .ok () => ∀ m ∈ trace, m.isFailure = false
  | .error e => ∃ (front : List Moment) (id : NodeId) (left : List NodeId),
      (∀ m ∈ front, m.isFailure = false) ∧ trace = front ++ fail id e :: left.map leave

namespace Outcome

variable {front rest : List Moment} {r : Except Error Unit} {e : Error}

theorem append (hfront : ∀ m ∈ front, m.isFailure = false) (h : Outcome rest r) :
    Outcome (front ++ rest) r := by
  cases r with
  | ok => exact List.forall_mem_append.mpr ⟨hfront, h⟩
  | error e =>
    obtain ⟨before, id, left, hbefore, rfl⟩ := h
    exact ⟨front ++ before, id, left, List.forall_mem_append.mpr ⟨hfront, hbefore⟩,
      (List.append_assoc _ _ _).symm⟩

/-- After a failure the nodes around it are left. -/
theorem leave (h : Outcome rest (.error e)) (id : NodeId) :
    Outcome (rest ++ [Moment.leave id]) (.error e) := by
  obtain ⟨before, at_, left, hbefore, rfl⟩ := h
  refine ⟨before, at_, left ++ [id], hbefore, ?_⟩
  rw [List.append_assoc, List.cons_append, List.map_append]
  rfl

end Outcome

end Moment

namespace Walk

variable {σ : Type}

/-- The runs of the hooks, in order. -/
def hooks (w : Walk σ) : List Moment := w.trace.filter Moment.isHook

/-- The nodes that are entered, in order. -/
def entered (w : Walk σ) : List NodeId := w.trace.filterMap Moment.entered?

/-- A node is entered by a hook. -/
theorem entered_eq (w : Walk σ) : w.entered = w.hooks.filterMap Moment.entered? := by
  rw [hooks, List.filterMap_filter]
  refine congrArg (w.trace.filterMap ·) (funext fun m => ?_)
  cases m <;> rfl

theorem andThen_of_ok {w : Walk σ} (next : σ → Walk σ) (h : w.result = .ok ()) :
    (w.andThen next).trace = w.trace ++ (next w.state).trace ∧
      (w.andThen next).result = (next w.state).result := by
  simp only [andThen, h, and_self]

theorem andThen_of_error {w : Walk σ} (next : σ → Walk σ) {e : Error} (h : w.result = .error e) :
    w.andThen next = w := by
  simp only [andThen, h]

end Walk

/-- Pairs of hooks, the two of one pair for the same node, one pair inside the other or behind it. -/
inductive Nested : List Moment → Prop
  | nil : Nested []
  | pair {id : NodeId} {inside rest : List Moment} (hinside : Nested inside)
      (hrest : Nested rest) : Nested (.enter id :: (inside ++ .leave id :: rest))

namespace Branch

mutual

/-- The way around a branch: a node is left after all below it. -/
def tour : Branch → List Moment
  | node id _ children => .enter id :: (tours children ++ [.leave id])

/-- The way around several branches, one after the other. -/
def tours : List Branch → List Moment
  | [] => []
  | b :: bs => b.tour ++ tours bs

end

theorem tours_cons (id : NodeId) (kind : NodeKind) (children bs : List Branch) :
    tours (node id kind children :: bs) =
      .enter id :: (tours children ++ .leave id :: tours bs) := by
  rw [tours, tour, List.cons_append, List.append_assoc, List.singleton_append]

theorem preorders_cons (id : NodeId) (kind : NodeKind) (children bs : List Branch) :
    preorders (node id kind children :: bs) = id :: (preorders children ++ preorders bs) := by
  rw [preorders, preorder, List.cons_append]

theorem nested_tours : ∀ bs : List Branch, Nested (tours bs)
  | [] => .nil
  | node id kind children :: bs => by
    rw [tours_cons]
    exact .pair (nested_tours children) (nested_tours bs)

/-- The way around enters the nodes in pre-order. -/
theorem entered_tours : ∀ bs : List Branch, (tours bs).filterMap Moment.entered? = preorders bs
  | [] => rfl
  | node id kind children :: bs => by
    rw [tours_cons, preorders_cons, ← entered_tours children, ← entered_tours bs,
      List.filterMap_cons, List.filterMap_append, List.filterMap_cons]
    rfl

end Branch

end SelectEngine
