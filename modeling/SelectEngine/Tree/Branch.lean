import SelectEngine.Tree.Basic

/-!
# The part of a tree below a node

A `Branch` is a node with all that is below it, unfolded: a node with two parents occurs once below
each. Walks over a tree are recursions on a branch.
-/

set_option autoImplicit false

namespace SelectEngine

/-- A node and what is below it. -/
inductive Branch where
  | node (id : NodeId) (kind : NodeKind) (children : List Branch)

namespace Branch

def id : Branch → NodeId
  | node id _ _ => id

def kind : Branch → NodeKind
  | node _ kind _ => kind

def children : Branch → List Branch
  | node _ _ children => children

/-- The first child of a type. -/
def child? (b : Branch) (type : NodeType) : Option Branch :=
  b.children.find? fun c => c.kind.type = type

mutual

/-- The numbers of the nodes, each before those below it. -/
def preorder : Branch → List NodeId
  | node id _ children => id :: preorders children

/-- The numbers of the nodes of several branches, one branch after the other. -/
def preorders : List Branch → List NodeId
  | [] => []
  | b :: bs => b.preorder ++ preorders bs

end

end Branch

/-- The part of a tree below a node. -/
def Tree.branch (t : Tree) (id : NodeId) : Branch :=
  .node id (t.kind id) ((t.children id).attach.map fun ⟨c, _⟩ => t.branch c)
termination_by id
decreasing_by exact Tree.lt_of_mem_children (by assumption)

end SelectEngine
