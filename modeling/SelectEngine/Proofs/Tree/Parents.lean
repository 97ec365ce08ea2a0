import Mathlib.Data.List.Nodup
import Mathlib.Data.List.Pairwise
import Mathlib.Data.List.Perm.Basic
import Mathlib.Data.List.Perm.Subperm
import SelectEngine.Proofs.Tree.Covered

/-!
# Every node has one parent

The layout of a statement has as many nodes as it takes numbers, so that the walk down from its root
meets every number once (`Tree.preorder_perm_range`). In any tree, what such a walk meets is its
start and the children of all nodes that it meets (`Tree.preorder_perm_children`). Hence no node of
a statement is left out and none is shared: all but the root are the child of one node, once
(`Tree.child_of_one`).
-/

set_option autoImplicit false

namespace SelectEngine

/-! ## The number of nodes of a layout -/

namespace Branch

theorem length_preorders_branchesFrom {α : Type} {size : α → Nat} {branch : Nat → α → Branch}
    (h : ∀ n a, (branch n a).preorder.length = size a) (n : Nat) (as : List α) :
    (preorders (branchesFrom size branch n as)).length = (as.map size).sum := by
  induction as generalizing n with
  | nil => rfl
  | cons a as ih =>
    rw [branchesFrom, preorders, List.length_append, h, ih, List.map_cons, List.sum_cons]

theorem length_preorders_partBranches (n : Nat) (parts : List TokenId) :
    (preorders (partBranches n parts)).length = parts.length := by
  have hleaf (m : Nat) (part : TokenId) :
      (node m (.id part) []).preorder.length = (fun _ => 1) part := rfl
  rw [partBranches, length_preorders_branchesFrom hleaf, List.map_const', List.sum_replicate_nat,
    Nat.mul_one]

theorem length_preorders_keywordBranches (n : Nat) (naming : Naming TokenId) :
    (preorders (naming.keywordBranches n)).length = naming.keywordSize := by
  obtain ⟨_ | keyword, name⟩ := naming <;> rfl

end Branch

open Branch

mutual

theorem Expr.length_preorder_branch : ∀ (n : Nat) (e : Expr TokenId),
    (e.branch n).preorder.length = e.size
  | _, .text _ | _, .number _ | _, .null _ | _, .param _ => rfl
  | n, .name parts => congrArg (· + 1) (length_preorders_partBranches n parts)
  | n, .call function args => by
    have hargs := Expr.length_preorders_branches (n + 1) args
    simp only [Expr.branch, preorder, preorders, Expr.size, List.length_cons, List.length_append,
      List.length_nil, hargs]
  | n, .unary op operand => by
    have hoperand := Expr.length_preorder_branch n operand
    simp only [Expr.branch, preorder, preorders, Expr.size, List.length_cons, List.length_append,
      List.length_nil, hoperand, Nat.add_zero]
  | n, .binary op left right => by
    have hleft := Expr.length_preorder_branch n left
    have hright := Expr.length_preorder_branch (n + left.size) right
    simp only [Expr.branch, preorder, preorders, Expr.size, List.length_cons, List.length_append,
      List.length_nil, hleft, hright, Nat.add_zero]

theorem Expr.length_preorders_branches : ∀ (n : Nat) (es : List (Expr TokenId)),
    (preorders (Expr.branches n es)).length = Expr.sizes es
  | _, [] => rfl
  | n, e :: es => by
    have hfirst := Expr.length_preorder_branch n e
    have hrest := Expr.length_preorders_branches (n + e.size) es
    rw [Expr.branches, preorders, List.length_append, hfirst, hrest, Expr.sizes]

end

theorem Attribute.length_preorder_branch (n : Nat) : ∀ a : Attribute TokenId,
    (a.branch n).preorder.length = a.size
  | .star _ => rfl
  | .starOf parts _ => by
    simp only [Attribute.branch, preorder, preorders, Attribute.size, List.length_cons,
      List.length_append, List.length_nil, length_preorders_partBranches]
  | .value e none => e.length_preorder_branch n
  | .value e (some naming) => by
    have hvalue := e.length_preorder_branch n
    simp only [Attribute.branch, preorder, preorders, preorders_append, Attribute.size,
      List.length_cons, List.length_append, List.length_nil, length_preorders_keywordBranches,
      hvalue]
    omega

theorem FromItem.length_preorder_branch (n : Nat) (s : FromItem TokenId) :
    (s.branch n).preorder.length = s.size := by
  obtain ⟨parts, _ | naming⟩ := s
  · exact congrArg (· + 1) (length_preorders_partBranches n parts)
  · simp only [FromItem.branch, preorder, preorders, preorders_append, FromItem.size,
      List.length_cons, List.length_append, List.length_nil, length_preorders_partBranches,
      length_preorders_keywordBranches]
    omega

theorem length_preorders_restrictionBranches (n : Nat) (r : Option (Restriction TokenId)) :
    (preorders (restrictionBranches n r)).length = restrictionSize r := by
  cases r with
  | none => rfl
  | some r =>
    have hcondition := r.condition.length_preorder_branch (n + 1)
    simp only [restrictionBranches, preorder, preorders, restrictionSize, List.length_cons,
      List.length_append, List.length_nil, hcondition]
    omega

theorem Statement.length_preorder_branch (n : Nat) (s : Statement TokenId) :
    (s.branch n).preorder.length = s.size := by
  have hlist (m : Nat) : (s.listBranch m).preorder.length = s.attributesSize + 1 :=
    congrArg (· + 1)
      (length_preorders_branchesFrom Attribute.length_preorder_branch m s.attributes)
  have hsources (m : Nat) :
      (preorders (branchesFrom FromItem.size FromItem.branch m s.sources)).length = s.sourcesSize :=
    length_preorders_branchesFrom FromItem.length_preorder_branch m s.sources
  have hfrom (m : Nat) : (s.fromBranch m).preorder.length = 1 + s.sourcesSize + 1 := by
    simp only [Statement.fromBranch, preorder, preorders, List.length_cons, List.length_append,
      List.length_nil, hsources]
  simp only [Statement.branch, preorder, preorders, Statement.size, List.length_cons,
    List.length_append, List.length_nil, hlist, hfrom, length_preorders_restrictionBranches]

/-- A branch that covers as many numbers as it has nodes has each of them once. -/
theorem Branch.Covers.perm {b : Branch} {n size : Nat} (h : b.Covers n size)
    (hlength : b.preorder.length = size) : (List.range' n size).Perm b.preorder := by
  have hsub : (List.range' n size) ⊆ b.preorder := by
    intro id hid
    obtain ⟨hleast, hless⟩ := List.mem_range'_1.mp hid
    exact h id hleast hless
  refine ((List.nodup_range').subperm hsub).perm_of_length_le ?_
  rw [hlength, List.length_range']

/-! ## Children and parents -/

namespace Tree

theorem preorders_map_branch (t : Tree) (ids : List NodeId) :
    preorders (ids.map t.branch) = ids.flatMap fun id => (t.branch id).preorder := by
  induction ids with
  | nil => rfl
  | cons id ids ih => rw [List.map_cons, preorders, ih, List.flatMap_cons]

/-- What is met on the way down from a node is the node and the children of all that are met. -/
theorem preorder_perm_children (t : Tree) (id : NodeId) :
    (t.branch id).preorder.Perm (id :: (t.branch id).preorder.flatMap t.children) := by
  -- The children are met below the node, and then below each child what is below it.
  have hbelow : ∀ c ∈ t.children id,
      (t.branch c).preorder.Perm (c :: (t.branch c).preorder.flatMap t.children) := fun c hc =>
    have := lt_of_mem_children hc
    preorder_perm_children t c
  have hwalk : (t.branch id).preorder =
      id :: (t.children id).flatMap fun c => (t.branch c).preorder := by
    rw [branch_eq, preorder, preorders_map_branch]
  rw [hwalk, List.flatMap_cons, List.flatMap_assoc]
  refine List.Perm.cons id ?_
  refine ((List.Perm.refl _).flatMap hbelow).trans ?_
  have hsplit := List.flatMap_append_perm (t.children id) (fun c => [c])
    fun c => (t.branch c).preorder.flatMap t.children
  rw [List.flatMap_singleton'] at hsplit
  exact hsplit.symm
termination_by id

/-- The walk down from the root of a statement meets every node once. -/
theorem preorder_perm_range (source : String) (tokens : Array Token) (s : Statement TokenId) :
    (List.range (s.size + 1)).Perm ((ofStatement source tokens s).branch s.size).preorder := by
  obtain ⟨-, -, -, -, hbranch⟩ := branch_ofStatement source tokens s
  have hcovers : (Branch.node (0 + s.size) .root [s.branch 0]).Covers 0 (s.size + 1) :=
    (s.covers_branch 0).singleton.node .root
  rw [Nat.zero_add] at hcovers
  rw [hbranch, List.range_eq_range']
  refine hcovers.perm ?_
  simp only [preorder, preorders, List.length_cons, List.append_nil, s.length_preorder_branch 0]

/-- Where the walk down from a node meets every node once, every other node is the child of one
node, and once. -/
theorem child_of_one {t : Tree} {root : NodeId}
    (h : (List.range t.nodes.size).Perm (t.branch root).preorder) {id : NodeId}
    (hid : id < t.nodes.size) (hne : id ≠ root) :
    ∃ p < t.nodes.size, id < p ∧ (t.children p).count id = 1 ∧ ∀ q, id ∈ t.children q → q = p := by
  have hperm : (List.range t.nodes.size).Perm
      (root :: (List.range t.nodes.size).flatMap t.children) :=
    h.trans ((t.preorder_perm_children root).trans ((h.symm.flatMap_right t.children).cons root))
  have hnodup := (hperm.nodup_iff.mp List.nodup_range).of_cons
  obtain ⟨hchildren, hdisjoint⟩ := List.nodup_flatMap.mp hnodup
  -- A node with children is one of the tree.
  have hrange : ∀ q, id ∈ t.children q → q ∈ List.range t.nodes.size := by
    intro q hq
    refine List.mem_range.mpr (Nat.lt_of_not_le fun hge => ?_)
    rw [children, Array.getElem?_eq_none hge] at hq
    cases hq
  have hmem : id ∈ (List.range t.nodes.size).flatMap t.children := by
    rcases List.mem_cons.mp (hperm.mem_iff.mp (List.mem_range.mpr hid)) with heq | hmem
    · exact absurd heq hne
    · exact hmem
  obtain ⟨p, hp, hchild⟩ := List.mem_flatMap.mp hmem
  refine ⟨p, List.mem_range.mp hp, lt_of_mem_children hchild,
    List.count_eq_one_of_mem (hchildren p hp) hchild, fun q hq => ?_⟩
  by_contra hdiffer
  have hsymm : Std.Symm (Function.onFun List.Disjoint t.children) :=
    ⟨fun _ _ h => List.disjoint_comm.mp h⟩
  exact hdisjoint.forall (hrange q hq) hp hdiffer hq hchild

end Tree

end SelectEngine
