import SelectEngine.Proofs.Grammar.Order
import SelectEngine.Proofs.Tree.Layout

/-!
# The leaves of a layout

The leaves of the layout of a statement, from left to right, are the leaves of the statement in the
order of its text (`Statement.leaves_branch`).
-/

set_option autoImplicit false

namespace SelectEngine

/-- The leaf that a node is, if it is one. -/
def NodeKind.leaf? (kind : NodeKind) : Option (Leaf TokenId) :=
  kind.token?.map fun token => (kind.type, token)

namespace Branch

mutual

/-- The leaves of a branch from left to right. -/
def leaves : Branch → List (Leaf TokenId)
  | .node _ kind children => kind.leaf?.toList ++ leavesAll children

def leavesAll : List Branch → List (Leaf TokenId)
  | [] => []
  | b :: bs => b.leaves ++ leavesAll bs

end

theorem leavesAll_append (bs others : List Branch) :
    leavesAll (bs ++ others) = leavesAll bs ++ leavesAll others := by
  induction bs with
  | nil => rfl
  | cons b bs ih => rw [List.cons_append, leavesAll, leavesAll, ih, List.append_assoc]

theorem leavesAll_branchesFrom {α : Type} {size : α → Nat} {branch : Nat → α → Branch}
    {expected : α → List (Leaf TokenId)} (h : ∀ n a, (branch n a).leaves = expected a) (n : Nat)
    (as : List α) : leavesAll (branchesFrom size branch n as) = as.flatMap expected := by
  induction as generalizing n with
  | nil => rfl
  | cons a as ih => rw [branchesFrom, leavesAll, h, ih, List.flatMap_cons]

theorem leavesAll_partBranches (n : Nat) (parts : List TokenId) :
    leavesAll (partBranches n parts) = partLeaves parts := by
  have hpart (n : Nat) (part : TokenId) : (node n (.id part) []).leaves = [(.id, part)] := rfl
  rw [partBranches, leavesAll_branchesFrom hpart, partLeaves, List.map_eq_flatMap]

/-- What is named, the keyword if it is written and the name. -/
theorem leaves_renamed (id k n : Nat) (named : Branch) (naming : Naming TokenId) :
    (node id .renamed (named :: (naming.keywordBranches k ++
      [.node n (.id naming.name) []]))).leaves = named.leaves ++ naming.leaves := by
  have hkeyword : leavesAll (naming.keywordBranches k) =
      (naming.keyword.map fun keyword => (NodeType.token, keyword)).toList := by
    obtain ⟨_ | keyword, name⟩ := naming <;> rfl
  rw [leaves, leavesAll, leavesAll_append, hkeyword]
  rfl

end Branch

open Branch

mutual

theorem Expr.leaves_branch : ∀ (n : Nat) (e : Expr TokenId), (e.branch n).leaves = e.leaves
  | _, .text _ | _, .number _ | _, .null _ | _, .param _ => rfl
  | n, .name parts => leavesAll_partBranches n parts
  | n, .call function args => congrArg ((NodeType.id, function) :: ·)
      (Expr.leavesAll_branches (n + 1) args)
  | n, .unary op operand => by
    rw [Expr.branch, Branch.leaves, Branch.leavesAll, Expr.leaves_branch n operand]
    exact List.append_nil _
  | n, .binary op left right => by
    rw [Expr.branch, Branch.leaves, Branch.leavesAll, Branch.leavesAll, Expr.leaves_branch n left,
      Expr.leaves_branch (n + left.size) right]
    exact congrArg (left.leaves ++ ·) (List.append_nil _)

theorem Expr.leavesAll_branches : ∀ (n : Nat) (es : List (Expr TokenId)),
    Branch.leavesAll (Expr.branches n es) = Expr.leavesAll es
  | _, [] => rfl
  | n, e :: es => by
    rw [Expr.branches, Branch.leavesAll, Expr.leaves_branch n e,
      Expr.leavesAll_branches (n + e.size) es, Expr.leavesAll]

end

theorem Attribute.leaves_branch (n : Nat) : ∀ a : Attribute TokenId,
    (a.branch n).leaves = a.leaves
  | star _ => rfl
  | starOf parts leaf => congrArg (· ++ [(NodeType.token, leaf)]) (leavesAll_partBranches n parts)
  | value e none => (Expr.leaves_branch n e).trans (List.append_nil _).symm
  | value e (some naming) => by
    rw [Attribute.branch, leaves_renamed, Expr.leaves_branch]
    rfl

theorem FromItem.leaves_branch (n : Nat) (s : FromItem TokenId) :
    (s.branch n).leaves = s.leaves := by
  have hname (id : Nat) : (node id .name (partBranches n s.parts)).leaves = partLeaves s.parts :=
    leavesAll_partBranches n s.parts
  obtain ⟨parts, _ | naming⟩ := s
  · exact (hname _).trans (List.append_nil _).symm
  · rw [FromItem.branch]
    exact (leaves_renamed _ _ _ _ naming).trans (congrArg (· ++ naming.leaves) (hname _))

theorem leavesAll_restrictionBranches (n : Nat) (r : Option (Restriction TokenId)) :
    Branch.leavesAll (restrictionBranches n r) = r.elim [] Restriction.leaves := by
  cases r with
  | none => rfl
  | some r =>
    have hcondition (n : Nat) := Expr.leaves_branch n r.condition
    simp [restrictionBranches, leavesAll, Branch.leaves, hcondition, NodeKind.leaf?,
      NodeKind.token?, NodeKind.type, Restriction.leaves]

/-- The leaves of the layout of a statement are those of the statement, in the order of its text. -/
theorem Statement.leaves_branch (n : Nat) (s : Statement TokenId) :
    (s.branch n).leaves = s.leaves := by
  have hlist (n : Nat) : (s.listBranch n).leaves = s.attributes.flatMap Attribute.leaves :=
    leavesAll_branchesFrom Attribute.leaves_branch n s.attributes
  have hfrom (n : Nat) :
      (s.fromBranch n).leaves = (.token, s.from_) :: s.sources.flatMap FromItem.leaves :=
    congrArg ((NodeType.token, s.from_) :: ·)
      (leavesAll_branchesFrom FromItem.leaves_branch (n + 1) s.sources)
  simp [Statement.branch, Statement.leaves, Branch.leaves, leavesAll, hlist, hfrom,
    leavesAll_restrictionBranches, NodeKind.leaf?, NodeKind.token?, NodeKind.type]

end SelectEngine
