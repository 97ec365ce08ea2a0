import SelectEngine.Operator
import SelectEngine.Proofs.Automaton.Parse
import SelectEngine.Proofs.Tree.Layout

/-!
# Operators with their operands

A branch is saturated if every operator in it has as many operands as it takes. The layout of a tree
promises this: every branch of a parsed statement is saturated (`Branch.Parsed.saturated`).
-/

set_option autoImplicit false

namespace SelectEngine

/-- A node with so many children is no operator or one that takes so many operands. -/
def NodeKind.Filled (kind : NodeKind) (count : Nat) : Prop :=
  ∀ op, kind = .operation op → count = op.arity

/-- A node is neither a parameter nor a call. -/
def NodeKind.Plain (kind : NodeKind) (_ : Nat) : Prop := kind.type ≠ .param ∧ kind.type ≠ .call

namespace Branch

mutual

/-- Every node of the branch has a property of its kind and the number of its children. -/
def All (p : NodeKind → Nat → Prop) : Branch → Prop
  | .node _ kind children => p kind children.length ∧ AllIn p children

/-- Every node of several branches has the property. -/
def AllIn (p : NodeKind → Nat → Prop) : List Branch → Prop
  | [] => True
  | b :: bs => b.All p ∧ AllIn p bs

end

/-- Every operator has as many operands as it takes. -/
def Saturated (b : Branch) : Prop := b.All NodeKind.Filled

/-- There is neither a parameter nor a call. -/
def Plain (b : Branch) : Prop := b.All NodeKind.Plain

variable {p : NodeKind → Nat → Prop}

theorem allIn_iff (bs : List Branch) : AllIn p bs ↔ ∀ b ∈ bs, b.All p := by
  induction bs with
  | nil => simp [AllIn]
  | cons b bs ih => rw [AllIn, ih, List.forall_mem_cons]

theorem mem_preorders {id : NodeId} (bs : List Branch) :
    id ∈ preorders bs ↔ ∃ b ∈ bs, id ∈ b.preorder := by
  induction bs with
  | nil => simp [preorders]
  | cons b bs ih =>
    rw [preorders, List.mem_append, ih]
    simp only [List.mem_cons, exists_eq_or_imp]

/-- What all nodes of a branch of a tree have, all nodes below each of them have. -/
theorem all_of_mem_preorder {t : Tree} {id : NodeId} (root : NodeId)
    (h : (t.branch root).All p) (hid : id ∈ (t.branch root).preorder) : (t.branch id).All p := by
  have hall := h
  rw [t.branch_eq root] at hall hid
  rcases List.mem_cons.mp hid with rfl | hbelow
  · exact h
  · obtain ⟨b, hb, hid⟩ := (mem_preorders _).mp hbelow
    obtain ⟨c, hc, rfl⟩ := List.mem_map.mp hb
    have hchild := (allIn_iff _).mp hall.2 (t.branch c) hb
    have hless := Tree.lt_of_mem_children hc
    exact all_of_mem_preorder c hchild hid
termination_by root

/-! ## Parsed statements -/

theorem allIn_branchesFrom {α : Type} {size : α → Nat} {branch : Nat → α → Branch} {as : List α}
    (h : ∀ a ∈ as, ∀ n, (branch n a).All p) (n : Nat) :
    AllIn p (branchesFrom size branch n as) := by
  induction as generalizing n with
  | nil => trivial
  | cons a as ih =>
    obtain ⟨ha, has⟩ := List.forall_mem_cons.mp h
    exact ⟨ha n, ih has (n + size a)⟩

theorem saturated_partBranches (n : Nat) (parts : List TokenId) :
    AllIn NodeKind.Filled (partBranches n parts) := by
  have hpart (part : TokenId) (n : Nat) : (node n (.id part) []).Saturated := ⟨nofun, trivial⟩
  exact allIn_branchesFrom (fun part _ n => hpart part n) n

end Branch

open Branch

mutual

theorem Expr.saturated_branch : ∀ (e : Expr TokenId) (n : Nat), e.WellFormed →
    (e.branch n).Saturated
  | .text _, _, _ | .number _, _, _ | .null _, _, _ | .param _, _, _ => ⟨nofun, trivial⟩
  | .name parts, n, _ => ⟨nofun, saturated_partBranches n parts⟩
  | .call function args, n, h => ⟨nofun, ⟨nofun, trivial⟩, Expr.saturated_branches args (n + 1) h⟩
  | .unary op operand, n, h => by
    refine ⟨fun op' hop => ?_, Expr.saturated_branch operand n h.2, trivial⟩
    cases hop
    rw [Operator.arity, h.1]
    rfl
  | .binary op left right, n, h => by
    refine ⟨fun op' hop => ?_, Expr.saturated_branch left n h.2.1,
      Expr.saturated_branch right (n + left.size) h.2.2, trivial⟩
    cases hop
    rw [Operator.arity, h.1]
    rfl

theorem Expr.saturated_branches : ∀ (es : List (Expr TokenId)) (n : Nat), Expr.AllWellFormed es →
    AllIn NodeKind.Filled (Expr.branches n es)
  | [], _, _ => trivial
  | e :: es, n, h =>
    ⟨Expr.saturated_branch e n h.1, Expr.saturated_branches es (n + e.size) h.2⟩

end

/-- A naming adds a keyword and a name to what it renames. -/
theorem Naming.saturated_renamed {b : Branch} (h : b.Saturated) (naming : Naming TokenId)
    (n k m : Nat) :
    (Branch.node n .renamed
      (b :: (naming.keywordBranches k ++ [.node m (.id naming.name) []]))).Saturated := by
  refine ⟨nofun, h, (allIn_iff _).mpr fun c hc => ?_⟩
  rcases List.mem_append.mp hc with hc | hc
  · obtain ⟨_ | keyword, name⟩ := naming
    · cases hc
    · cases List.mem_singleton.mp hc
      exact ⟨nofun, trivial⟩
  · cases List.mem_singleton.mp hc
    exact ⟨nofun, trivial⟩

theorem Attribute.saturated_branch : ∀ (a : Attribute TokenId) (n : Nat), a.WellFormed →
    (a.branch n).Saturated
  | .star _, _, _ => ⟨nofun, ⟨nofun, trivial⟩, trivial⟩
  | .starOf parts _, n, _ =>
    ⟨nofun, ⟨nofun, saturated_partBranches n parts⟩, ⟨nofun, trivial⟩, trivial⟩
  | .value e none, n, h => Expr.saturated_branch e n h
  | .value e (some naming), n, h => naming.saturated_renamed (Expr.saturated_branch e n h) _ _ _

theorem FromItem.saturated_branch (s : FromItem TokenId) (n : Nat) : (s.branch n).Saturated := by
  obtain ⟨parts, _ | naming⟩ := s
  · exact ⟨nofun, saturated_partBranches n parts⟩
  · have hname (m : Nat) : (Branch.node m .name (partBranches n parts)).Saturated :=
      ⟨nofun, saturated_partBranches n parts⟩
    exact naming.saturated_renamed (hname _) _ _ _

theorem saturated_restrictionBranches (n : Nat) (r : Option (Restriction TokenId))
    (h : ∀ r' ∈ r, r'.condition.WellFormed) :
    AllIn NodeKind.Filled (restrictionBranches n r) := by
  cases r with
  | none => trivial
  | some r =>
    exact ⟨⟨nofun, ⟨nofun, trivial⟩, Expr.saturated_branch r.condition (n + 1) (h r rfl), trivial⟩,
      trivial⟩

theorem Statement.saturated_branch {s : Statement TokenId} (h : s.WellFormed) (n : Nat) :
    (s.branch n).Saturated := by
  have hlist (m : Nat) : (s.listBranch m).Saturated :=
    ⟨nofun, allIn_branchesFrom (fun a ha m => a.saturated_branch m (h.attributes a ha)) m⟩
  have hfrom (m : Nat) : (s.fromBranch m).Saturated :=
    ⟨nofun, ⟨nofun, trivial⟩, allIn_branchesFrom (fun source _ m => source.saturated_branch m) _⟩
  exact ⟨nofun, ⟨nofun, trivial⟩, hlist _, hfrom _,
    saturated_restrictionBranches _ s.restriction h.restriction⟩

/-- The branch is part of a tree that was made by parsing. -/
def Branch.Parsed (tree : Tree) (b : Branch) : Prop :=
  ∃ settings text root id, parse settings text = .ok tree ∧ root ∈ tree.root ∧
    id ∈ (tree.branch root).preorder ∧ b = tree.branch id

/-- Every branch of a parsed statement is saturated. -/
theorem Branch.Parsed.saturated {tree : Tree} {b : Branch} (h : b.Parsed tree) : b.Saturated := by
  obtain ⟨settings, text, root, id, hparse, hroot, hid, rfl⟩ := h
  obtain ⟨tokens, statement, rfl, hstatement⟩ := wellFormed_of_parse hparse
  obtain ⟨hentry, -, -, -, hbranch⟩ :=
    Tree.branch_ofStatement settings.sourceName tokens statement
  rw [hentry] at hroot
  cases hroot
  refine all_of_mem_preorder statement.size ?_ hid
  rw [hbranch]
  exact ⟨nofun, statement.saturated_branch hstatement 0, trivial⟩

end SelectEngine
