import SelectEngine.Operator
import SelectEngine.Proofs.Tree.Held
import SelectEngine.Proofs.Tree.Parents

/-!
# The layout that the kind of a node asks for

`Branch.LaidOut` says for each kind of node which children a node of the kind has. The tree of a
text that parses is one tree whose nodes are all laid out (`wellShaped_of_parse`): its root is the
last node, every other node is the child of one node, and no kind has children that it does not ask
for.
-/

set_option autoImplicit false

namespace SelectEngine

namespace Branch

/-! ## Layouts -/

/-- A keyword or a star. -/
def IsToken (b : Branch) : Prop := b.kind.type = .token

/-- One part of a name. -/
def IsId (b : Branch) : Prop := b.kind.type = .id

/-- An expression. -/
def IsExpr (b : Branch) : Prop :=
  b.kind.type ∈ [.text, .number, .null, .param, .name, .call, .operation]

/-- The name of a table, which has one to three parts. -/
def IsTable (b : Branch) : Prop := b.kind = .name ∧ b.children ≠ [] ∧ b.children.length ≤ 3

/-- Something of a sort with the name given to it. -/
def Renames (sort : Branch → Prop) (b : Branch) : Prop :=
  b.kind = .renamed ∧ ∃ inner ∈ b.children.head?, sort inner

/-- An attribute: a star, an expression, or an expression with the name given to it. -/
def IsAttribute (b : Branch) : Prop := b.kind = .star ∨ b.IsExpr ∨ b.Renames IsExpr

/-- A source: the name of a table, alone or with the name given to it. -/
def IsSource (b : Branch) : Prop := b.IsTable ∨ b.Renames IsTable

/-- The children of a node are those that its kind asks for. -/
def LaidOut : Branch → Prop
  | .node _ kind children =>
    match kind with
    | .root => ∃ select, children = [select] ∧ select.kind = .select
    | .select => ∃ keyword list from_ rest, children = keyword :: list :: from_ :: rest ∧
        keyword.IsToken ∧ list.kind = .attributes ∧ from_.kind = .from_ ∧
        rest.length ≤ 1 ∧ ∀ b ∈ rest, b.kind = .where_
    | .attributes => children ≠ [] ∧ ∀ b ∈ children, b.IsAttribute
    | .star => ∃ group star, children = group ++ [star] ∧
        group.length ≤ 1 ∧ (∀ b ∈ group, b.kind = .name) ∧ star.IsToken
    | .from_ => ∃ keyword sources, children = keyword :: sources ∧
        keyword.IsToken ∧ sources ≠ [] ∧ ∀ b ∈ sources, b.IsSource
    | .where_ => ∃ keyword condition, children = [keyword, condition] ∧
        keyword.IsToken ∧ condition.IsExpr
    | .name => children ≠ [] ∧ ∀ b ∈ children, b.IsId
    | .renamed => ∃ inner keyword name, children = inner :: (keyword ++ [name]) ∧
        inner.IsExpr ∧ keyword.length ≤ 1 ∧ (∀ b ∈ keyword, b.IsToken) ∧ name.IsId
    | .operation op => children.length = op.arity ∧ ∀ b ∈ children, b.IsExpr
    | .call => ∃ function args, children = function :: args ∧ function.IsId ∧ ∀ b ∈ args, b.IsExpr
    | .id _ | .text _ | .number _ | .null _ | .param _ | .token _ => children = []

theorem forall_mem_branchesFrom {α : Type} {p : Branch → Prop} {size : α → Nat}
    {branch : Nat → α → Branch} {as : List α} (h : ∀ a ∈ as, ∀ n, p (branch n a)) (n : Nat) :
    ∀ b ∈ branchesFrom size branch n as, p b := by
  induction as generalizing n with
  | nil => exact List.forall_mem_nil _
  | cons a as ih =>
    obtain ⟨ha, has⟩ := List.forall_mem_cons.mp h
    exact List.forall_mem_cons.mpr ⟨ha n, ih has (n + size a)⟩

theorem length_branchesFrom {α : Type} (size : α → Nat) (branch : Nat → α → Branch) (n : Nat)
    (as : List α) : (branchesFrom size branch n as).length = as.length := by
  induction as generalizing n with
  | nil => rfl
  | cons a as ih => rw [branchesFrom, List.length_cons, ih, List.length_cons]

theorem branchesFrom_ne_nil {α : Type} {size : α → Nat} {branch : Nat → α → Branch} {as : List α}
    (h : as ≠ []) (n : Nat) : branchesFrom size branch n as ≠ [] := by
  cases as with
  | nil => exact absurd rfl h
  | cons a as => exact List.cons_ne_nil _ _

end Branch

open Branch

namespace Tree

variable {t : Tree} {id : NodeId} {kind : NodeKind} {bs : List Branch}

/-- If the tree has the branch, every node of the branch is laid out in the tree. -/
def Orderly (t : Tree) (b : Branch) : Prop := t.Has b → ∀ id ∈ b.preorder, (t.branch id).LaidOut

theorem orderly_node (hnode : (Branch.node id kind bs).LaidOut) (hbelow : ∀ b ∈ bs, t.Orderly b) :
    t.Orderly (.node id kind bs) := by
  intro h found hfound
  rcases List.mem_cons.mp hfound with rfl | hfound
  · exact h.2.symm ▸ hnode
  · obtain ⟨b, hb, hid⟩ := (mem_preorders bs).mp hfound
    exact hbelow b hb (h.below hb) found hid

theorem orderly_leaf (h : (Branch.node id kind []).LaidOut) : t.Orderly (.node id kind []) :=
  orderly_node h (List.forall_mem_nil _)

end Tree

open SelectEngine.Tree

variable {t : Tree}

/-! ## The parts of a statement -/

theorem orderly_name {parts : List TokenId} (h : parts ≠ []) (id n : Nat) :
    t.Orderly (.node id .name (partBranches n parts)) := by
  have hid : ∀ part ∈ parts, ∀ n, (Branch.node n (.id part) []).IsId := fun _ _ _ => rfl
  have hleaf : ∀ part ∈ parts, ∀ n, t.Orderly (.node n (.id part) []) :=
    fun _ _ _ => orderly_leaf rfl
  exact orderly_node ⟨branchesFrom_ne_nil h n, forall_mem_branchesFrom hid n⟩
    (forall_mem_branchesFrom hleaf n)

theorem Expr.isExpr_branch (e : Expr TokenId) (n : Nat) : (e.branch n).IsExpr := by
  cases e <;> simp [Expr.branch, IsExpr, Branch.kind, NodeKind.type]

theorem Expr.isExpr_branches (es : List (Expr TokenId)) (n : Nat) :
    ∀ b ∈ Expr.branches n es, b.IsExpr := by
  induction es generalizing n with
  | nil => exact List.forall_mem_nil _
  | cons e es ih => exact List.forall_mem_cons.mpr ⟨e.isExpr_branch n, ih (n + e.size)⟩

mutual

theorem Expr.orderly_branch : ∀ (e : Expr TokenId) (n : Nat), e.WellFormed →
    t.Orderly (e.branch n)
  | .text _, _, _ | .number _, _, _ | .null _, _, _ | .param _, _, _ => orderly_leaf rfl
  | .name _, n, h => orderly_name h _ n
  | .call function args, n, h =>
    orderly_node ⟨_, _, rfl, rfl, Expr.isExpr_branches args (n + 1)⟩
      (List.forall_mem_cons.mpr ⟨orderly_leaf rfl, Expr.orderly_branches args (n + 1) h⟩)
  | .unary op operand, n, h => by
    have harity : 1 = op.arity := by rw [Operator.arity, h.1]; rfl
    exact orderly_node ⟨harity, List.forall_mem_singleton.mpr (operand.isExpr_branch n)⟩
      (List.forall_mem_singleton.mpr (Expr.orderly_branch operand n h.2))
  | .binary op left right, n, h => by
    have harity : 2 = op.arity := by rw [Operator.arity, h.1]; rfl
    have hright := right.isExpr_branch (n + left.size)
    refine orderly_node ⟨harity, List.forall_mem_cons.mpr ⟨left.isExpr_branch n,
      List.forall_mem_singleton.mpr hright⟩⟩ (List.forall_mem_cons.mpr ⟨?_, ?_⟩)
    · exact Expr.orderly_branch left n h.2.1
    · exact List.forall_mem_singleton.mpr (Expr.orderly_branch right (n + left.size) h.2.2)

theorem Expr.orderly_branches : ∀ (es : List (Expr TokenId)) (n : Nat), Expr.AllWellFormed es →
    ∀ b ∈ Expr.branches n es, t.Orderly b
  | [], _, _ => List.forall_mem_nil _
  | e :: es, n, h => List.forall_mem_cons.mpr
      ⟨Expr.orderly_branch e n h.1, Expr.orderly_branches es (n + e.size) h.2⟩

end

/-- What is named may be followed by a keyword, and is by the name. -/
theorem Naming.orderly_renamed {b : Branch} (hexpr : b.IsExpr) (h : t.Orderly b)
    (naming : Naming TokenId) (id k n : Nat) :
    t.Orderly (.node id .renamed
      (b :: (naming.keywordBranches k ++ [.node n (.id naming.name) []]))) := by
  have hkeyword : (naming.keywordBranches k).length ≤ 1 ∧
      (∀ b ∈ naming.keywordBranches k, b.IsToken) ∧
      ∀ b ∈ naming.keywordBranches k, t.Orderly b := by
    obtain ⟨_ | keyword, name⟩ := naming
    · exact ⟨Nat.zero_le 1, List.forall_mem_nil _, List.forall_mem_nil _⟩
    · exact ⟨Nat.le_refl 1, List.forall_mem_singleton.mpr rfl,
        List.forall_mem_singleton.mpr (orderly_leaf rfl)⟩
  obtain ⟨hlength, htoken, hkeyword⟩ := hkeyword
  refine orderly_node ⟨b, _, _, rfl, hexpr, hlength, htoken, rfl⟩ ?_
  refine List.forall_mem_cons.mpr ⟨h, List.forall_mem_append.mpr ⟨hkeyword, ?_⟩⟩
  exact List.forall_mem_singleton.mpr (orderly_leaf rfl)

theorem Attribute.isAttribute_branch (n : Nat) : ∀ a : Attribute TokenId, (a.branch n).IsAttribute
  | .star _ | .starOf _ _ => .inl rfl
  | .value e none => .inr (.inl (e.isExpr_branch n))
  | .value e (some _) => .inr (.inr ⟨rfl, _, rfl, e.isExpr_branch n⟩)

theorem Attribute.orderly_branch : ∀ (a : Attribute TokenId) (n : Nat), a.WellFormed →
    t.Orderly (a.branch n)
  | .star leaf, n, _ =>
    orderly_node ⟨[], .node n (.token leaf) [], rfl, Nat.zero_le 1, List.forall_mem_nil _, rfl⟩
      (List.forall_mem_singleton.mpr (orderly_leaf rfl))
  | .starOf parts leaf, n, h => by
    refine orderly_node ⟨[_], _, rfl, Nat.le_refl 1, List.forall_mem_singleton.mpr rfl, rfl⟩ ?_
    exact List.forall_mem_cons.mpr ⟨orderly_name h _ n,
      List.forall_mem_singleton.mpr (orderly_leaf rfl)⟩
  | .value e none, n, h => e.orderly_branch n h
  | .value e (some naming), n, h =>
    naming.orderly_renamed (e.isExpr_branch n) (e.orderly_branch n h) _ _ _

theorem isTable_partBranches {parts : List TokenId} (h : parts ≠ [] ∧ parts.length ≤ 3)
    (id n : Nat) : (Branch.node id .name (partBranches n parts)).IsTable := by
  refine ⟨rfl, branchesFrom_ne_nil h.1 n, ?_⟩
  show (partBranches n parts).length ≤ 3
  rw [partBranches, length_branchesFrom]
  exact h.2

theorem FromItem.isSource_branch {s : FromItem TokenId} (h : s.WellFormed) (n : Nat) :
    (s.branch n).IsSource := by
  obtain ⟨parts, _ | naming⟩ := s
  · exact .inl (isTable_partBranches h _ n)
  · exact .inr ⟨rfl, _, rfl, isTable_partBranches h _ n⟩

theorem FromItem.orderly_branch {s : FromItem TokenId} (h : s.WellFormed) (n : Nat) :
    t.Orderly (s.branch n) := by
  obtain ⟨parts, _ | naming⟩ := s
  · exact orderly_name h.1 _ n
  · have hexpr (id : Nat) : (Branch.node id .name (partBranches n parts)).IsExpr := by
      simp [IsExpr, Branch.kind, NodeKind.type]
    exact naming.orderly_renamed (hexpr _) (orderly_name h.1 _ n) _ _ _

/-- A WHERE clause is the only branch behind the FROM list. -/
theorem orderly_restrictionBranches (n : Nat) (r : Option (Restriction TokenId))
    (h : ∀ r' ∈ r, r'.condition.WellFormed) :
    (restrictionBranches n r).length ≤ 1 ∧ (∀ b ∈ restrictionBranches n r, b.kind = .where_) ∧
      ∀ b ∈ restrictionBranches n r, t.Orderly b := by
  cases r with
  | none => exact ⟨Nat.zero_le 1, List.forall_mem_nil _, List.forall_mem_nil _⟩
  | some r =>
    refine ⟨Nat.le_refl 1, List.forall_mem_singleton.mpr rfl, List.forall_mem_singleton.mpr ?_⟩
    refine orderly_node ⟨_, _, rfl, rfl, r.condition.isExpr_branch (n + 1)⟩ ?_
    exact List.forall_mem_cons.mpr ⟨orderly_leaf rfl,
      List.forall_mem_singleton.mpr (r.condition.orderly_branch (n + 1) (h r rfl))⟩

theorem Statement.orderly_branch {s : Statement TokenId} (h : s.WellFormed) (n : Nat) :
    t.Orderly (s.branch n) := by
  have hlist (m : Nat) : t.Orderly (s.listBranch m) := by
    refine orderly_node ⟨branchesFrom_ne_nil h.attributes_ne m, ?_⟩ ?_
    · exact forall_mem_branchesFrom (fun a _ m => a.isAttribute_branch m) m
    · exact forall_mem_branchesFrom (fun a ha m => a.orderly_branch m (h.attributes a ha)) m
  have hfrom (m : Nat) : t.Orderly (s.fromBranch m) := by
    refine orderly_node ⟨_, _, rfl, rfl, branchesFrom_ne_nil h.sources_ne (m + 1), ?_⟩
      (List.forall_mem_cons.mpr ⟨orderly_leaf rfl, ?_⟩)
    · exact forall_mem_branchesFrom (fun a ha m => FromItem.isSource_branch (h.sources a ha) m) _
    · exact forall_mem_branchesFrom (fun a ha m => FromItem.orderly_branch (h.sources a ha) m) _
  obtain ⟨hlength, hkinds, hrest⟩ := orderly_restrictionBranches (t := t)
    (n + 1 + (s.attributesSize + 1) + (1 + s.sourcesSize + 1)) s.restriction h.restriction
  refine orderly_node ⟨_, _, _, _, rfl, rfl, rfl, rfl, hlength, hkinds⟩ ?_
  exact List.forall_mem_cons.mpr ⟨orderly_leaf rfl,
    List.forall_mem_cons.mpr ⟨hlist _, List.forall_mem_cons.mpr ⟨hfrom _, hrest⟩⟩⟩

/-! ## Texts that parse -/

/-- The nodes of a tree make one tree, in which every node is laid out. -/
structure Tree.WellShaped (t : Tree) : Prop where
  /-- The root is the last node. -/
  root : ∃ root, t.nodes.size = root + 1 ∧ t.root = some root ∧ t.kind root = .root
  /-- Every other node is the child of one node, a later one, and its child once. -/
  parent : ∀ id < t.nodes.size, t.root ≠ some id →
    ∃ p < t.nodes.size, id < p ∧ (t.children p).count id = 1 ∧ ∀ q, id ∈ t.children q → q = p
  layout : ∀ id < t.nodes.size, (t.branch id).LaidOut

theorem Tree.wellShaped_ofStatement (source : String) (tokens : Array Token)
    {s : Statement TokenId} (h : s.WellFormed) : (ofStatement source tokens s).WellShaped := by
  obtain ⟨hroot, -, -, hsize, hbranch⟩ := branch_ofStatement source tokens s
  have hwalk := preorder_perm_range source tokens s
  rw [← hsize] at hwalk
  have hhas : (ofStatement source tokens s).Has (.node s.size .root [s.branch 0]) :=
    ⟨hsize ▸ Nat.lt_succ_self _, hbranch⟩
  refine ⟨⟨s.size, hsize, hroot, hhas.kind⟩, fun id hid hne => ?_, fun id hid => ?_⟩
  · rw [hroot] at hne
    exact child_of_one hwalk hid fun heq => hne (congrArg some heq.symm)
  · have hmem : id ∈ (Branch.node s.size .root [s.branch 0]).preorder := by
      rw [← hbranch]
      exact hwalk.mem_iff.mp (List.mem_range.mpr hid)
    have horderly : (ofStatement source tokens s).Orderly (.node s.size .root [s.branch 0]) :=
      orderly_node ⟨_, rfl, rfl⟩ (List.forall_mem_singleton.mpr (s.orderly_branch h 0))
    exact horderly hhas id hmem

/-- The nodes of a text that parses make one tree under the last of them, in which every node has
the children that its kind asks for. -/
theorem wellShaped_of_parse {settings : ReadSettings} {text : String} {tree : Tree}
    (h : parse settings text = .ok tree) : tree.WellShaped := by
  obtain ⟨tokens, statement, rfl, hstatement⟩ := wellFormed_of_parse h
  exact Tree.wellShaped_ofStatement settings.sourceName tokens hstatement

/-- A text whose tree has nodes of every kind. -/
def everyKind : String :=
  "SELECT *, s.*, -a AS n, f(a, ?, NULL) x, 'b', 1 FROM c.s.t AS s, u WHERE NOT (a IS NULL)"

theorem wellShaped_of_parse_everyKind :
    ∃ tree, parse .default everyKind = .ok tree ∧ tree.nodes.size = 43 ∧ tree.WellShaped := by
  have hcount : (parse .default everyKind).toOption.map (·.nodes.size) = some 43 := by
    decide +kernel
  cases h : parse .default everyKind with
  | error e =>
    rw [h] at hcount
    cases hcount
  | ok tree =>
    rw [h] at hcount
    exact ⟨tree, rfl, Option.some.inj hcount, wellShaped_of_parse h⟩

end SelectEngine
