import SelectEngine.Proofs.Grammar.Relabel
import SelectEngine.Proofs.Tree.Layout

/-!
# Shapes of trees

The shape of a tree is what is left of it when the numbers of its nodes and tokens are forgotten:
the types of the nodes, the operators, the order of children and the texts of the leaves. The tree
of a statement has the shape of the statement (`Tree.shape_ofStatement`).
-/

set_option autoImplicit false

namespace SelectEngine

/-- A node with its type, its operator, the text of its token, and its children. -/
inductive Shape where
  | node (type : NodeType) (op : Option Operator) (text : Option String) (children : List Shape)

namespace Shape

/-- A node that stands for a token. -/
def leaf (type : NodeType) (text : Option String) : Shape := node type none text []

/-- A node that is only made of its children. -/
def group (type : NodeType) (children : List Shape) : Shape := node type none none children

/-- An operator above its operands. -/
def operation (op : Operator) (operands : List Shape) : Shape :=
  node .operation (some op) none operands

end Shape

/-! ## The shape of a statement -/

section

variable {τ : Type} (text : τ → Option String)

/-- The shape of the parts of a name. -/
def nameShape (parts : List τ) : Shape :=
  .group .name (parts.map fun part => .leaf .id (text part))

namespace Expr

mutual

/-- The shape of an expression whose leaves stand for texts. -/
def shape : Expr τ → Shape
  | .text leaf => .leaf .text (text leaf)
  | .number leaf => .leaf .number (text leaf)
  | .null leaf => .leaf .null (text leaf)
  | .param leaf => .leaf .param (text leaf)
  | .name parts => nameShape text parts
  | .call function args => .group .call (.leaf .id (text function) :: shapes args)
  | .unary op operand => .operation op [operand.shape]
  | .binary op left right => .operation op [left.shape, right.shape]

def shapes : List (Expr τ) → List Shape
  | [] => []
  | e :: es => e.shape :: shapes es

end

end Expr

/-- What is renamed, with its name behind the keyword if that is written. -/
def Naming.shape (naming : Naming τ) (renamed : Shape) : Shape :=
  .group .renamed
    (renamed :: (naming.keyword.toList.map fun keyword => .leaf .token (text keyword)) ++
      [.leaf .id (text naming.name)])

def Attribute.shape : Attribute τ → Shape
  | star leaf => .group .star [.leaf .token (text leaf)]
  | starOf parts leaf => .group .star [nameShape text parts, .leaf .token (text leaf)]
  | value e none => e.shape text
  | value e (some naming) => naming.shape text (e.shape text)

def FromItem.shape (s : FromItem τ) : Shape :=
  match s.naming with
  | none => nameShape text s.parts
  | some naming => naming.shape text (nameShape text s.parts)

def Restriction.shape (r : Restriction τ) : Shape :=
  .group .where_ [.leaf .token (text r.keyword), r.condition.shape text]

/-- The shape of a statement whose leaves stand for texts. -/
def Statement.shape (s : Statement τ) : Shape :=
  .group .select
    (.leaf .token (text s.select) :: .group .attributes (s.attributes.map (Attribute.shape text)) ::
      .group .from_ (.leaf .token (text s.from_) :: s.sources.map (FromItem.shape text)) ::
      s.restriction.toList.map (Restriction.shape text))

end

/-! ## The shape of a tree -/

/-- The operator of a node. -/
def NodeKind.operator? : NodeKind → Option Operator
  | operation op => some op
  | _ => none

namespace Branch

mutual

/-- The shape of a branch whose tokens stand for texts. -/
def shape (text : TokenId → Option String) : Branch → Shape
  | .node _ kind children =>
    .node kind.type kind.operator? (kind.token?.bind text) (shapes text children)

def shapes (text : TokenId → Option String) : List Branch → List Shape
  | [] => []
  | b :: bs => b.shape text :: shapes text bs

end

end Branch

/-- The text of a token of a tree. -/
def Tree.textOf (t : Tree) (token : TokenId) : Option String := t.tokens[token]?.map Token.text

/-- The shape of a tree with an entry point. -/
def Tree.shape (t : Tree) : Option Shape := t.root.map fun root => (t.branch root).shape t.textOf

/-! ## Layouts have the shapes of what is laid out -/

namespace Branch

variable (text : TokenId → Option String)

theorem shapes_eq_map : ∀ bs : List Branch, shapes text bs = bs.map (shape text)
  | [] => rfl
  | b :: bs => congrArg (b.shape text :: ·) (shapes_eq_map bs)

theorem shapes_append (bs others : List Branch) :
    shapes text (bs ++ others) = shapes text bs ++ shapes text others := by
  simp only [shapes_eq_map, List.map_append]

theorem shapes_branchesFrom {α : Type} {size : α → Nat} {branch : Nat → α → Branch}
    {expected : α → Shape} (h : ∀ n a, (branch n a).shape text = expected a) :
    ∀ (n : Nat) (as : List α), shapes text (branchesFrom size branch n as) = as.map expected
  | _, [] => rfl
  | n, a :: as => by
    rw [branchesFrom, shapes, h, shapes_branchesFrom h, List.map_cons]

theorem shapes_partBranches (n : Nat) (parts : List TokenId) :
    shapes text (partBranches n parts) = parts.map fun part => .leaf .id (text part) := by
  have hleaf : ∀ (n : Nat) (part : TokenId),
      (node n (.id part) []).shape text = .leaf .id (text part) := fun _ _ => rfl
  exact shapes_branchesFrom text hleaf n parts

theorem shape_name (n m : Nat) (parts : List TokenId) :
    (node n .name (partBranches m parts)).shape text = nameShape text parts := by
  rw [shape, shapes_partBranches]
  rfl

end Branch

variable (text : TokenId → Option String)

mutual

theorem Expr.shape_branch : ∀ (n : Nat) (e : Expr TokenId), (e.branch n).shape text = e.shape text
  | _, .text _ | _, .number _ | _, .null _ | _, .param _ => rfl
  | n, .name parts => Branch.shape_name text _ n parts
  | n, .call function args => by
    rw [Expr.branch, Branch.shape, Branch.shapes, Expr.shapes_branches (n + 1) args]
    rfl
  | n, .unary op operand => by
    rw [Expr.branch, Branch.shape, Branch.shapes, Expr.shape_branch n operand]
    rfl
  | n, .binary op left right => by
    rw [Expr.branch, Branch.shape, Branch.shapes, Branch.shapes, Expr.shape_branch n left,
      Expr.shape_branch (n + left.size) right]
    rfl

theorem Expr.shapes_branches : ∀ (n : Nat) (es : List (Expr TokenId)),
    Branch.shapes text (Expr.branches n es) = Expr.shapes text es
  | _, [] => rfl
  | n, e :: es => by
    rw [Expr.branches, Branch.shapes, Expr.shapes, Expr.shape_branch n e,
      Expr.shapes_branches (n + e.size) es]

end

theorem Naming.shapes_keywordBranches (n : Nat) (naming : Naming TokenId) :
    Branch.shapes text (naming.keywordBranches n) =
      naming.keyword.toList.map fun keyword => .leaf .token (text keyword) := by
  obtain ⟨_ | keyword, name⟩ := naming <;> rfl

/-- What is renamed has the shape of the naming around its own. -/
theorem Naming.shape_renamed {b : Branch} {renamed : Shape} (h : b.shape text = renamed)
    (naming : Naming TokenId) (n k m : Nat) :
    (Branch.node n .renamed
      (b :: (naming.keywordBranches k ++ [.node m (.id naming.name) []]))).shape text =
      naming.shape text renamed := by
  rw [Branch.shape, Branch.shapes, Branch.shapes_append, Naming.shapes_keywordBranches, h]
  rfl

theorem Attribute.shape_branch : ∀ (n : Nat) (a : Attribute TokenId),
    (a.branch n).shape text = a.shape text
  | _, .star _ => rfl
  | n, .starOf parts leaf => by
    rw [Attribute.branch, Branch.shape, Branch.shapes, Branch.shape_name]
    rfl
  | n, .value e none => Expr.shape_branch text n e
  | n, .value e (some naming) => naming.shape_renamed text (Expr.shape_branch text n e) _ _ _

theorem FromItem.shape_branch (n : Nat) (s : FromItem TokenId) :
    (s.branch n).shape text = s.shape text := by
  obtain ⟨parts, _ | naming⟩ := s
  · exact Branch.shape_name text _ n parts
  · exact naming.shape_renamed text (Branch.shape_name text _ n parts) _ _ _

theorem shapes_restrictionBranches (n : Nat) (r : Option (Restriction TokenId)) :
    Branch.shapes text (restrictionBranches n r) = r.toList.map (Restriction.shape text) := by
  cases r with
  | none => rfl
  | some r =>
    simp only [restrictionBranches, Branch.shapes, Branch.shape, Expr.shape_branch]
    rfl

theorem Statement.shape_branch (n : Nat) (s : Statement TokenId) :
    (s.branch n).shape text = s.shape text := by
  have hlist : (s.listBranch (n + 1)).shape text =
      .group .attributes (s.attributes.map (Attribute.shape text)) := by
    rw [Statement.listBranch, Branch.shape,
      Branch.shapes_branchesFrom text (Attribute.shape_branch text)]
    rfl
  have hfrom : ∀ m, (s.fromBranch m).shape text =
      .group .from_ (.leaf .token (text s.from_) :: s.sources.map (FromItem.shape text)) := by
    intro m
    rw [Statement.fromBranch, Branch.shape, Branch.shapes,
      Branch.shapes_branchesFrom text (FromItem.shape_branch text)]
    rfl
  rw [Statement.branch, Branch.shape, Branch.shapes, Branch.shapes, Branch.shapes, hlist, hfrom,
    shapes_restrictionBranches]
  rfl

/-- The tree of a statement has the shape of the statement below its root. -/
theorem Tree.shape_ofStatement (source : String) (tokens : Array Token) (s : Statement TokenId) :
    (Tree.ofStatement source tokens s).shape =
      some (.group .root [s.shape fun token => tokens[token]?.map Token.text]) := by
  obtain ⟨hroot, htokens, -, -, hbranch⟩ := Tree.branch_ofStatement source tokens s
  have htext : (Tree.ofStatement source tokens s).textOf =
      fun token => tokens[token]?.map Token.text := by
    funext token
    rw [Tree.textOf, htokens]
  rw [Tree.shape, hroot, Option.map_some, hbranch, htext, Branch.shape, Branch.shapes,
    Branch.shapes, Statement.shape_branch]
  rfl

/-! ## Relabelled statements -/

section

variable {τ ρ : Type} (f : τ → ρ) (label : ρ → Option String)

mutual

theorem Expr.shape_map : ∀ e : Expr τ, (e.map f).shape label = e.shape (label ∘ f)
  | .text _ | .number _ | .null _ | .param _ => rfl
  | .name parts => by
    simp only [Expr.map, Expr.shape, nameShape, List.map_map]
    rfl
  | .call function args => by
    rw [Expr.map, Expr.shape, Expr.shape, Expr.shapes_mapAll args]
    rfl
  | .unary op operand => by rw [Expr.map, Expr.shape, Expr.shape, Expr.shape_map operand]
  | .binary op left right => by
    rw [Expr.map, Expr.shape, Expr.shape, Expr.shape_map left, Expr.shape_map right]

theorem Expr.shapes_mapAll : ∀ es : List (Expr τ),
    Expr.shapes label (Expr.mapAll f es) = Expr.shapes (label ∘ f) es
  | [] => rfl
  | e :: es => by
    rw [Expr.mapAll, Expr.shapes, Expr.shapes, Expr.shape_map e, Expr.shapes_mapAll es]

end

theorem Naming.shape_map (naming : Naming τ) (renamed : Shape) :
    (naming.map f).shape label renamed = naming.shape (label ∘ f) renamed := by
  obtain ⟨_ | keyword, name⟩ := naming <;> rfl

theorem nameShape_map (parts : List τ) :
    nameShape label (parts.map f) = nameShape (label ∘ f) parts := by
  simp only [nameShape, List.map_map]
  rfl

theorem Attribute.shape_map : ∀ a : Attribute τ, (a.map f).shape label = a.shape (label ∘ f)
  | .star _ => rfl
  | .starOf parts leaf => by
    rw [Attribute.map, Attribute.shape, Attribute.shape, nameShape_map]
    rfl
  | .value e none => Expr.shape_map f label e
  | .value e (some naming) => by
    rw [Attribute.map, Option.map_some, Attribute.shape, Attribute.shape, Naming.shape_map,
      Expr.shape_map]

theorem FromItem.shape_map (s : FromItem τ) : (s.map f).shape label = s.shape (label ∘ f) := by
  obtain ⟨parts, _ | naming⟩ := s
  · exact nameShape_map f label parts
  · show (naming.map f).shape label (nameShape label (parts.map f)) = _
    rw [Naming.shape_map, nameShape_map]
    rfl

theorem Restriction.shape_map (r : Restriction τ) :
    (r.map f).shape label = r.shape (label ∘ f) := by
  rw [Restriction.map, Restriction.shape, Restriction.shape, Expr.shape_map]
  rfl

/-- The shape of a statement with other leaves. -/
theorem Statement.shape_map (s : Statement τ) : (s.map f).shape label = s.shape (label ∘ f) := by
  obtain ⟨select, attributes, from_, sources, restriction⟩ := s
  have hattributes : Attribute.shape label ∘ Attribute.map f = Attribute.shape (label ∘ f) :=
    funext fun a => a.shape_map f label
  have hsources : FromItem.shape label ∘ FromItem.map f = FromItem.shape (label ∘ f) :=
    funext fun s => s.shape_map f label
  have hrestriction : Restriction.shape label ∘ Restriction.map f = Restriction.shape (label ∘ f) :=
    funext fun r => r.shape_map f label
  simp only [Statement.map, Statement.shape, Option.toList_map, List.map_map, hattributes, hsources,
    hrestriction]
  rfl

end

end SelectEngine
