import SelectEngine.Statement
import SelectEngine.Tree.Basic

/-!
# The tree of a statement

`Tree.ofStatement` lays a statement out as a tree. Nodes are added from left to right, children
before their parent, with one exception: in `table AS name` the keyword is added before the node
that joins the parts of the table's name.
-/

set_option autoImplicit false

namespace SelectEngine

namespace Tree

/-- Adds a node. -/
def place (kind : NodeKind) (children : List NodeId) : StateM Tree NodeId := fun t =>
  let (t, id) := t.addNode kind children
  (id, t)

/-- Adds a leaf. -/
def placeLeaf (kind : NodeKind) : StateM Tree NodeId := place kind []

/-- Adds the parts of a name. -/
def placeParts (parts : List TokenId) : StateM Tree (List NodeId) :=
  parts.mapM fun part => placeLeaf (.id part)

mutual

/-- Adds an expression. -/
def placeExpr : Expr TokenId → StateM Tree NodeId
  | .text leaf => placeLeaf (.text leaf)
  | .number leaf => placeLeaf (.number leaf)
  | .null leaf => placeLeaf (.null leaf)
  | .param leaf => placeLeaf (.param leaf)
  | .name parts => do
    let ids ← placeParts parts
    place .name ids
  | .call function args => do
    let name ← placeLeaf (.id function)
    let ids ← placeExprs args
    place .call (name :: ids)
  | .unary op operand => do
    let id ← placeExpr operand
    place (.operation op) [id]
  | .binary op left right => do
    let l ← placeExpr left
    let r ← placeExpr right
    place (.operation op) [l, r]

/-- Adds several expressions. -/
def placeExprs : List (Expr TokenId) → StateM Tree (List NodeId)
  | [] => pure []
  | e :: es => do
    let id ← placeExpr e
    let ids ← placeExprs es
    pure (id :: ids)

end

/-- Adds the keyword of a naming, if it is written. -/
def placeKeyword (naming : Naming TokenId) : StateM Tree (List NodeId) :=
  match naming.keyword with
  | some keyword => do
    let id ← placeLeaf (.token keyword)
    pure [id]
  | none => pure []

/-- Adds an attribute. -/
def placeAttribute : Attribute TokenId → StateM Tree NodeId
  | .star leaf => do
    let id ← placeLeaf (.token leaf)
    place .star [id]
  | .starOf parts leaf => do
    let ids ← placeParts parts
    let group ← place .name ids
    let id ← placeLeaf (.token leaf)
    place .star [group, id]
  | .value e none => placeExpr e
  | .value e (some naming) => do
    let value ← placeExpr e
    let keyword ← placeKeyword naming
    let name ← placeLeaf (.id naming.name)
    place .renamed (value :: keyword ++ [name])

/-- Adds a source. -/
def placeSource (source : FromItem TokenId) : StateM Tree NodeId := do
  let ids ← placeParts source.parts
  match source.naming with
  | none => place .name ids
  | some naming =>
    let keyword ← placeKeyword naming
    let group ← place .name ids
    let name ← placeLeaf (.id naming.name)
    place .renamed (group :: keyword ++ [name])

/-- Adds the WHERE clause, if there is one. -/
def placeRestriction : Option (Restriction TokenId) → StateM Tree (List NodeId)
  | none => pure []
  | some restriction => do
    let keyword ← placeLeaf (.token restriction.keyword)
    let condition ← placeExpr restriction.condition
    let id ← place .where_ [keyword, condition]
    pure [id]

/-- Adds a statement. -/
def placeStatement (s : Statement TokenId) : StateM Tree NodeId := do
  let select ← placeLeaf (.token s.select)
  let attributes ← s.attributes.mapM placeAttribute
  let list ← place .attributes attributes
  let keyword ← placeLeaf (.token s.from_)
  let sources ← s.sources.mapM placeSource
  let from_ ← place .from_ (keyword :: sources)
  let where_ ← placeRestriction s.restriction
  place .select (select :: list :: from_ :: where_)

/-- The tree of a statement over its tokens. -/
def ofStatement (source : String) (tokens : Array Token) (s : Statement TokenId) : Tree :=
  let (select, t) := (placeStatement s).run (ofTokens source tokens)
  t.setRoot select

end Tree

end SelectEngine
