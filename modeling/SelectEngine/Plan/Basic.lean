import SelectEngine.Plan.Selection

/-!
# Plans

A plan is a statement with everything found that it names: the sources of its FROM list, its
parameters in the order of the text, the fields of its SELECT list and the predicate of its WHERE
clause. `Plan.sourceNames` reads the FROM list alone, before any source is opened; `Plan.ofScope`
binds the rest against sources whose columns can be asked for.
-/

set_option autoImplicit false

namespace SelectEngine

/-- A statement bound to its sources. -/
structure Plan where
  tree : Tree
  /-- The sources in FROM order. -/
  sources : List SourceName
  /-- The parameters in the order of the text. -/
  params : List NodeId
  /-- The columns of the result. -/
  fields : List Field
  /-- What the names and calls inside expressions mean. -/
  resolution : Resolution
  /-- The condition of the WHERE clause, with its node. -/
  predicate : Option (NodeId × Bound)

namespace Plan

/-- The position of the source of an alias. -/
def source? (p : Plan) (aliasName : String) : Option Nat :=
  SourceName.position? p.sources aliasName

/-- The column that a name inside an expression means. -/
def column? (p : Plan) (id : NodeId) : Option ColumnRef := p.resolution.column? id

/-- The function that a call means. -/
def function? (p : Plan) (id : NodeId) : Option Function := p.resolution.function? id

/-- The expression of a node, read off what the names and calls of the whole statement mean. -/
def expression (p : Plan) (id : NodeId) : Bound :=
  p.resolution.expression p.tree p.params (p.tree.branch id)

/-- The position of the first field of a name, up to letter case. -/
def field? (p : Plan) (name : String) : Option Nat :=
  p.fields.findIdx? fun f => Text.sameName f.name name

/-- The parameters of a statement in the order of the text, each once. -/
def paramNodes (tree : Tree) (select : Branch) : List NodeId :=
  (select.preorder.filter fun id => (tree.kind id).type == .param).eraseDups

/-- The part of a statement that a clause is, or the failure of a statement without it. -/
def clause (b : Branch) (type : NodeType) (missing : String) : Except Error Branch :=
  match b.child? type with
  | some c => .ok c
  | none => .error (.internal missing)

/-- The statement of a tree. -/
def statement (tree : Tree) : Except Error Branch :=
  match tree.select? with
  | some id => .ok (tree.branch id)
  | none => .error (.internal "parse tree has no SELECT")

/-- The sources of the FROM list. -/
def sourceNames (tree : Tree) (select : Branch) : Except Error (List SourceName) := do
  let from_ ← clause select .from_ "SELECT without FROM"
  Branch.collect tree [] from_

variable {m : Type → Type} [Monad m] [MonadExceptOf Error m]

/-- The predicate of a WHERE clause, which is a truth or of a type that is not known. -/
def predicateOf (r : Resolver m) (condition : Branch) : StateT Resolution m (NodeId × Bound) := do
  let (e, t) ← r.typed condition
  if t = .null ∨ t = .boolean then pure (condition.id, e)
  else throw (.typeMismatch "BOOLEAN predicate" t.name)

/-- Finds what the parts of a statement mean whose sources are open. -/
def resolved (tree : Tree) (select : Branch) (scope : Scope m) (registry : Registry)
    (settings : Settings) : m Plan := do
  let params := paramNodes tree select
  let r : Resolver m := { tree, scope, registry, params, maxDepth := settings.maxDepth }
  let attributes ← relay (clause select .attributes "SELECT without attribute list")
  let ((), selection) ← (r.select settings attributes).run .empty
  let condition := (select.child? .where_).bind fun w => w.children.getLast?
  let (predicate, resolution) ← match condition with
    | none => pure (none, selection.resolution)
    | some b => do
      let (found, resolution) ← (predicateOf r b).run selection.resolution
      pure (some found, resolution)
  pure { tree, sources := scope.sources, params, fields := selection.fields, resolution, predicate }

/-- The plan that is evaluated: every expression as it is read off what was found in the end. -/
def settle (p : Plan) : Plan :=
  { p with
    fields := p.fields.map (Field.reread p.expression)
    predicate := p.predicate.map fun (node, _) => (node, p.expression node) }

/-- Binds a statement whose sources are open. -/
def ofScope (tree : Tree) (select : Branch) (scope : Scope m) (registry : Registry)
    (settings : Settings) : m Plan := do
  let p ← resolved tree select scope registry settings
  pure p.settle

end Plan

end SelectEngine
