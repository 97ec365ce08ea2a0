import SelectEngine.Plan.Field
import SelectEngine.Plan.Resolve
import SelectEngine.Settings

/-!
# Binding the SELECT list

Every attribute becomes one field, and a star one field for each column that it stands for. A field
that is no plain column is named by the alias around it, else by a generated name that counts the
fields without a name from one, in 32 bits.
-/

set_option autoImplicit false

namespace SelectEngine

/-- The fields found so far, and what the next one needs. -/
structure Selection where
  fields : List Field
  /-- The alias around the attribute at hand, until a field takes it. -/
  pending : Option String
  /-- The number of generated names. -/
  generated : UInt32
  resolution : Resolution

namespace Selection

/-- No field yet. -/
def empty : Selection := ⟨[], none, 0, .empty⟩

/-- Adds fields behind those found so far. -/
def add (s : Selection) (fields : List Field) : Selection :=
  { s with fields := s.fields ++ fields }

/-- The name of a field that is no plain column: the alias around it, or a generated one. -/
def nextName (settings : Settings) (s : Selection) : String × Selection :=
  match s.pending with
  | some name => (name, { s with pending := none })
  | none =>
    let n := s.generated + 1
    (settings.anonymousName n.toNat, { s with generated := n })

/-- Adds a field under the name that is its turn. -/
def addNamed (settings : Settings) (field : String → Field) (s : Selection) : Selection :=
  let (name, s) := s.nextName settings
  s.add [field name]

/-- Adds a column of a source under the alias around it, or else under its own name. -/
def addColumn (ref : ColumnRef) (s : Selection) : Selection :=
  match s.pending with
  | some name => { s with pending := none }.add [(Field.data ref).rename name]
  | none => s.add [Field.data ref]

end Selection

namespace Resolver

variable {m : Type → Type} [Monad m] [MonadExceptOf Error m]

/-- Adds the field of an expression. -/
def selectComputed (r : Resolver m) (settings : Settings) (b : Branch) :
    StateT Selection m Unit := do
  let s ← get
  let ((e, t), resolution) ← (r.typed b).run s.resolution
  set ({ s with resolution }.addNamed settings fun name => Field.computed name t b.id e)

/-- Adds the fields of a star. -/
def selectStar (r : Resolver m) (b : Branch) : StateT Selection m Unit := do
  let refs ← match b.child? .name with
    | some name => do
      let source ← relay (SourceName.find r.scope.sources (r.tree.nameParts name.id))
      r.scope.columnsOf source
    | none => r.scope.columnsOfAll (List.range r.scope.sources.length)
  modify fun s => s.add (refs.map Field.data)

mutual

/-- Adds the fields of an attribute. -/
def select (r : Resolver m) (settings : Settings) : Branch → StateT Selection m Unit
  | .node id kind children =>
    match kind with
    | .attributes => r.selectAll settings children
    | .star => r.selectStar (.node id kind children)
    | .renamed => do
      let (_, name) ← relay (Branch.renamedParts r.tree children)
      modify fun s => { s with pending := some name }
      r.selectFirst settings children
      modify fun s => { s with pending := none }
    | .text _ | .number _ | .null _ => do
      let v ← relay (r.tree.constant? id)
      modify (Selection.addNamed settings fun name => Field.static name (v.getD .null))
    | .name => do
      let ref ← r.scope.column (r.tree.nameParts id)
      modify (Selection.addColumn ref)
    | .param _ => do
      let ordinal ← r.numbered id
      modify (Selection.addNamed settings fun name => Field.param name ordinal)
    | .operation _ | .call => r.selectComputed settings (.node id kind children)
    | _ => throw (unhandled kind "AttrBinder")

/-- Adds the fields of several attributes in order. -/
def selectAll (r : Resolver m) (settings : Settings) : List Branch → StateT Selection m Unit
  | [] => pure ()
  | b :: bs => do
    r.select settings b
    r.selectAll settings bs

/-- Adds the fields of the first of several attributes. -/
def selectFirst (r : Resolver m) (settings : Settings) : List Branch → StateT Selection m Unit
  | [] => pure ()
  | b :: _ => r.select settings b

end

end Resolver

end SelectEngine
