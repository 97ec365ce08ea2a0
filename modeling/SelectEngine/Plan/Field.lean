import SelectEngine.Plan.Bound

/-!
# Output fields

A field is a column of the result: its name and type, where its value comes from, and the descriptor
under which it is announced. Name and type are kept beside the descriptor and always agree with it,
so that a field takes another name together with its descriptor.
-/

set_option autoImplicit false

namespace SelectEngine

/-- Where the value of a field comes from. -/
inductive FieldKind where
  /-- The same value on every row. -/
  | static (v : Value)
  /-- The value of a parameter, counted from one. -/
  | param (ordinal : Nat)
  | data (ref : ColumnRef)
  /-- The value of an expression, with the node that it was read from. -/
  | computed (node : NodeId) (expression : Bound)

/-- A column of the result. -/
structure Field where
  name : String
  type : DataType
  kind : FieldKind
  column : Column
  name_eq : name = column.name
  type_eq : type = column.type

namespace Field

/-- A field of one value, nullable if that is null. -/
def static (name : String) (v : Value) : Field where
  name
  type := v.type
  kind := .static v
  column := { Column.ofType name v.type with nullable := v.isNull }
  name_eq := rfl
  type_eq := rfl

/-- A field of a parameter, whose type is not known before it is bound to a value. -/
def param (name : String) (ordinal : Nat) : Field where
  name
  type := .null
  kind := .param ordinal
  column := Column.ofType name .null
  name_eq := rfl
  type_eq := rfl

/-- A field of a source's column, under the name, the type and the descriptor that the source
gives. -/
def data (ref : ColumnRef) : Field where
  name := ref.column.name
  type := ref.column.type
  kind := .data ref
  column := ref.column
  name_eq := rfl
  type_eq := rfl

/-- A field of an expression whose values have a type. -/
def computed (name : String) (type : DataType) (node : NodeId) (expression : Bound) : Field where
  name
  type
  kind := .computed node expression
  column := Column.ofType name type
  name_eq := rfl
  type_eq := rfl

/-- The same field, and its descriptor, under another name. -/
def rename (f : Field) (name : String) : Field :=
  { f with name, column := f.column.rename name, name_eq := rfl, type_eq := f.type_eq }

/-- The same field, with the expression that is read of its node if it has one. -/
def reread (read : NodeId → Bound) (f : Field) : Field :=
  match f.kind with
  | .computed node _ => { f with kind := .computed node (read node) }
  | _ => f

end Field

end SelectEngine
