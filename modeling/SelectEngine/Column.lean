import SelectEngine.DataType

/-!
# Column descriptors
-/

set_option autoImplicit false

namespace SelectEngine

/-- What is known of a column of a source or of a result. -/
structure Column where
  name : String
  /-- The name of the type as the source spells it. -/
  typeName : String
  type : DataType
  /-- The largest size of a value, where the source knows it. -/
  size : Option Nat
  nullable : Bool
  precision : Option Nat
  scale : Option Nat
  /-- The source can filter by this column. -/
  searchable : Bool
deriving DecidableEq

namespace Column

/-- A nullable column that is not searchable, under the type's own name. -/
def ofType (name : String) (type : DataType) : Column :=
  { name, typeName := type.name, type, size := none, nullable := true, precision := none,
    scale := none, searchable := false }

/-- The same column under another name. -/
def rename (c : Column) (name : String) : Column := { c with name }

end Column

end SelectEngine
