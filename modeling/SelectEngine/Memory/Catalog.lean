import SelectEngine.Column
import SelectEngine.Keyed
import SelectEngine.TableName
import SelectEngine.Text.Ascii
import SelectEngine.Value

/-!
# Tables in memory

A table is its column descriptors and its rows, every row with one value for each column.

A catalog holds at most one table under each full name. A table is looked up by a name that may omit
qualifiers and ignores ASCII letter case; it is found if exactly one table is meant.
-/

set_option autoImplicit false

namespace SelectEngine.Memory

/-- A table held in memory. -/
structure Table where
  columns : List Column
  rows : List (List Value)
  /-- Every row has one value for each column. -/
  width : ∀ row ∈ rows, row.length = columns.length

namespace Table

/-- A table without rows. -/
def ofColumns (columns : List Column) : Table := ⟨columns, [], by simp⟩

/-- The failure of a row with too few or too many values. -/
def wrongWidth (row : List Value) (columns : List Column) : Error :=
  .provider s!"row has {row.length} values, table has {columns.length} columns"

/-- The table with the given rows, or the failure of the first that does not fit. -/
def ofRows (columns : List Column) (rows : List (List Value)) : Except Error Table :=
  match h : rows.find? fun row => row.length != columns.length with
  | some row => .error (wrongWidth row columns)
  | none =>
    .ok ⟨columns, rows, by
      intro row hr
      simpa using List.find?_eq_none.mp h row hr⟩

/-- The table with one more row at its end. -/
def push (t : Table) (row : List Value) : Except Error Table :=
  if h : row.length = t.columns.length then
    .ok ⟨t.columns, t.rows ++ [row], by
      intro r hr
      rcases List.mem_append.mp hr with hr | hr
      · exact t.width r hr
      · rw [List.mem_singleton.mp hr]
        exact h⟩
  else .error (wrongWidth row t.columns)

def rowCount (t : Table) : Nat := t.rows.length

/-- The position of the first column of a name, up to ASCII letter case. -/
def columnId? (t : Table) (name : String) : Option Nat :=
  t.columns.findIdx? fun c => Text.sameName c.name name

end Table

/-! ## Catalogs -/

/-- Tables by name. -/
structure Catalog where
  entries : List (TableName × Table)

namespace Catalog

/-- A catalog of no tables. -/
def empty : Catalog := ⟨[]⟩

/-- The table registered under exactly a name. -/
def get? (c : Catalog) (name : TableName) : Option Table := c.entries.lookup name

/-- Registers a table in place of the one with its name. -/
def register (c : Catalog) (name : TableName) (table : Table) : Catalog :=
  ⟨Keyed.put name table c.entries⟩

/-- The one table that a name means. -/
def lookup (c : Catalog) (name : TableName) : Option Table :=
  match c.entries.filter fun (have_, _) => name.means have_ with
  | [(_, table)] => some table
  | _ => none

def size (c : Catalog) : Nat := c.entries.length

/-- The number of rows of the largest table. -/
def largest (c : Catalog) : Nat := (c.entries.map fun (_, table) => table.rowCount).foldl max 0

/-- A full name has the table registered last under it. -/
theorem get?_register (c : Catalog) (name : TableName) (table : Table) (other : TableName) :
    (c.register name table).get? other = if other = name then some table else c.get? other :=
  Keyed.lookup_put name other table c.entries

end Catalog

end SelectEngine.Memory
