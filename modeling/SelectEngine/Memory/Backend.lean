import SelectEngine.Backend
import SelectEngine.Memory.Catalog

/-!
# The backend of tables in memory

A provider over a catalog is closed, or stands on a row of a table or behind the last one. Providers
share nothing.
-/

set_option autoImplicit false

namespace SelectEngine.Memory

/-- A reader of the tables of a catalog. -/
structure Scan where
  catalog : Catalog
  /-- The table that is open. -/
  table : Option Table
  /-- The number of rows in front of the current one. -/
  position : Nat

namespace Scan

/-- A reader that is not open. -/
def closed (catalog : Catalog) : Scan := ⟨catalog, none, 0⟩

/-- The table that is open, or the failure of a reader that is closed. -/
def opened (s : Scan) : Except Error Table :=
  match s.table with
  | some table => .ok table
  | none => .error (.provider "memory provider is not open")

/-- Binds the reader to the table that a name means. -/
def openTable (s : Scan) (mode : OpenMode) (name : TableName) : Except Error Unit × Scan :=
  match mode with
  | .write => (.error .readOnly, s)
  | .read =>
    match s.catalog.lookup name with
    | some table => (.ok (), { s with table := some table, position := 0 })
    | none => (.error (.noSuchTable name.text), s)

/-- Goes to the first row. -/
def first (s : Scan) : Except Error Unit × Scan :=
  match s.opened with
  | .ok _ => (.ok (), { s with position := 0 })
  | .error e => (.error e, s)

/-- Goes to the next row, or behind the last one and no further. -/
def next (s : Scan) : Except Error Unit × Scan :=
  match s.opened with
  | .ok table =>
    (.ok (), if s.position < table.rowCount then { s with position := s.position + 1 } else s)
  | .error e => (.error e, s)

/-- Stands behind the last row, or is closed. -/
def eof (s : Scan) : Bool :=
  match s.table with
  | some table => decide (table.rowCount ≤ s.position)
  | none => true

def columnCount (s : Scan) : Nat :=
  match s.table with
  | some table => table.columns.length
  | none => 0

def columnId? (s : Scan) (name : String) : Option Nat := s.table.bind fun t => t.columnId? name

/-- The value of a column of the current row. -/
def column (s : Scan) (position : Nat) : Except Error Value := do
  let table ← s.opened
  match table.rows[s.position]? with
  | none => .error (.provider "memory provider is at EOF")
  | some row =>
    match row[position]? with
    | some v => .ok v
    | none => .error (.columnOutOfRange position table.columns.length)

/-- The descriptor of a column. -/
def describe (s : Scan) (position : Nat) : Except Error Column := do
  let table ← s.opened
  match table.columns[position]? with
  | some c => .ok c
  | none => .error (.columnOutOfRange position table.columns.length)

/-- The answer to a call. -/
def answer (s : Scan) : (call : Call) → call.Answer × Scan
  | .openTable mode name => s.openTable mode name
  | .first => s.first
  | .next => s.next
  | .close => (.ok (), closed s.catalog)
  | .eof => (s.eof, s)
  | .columnCount => (s.columnCount, s)
  | .columnId name => (s.columnId? name, s)
  | .column position => (s.column position, s)
  | .describe position => (s.describe position, s)

end Scan

/-- The backend that serves the tables of a catalog. -/
def backend (catalog : Catalog) : Backend Scan Unit where
  create _ world := (.ok (Scan.closed catalog), world)
  answer call s world :=
    let (a, s) := s.answer call
    (a, s, world)
  rowLimit := catalog.largest

end SelectEngine.Memory
