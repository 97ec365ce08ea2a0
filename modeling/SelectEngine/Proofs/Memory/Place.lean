import SelectEngine.Memory.Backend
import SelectEngine.Proofs.Answer
import SelectEngine.Proofs.Correspondence.Evaluation
import SelectEngine.Proofs.Session.Driven

/-!
# Open sources over tables in memory

A `Place` is a source that is open on the table its name means, and a session whose sources are all
open is `session` of their places. The operations of a source only move its place, so that no other
kind of session arises from one (`first_apply`, `next_apply`, `reset_apply`, `eof_apply`), and
reading leaves it as it is (`atRest_column`).
-/

set_option autoImplicit false

namespace SelectEngine.Memory

/-- A source that is open on the table that its name means. -/
structure Place (catalog : Catalog) where
  name : SourceName
  table : Table
  found : catalog.lookup name.table = some table
  /-- The number of rows in front of the current one. -/
  position : Nat

namespace Place

variable {catalog : Catalog}

/-- The source that stands at a place. -/
def source (p : Place catalog) : Source Scan :=
  { aliasName := p.name.aliasName, name := p.name.table, isOpen := true,
    provider := { catalog, table := some p.table, position := p.position } }

/-- The rows of the table and the number of the current one. -/
def entry (p : Place catalog) : List (List Value) × Nat := (p.table.rows, p.position)

/-- On the first row. -/
def rewound (p : Place catalog) : Place catalog := { p with position := 0 }

/-- On the next row, or behind the last one. -/
def advanced (p : Place catalog) : Place catalog :=
  { p with position := if p.position < p.table.rowCount then p.position + 1 else p.position }

/-- Behind the last row. -/
def ended (p : Place catalog) : Bool := decide (p.table.rowCount ≤ p.position)

@[simp] theorem entry_rewound (p : Place catalog) : p.rewound.entry = (p.table.rows, 0) := rfl

/-- A place on a row moves behind it. -/
theorem entry_advanced {p : Place catalog} (h : p.position < p.table.rowCount) :
    p.advanced.entry = (p.table.rows, p.position + 1) := by
  simp [advanced, entry, h]

theorem ended_eq_false_iff (p : Place catalog) :
    p.ended = false ↔ p.position < p.table.rows.length := by
  rw [ended, decide_eq_false_iff_not, Nat.not_le]
  exact Iff.rfl

theorem ended_rewound_eq_false_iff (p : Place catalog) :
    p.rewound.ended = false ↔ p.table.rows ≠ [] :=
  p.rewound.ended_eq_false_iff.trans List.length_pos_iff

theorem position_advanced {p : Place catalog} (h : p.position < p.table.rowCount) :
    p.advanced.position = p.position + 1 := if_pos h

/-- A place that runs out is behind all rows of its table. -/
theorem position_of_ended {p : Place catalog} (h : p.position < p.table.rowCount)
    (hended : p.advanced.ended = true) : p.advanced.position = p.table.rowCount := by
  have hle : p.table.rowCount ≤ p.advanced.position := of_decide_eq_true hended
  rw [position_advanced h] at hle ⊢
  exact Nat.le_antisymm h hle

theorem first_apply (p : Place catalog) :
    Source.first (backend catalog) (p.source, ()) = .ok () (p.rewound.source, ()) := rfl

theorem next_apply (p : Place catalog) :
    Source.next (backend catalog) (p.source, ()) = .ok () (p.advanced.source, ()) := by
  by_cases h : p.position < p.table.rowCount
  · simp [Source.next, Source.ask, Run.bind_apply, backend, Scan.answer, Scan.next, Scan.opened,
      source, advanced, h]
  · simp [Source.next, Source.ask, Run.bind_apply, backend, Scan.answer, Scan.next, Scan.opened,
      source, advanced, h]

theorem eof_apply (p : Place catalog) :
    Source.eof (backend catalog) (p.source, ()) = .ok p.ended (p.source, ()) := rfl

/-- Closing and opening a source finds the same table again. -/
theorem reset_apply (p : Place catalog) :
    Source.reset (backend catalog) (p.source, ()) = .ok () (p.rewound.source, ()) := by
  simp [Source.reset, Source.close, Source.openTable, Source.first, Source.ask, Run.bind_apply,
    backend, Scan.answer, Scan.openTable, Scan.closed, Scan.first, Scan.opened, source, rewound,
    p.found]

end Place

variable {catalog : Catalog}

/-- The session whose sources stand at the given places. -/
def session (places : List (Place catalog)) : Session Scan Unit := ⟨places.map Place.source, ()⟩

/-- The tables of the places with their current rows. -/
def entries (places : List (Place catalog)) : List (List (List Value) × Nat) :=
  places.map Place.entry

@[simp] theorem entries_append (front back : List (Place catalog)) :
    entries (front ++ back) = entries front ++ entries back :=
  List.map_append

/-- What a source does is done at its place. -/
theorem at_session {α : Type} {x : Run (Source Scan × Unit) α} {front back : List (Place catalog)}
    {p q : Place catalog} {a : α} (h : x (p.source, ()) = .ok a (q.source, ())) :
    Session.at_ front.length x (session (front ++ p :: back)) =
      .ok a (session (front ++ q :: back)) := by
  have hget : (session (front ++ p :: back)).sources[front.length]? = some p.source := by
    simp [session]
  have hset : (session (front ++ p :: back)).sources.set front.length q.source =
      (session (front ++ q :: back)).sources := by
    simp [session]
  rw [Session.at_apply_ok hget h, hset]

theorem Place.column_apply {p : Place catalog} {row : List Value}
    (h : p.table.rows[p.position]? = some row) (position : Nat) :
    Source.column (backend catalog) position (p.source, ()) =
      (relay (cellOf row position) : Run _ _) (p.source, ()) := by
  have hwidth : row.length = p.table.columns.length := p.table.width row (List.mem_of_getElem? h)
  have hread : p.source.provider.column position = cellOf row position := by
    cases hv : row[position]? with
    | none => simp [Scan.column, Place.source, Scan.opened, cellOf, hwidth, h, hv]
    | some v => simp [Scan.column, Place.source, Scan.opened, cellOf, h, hv]
  simp only [Source.column, Source.ask, Run.bind_apply]
  show (relay (p.source.provider.column position) : Run _ _) _ = _
  rw [hread]
  rfl

/-- The row of a source in the current combined row is the one that the source stands on. -/
theorem exists_row {places : List (Place catalog)} (h : AllInside (entries places)) {n : Nat}
    {p : Place catalog} (hp : places[n]? = some p) :
    ∃ row, p.table.rows[p.position]? = some row ∧
      (combination (entries places))[n]? = some row := by
  have hin : p.position < p.table.rows.length :=
    h p.entry (List.mem_map_of_mem (List.mem_of_getElem? hp))
  have hget : p.table.rows[p.position]? = some p.table.rows[p.position] :=
    List.getElem?_eq_getElem hin
  refine ⟨_, hget, ?_⟩
  rw [getElem?_combination h, entries, List.getElem?_map, hp]
  exact hget

/-- Reading a column finds the value in the current combined row and moves nothing. -/
theorem atRest_column {places : List (Place catalog)} (h : AllInside (entries places))
    (source position : Nat) :
    (Correspondence.atRest (session places)).rel
      (Session.at_ source (Source.column (backend catalog) position))
      (columnOf (combination (entries places)) source position) := by
  show Session.at_ source (Source.column (backend catalog) position) (session places) = _
  cases hp : places[source]? with
  | none =>
    have hrow := getElem?_combination h source
    rw [entries, List.getElem?_map, hp] at hrow
    have hnone : (session places).sources[source]? = none := by simp [session, hp]
    rw [Session.at_apply_none hnone, columnOf, entries, hrow]
    rfl
  | some p =>
    obtain ⟨row, hget, hcurrent⟩ := exists_row h hp
    have hsome : (session places).sources[source]? = some p.source := by simp [session, hp]
    have hcolumn : columnOf (combination (entries places)) source position =
        cellOf row position := by
      rw [columnOf, hcurrent]
    rw [hcolumn]
    exact Session.at_apply_relay hsome (p.column_apply hget position)

end SelectEngine.Memory
