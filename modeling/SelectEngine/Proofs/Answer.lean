import SelectEngine.Proofs.Evaluation
import SelectEngine.Memory.Catalog
import SelectEngine.Plan.Basic
import SelectEngine.Proofs.Product

/-!
# The answer to a statement

What a statement means over tables in memory, said without a cursor: the combinations of the rows of
its sources in lexicographic order, those kept that satisfy the WHERE clause, and of each kept one
the values of the fields. The first failure, in that order, is the failure of the whole
(`Plan.answer`).
-/

set_option autoImplicit false

namespace SelectEngine

/-- The rows of the sources that stand side by side in the product. -/
abbrev CombinedRow := List (List Value)

/-- The value at a position of a row. -/
def cellOf (row : List Value) (position : Nat) : Except Error Value :=
  match row[position]? with
  | some v => .ok v
  | none => .error (.columnOutOfRange position row.length)

/-- The value of a column of a source in a combined row. -/
def columnOf (rows : CombinedRow) (source position : Nat) : Except Error Value :=
  match rows[source]? with
  | some row => cellOf row position
  | none => .error (.internal s!"field bound to missing source {source}")

/-- The surroundings of an expression on a combined row. -/
def Environment.onRows (settings : Settings) (params : Params) (rows : CombinedRow) :
    Environment (Except Error) where
  column := columnOf rows
  params := params
  nulls := settings.nulls
  maxDepth := settings.maxDepth

/-- The value of a field. -/
def Field.eval (env : Environment (Except Error)) (f : Field) : Except Error Value :=
  match f.kind with
  | .static v => .ok v
  | .param ordinal => .ok (env.params.value ordinal)
  | .data ref => env.column ref.source ref.position
  | .computed _ e => e.eval env 0

theorem Field.eval_of_computed {env : Environment (Except Error)} {node : NodeId} {e : Bound}
    (f : Field) (h : f.kind = .computed node e) : f.eval env = e.eval env 0 := by
  rw [Field.eval, h]

/-- The values of several fields, from left to right. -/
def Field.evalAll (env : Environment (Except Error)) : List Field → Except Error (List Value)
  | [] => .ok []
  | f :: fs => do
    let v ← f.eval env
    let vs ← Field.evalAll env fs
    .ok (v :: vs)

namespace Plan

/-- The WHERE clause holds: it is absent or true, and null does not count as true. -/
def holds (p : Plan) (env : Environment (Except Error)) : Except Error Bool :=
  match p.predicate with
  | none => .ok true
  | some (_, predicate) => do
    match ← predicate.eval env 0 with
    | .bool b => .ok b
    | .null => .ok false
    | v => .error (v.mismatch "BOOLEAN predicate")

/-- The rows that a plan makes of combined rows. -/
def rowsOf (p : Plan) (settings : Settings) (params : Params) :
    List CombinedRow → Except Error (List (List Value))
  | [] => .ok []
  | rows :: rest => do
    let env := Environment.onRows settings params rows
    if ← p.holds env then
      let row ← Field.evalAll env p.fields
      let later ← p.rowsOf settings params rest
      .ok (row :: later)
    else p.rowsOf settings params rest

/-- The rows of the table that a source names. -/
def tableRows (catalog : Memory.Catalog) (source : SourceName) : List (List Value) :=
  match catalog.lookup source.table with
  | some table => table.rows
  | none => []

/-- The rows of a statement over the tables of a catalog. -/
def answer (p : Plan) (catalog : Memory.Catalog) (settings : Settings) (params : Params) :
    Except Error (List (List Value)) :=
  p.rowsOf settings params (product (p.sources.map (tableRows catalog)))

/-- A statement one of whose sources has no rows has no rows, and evaluates nothing. -/
theorem answer_eq_nil {p : Plan} {catalog : Memory.Catalog} {settings : Settings} {params : Params}
    (h : ∃ source ∈ p.sources, tableRows catalog source = []) :
    p.answer catalog settings params = .ok [] := by
  obtain ⟨source, hsource, hempty⟩ := h
  have hproduct : product (p.sources.map (tableRows catalog)) = [] :=
    product_eq_nil (List.mem_map.mpr ⟨source, hsource, hempty⟩)
  rw [answer, hproduct, rowsOf]

end Plan

end SelectEngine
