import SelectEngine.Memory.Catalog
import SelectEngine.Proofs.Answer
import SelectEngine.Proofs.Ordinary.Operation

/-!
# Sound expressions fail ordinarily

An expression is sound over tables if nothing in it is out of place: its columns are columns of the
tables, its operators have the operands that they take, its functions and literals fail ordinarily,
and everything in it is an expression. The type of a sound expression is found, and its value on
rows as wide as the tables, or they fail ordinarily (`Bound.Sound.type`, `Bound.Sound.eval`), and so
does the answer of a plan of sound expressions (`Plan.Sound.answer`).
-/

set_option autoImplicit false

namespace SelectEngine

open Memory

variable {tables : List Table} {settings : Settings} {params : Params} {rows : CombinedRow}

/-! ## Columns -/

/-- There is such a source, with such a column. -/
def Memory.HasColumn (tables : List Table) (source position : Nat) : Prop :=
  ∃ table, tables[source]? = some table ∧ position < table.columns.length

/-- The column is one of the tables'. -/
def ColumnRef.Within (tables : List Table) (ref : ColumnRef) : Prop :=
  HasColumn tables ref.source ref.position

/-- The rows are as many as the tables, and each as wide as its table. -/
def Memory.SameWidths (rows : CombinedRow) (tables : List Table) : Prop :=
  rows.map List.length = tables.map fun table => table.columns.length

/-- The rows of a combination are as wide as the tables that they are from. -/
theorem Memory.sameWidths_of_mem_product (h : rows ∈ product (tables.map Table.rows)) :
    SameWidths rows tables := by
  induction tables generalizing rows with
  | nil =>
    cases List.mem_singleton.mp h
    rfl
  | cons table tables ih =>
    obtain ⟨row, hrow, hrest⟩ := List.mem_flatMap.mp h
    obtain ⟨others, hothers, rfl⟩ := List.mem_map.mp hrest
    have hwidth : row.length = table.columns.length := table.width row hrow
    rw [SameWidths, List.map_cons, List.map_cons, hwidth, ih hothers]

theorem ordinarily_columnOf (hrows : SameWidths rows tables) {ref : ColumnRef}
    (h : ref.Within tables) :
    Ordinarily (columnOf rows ref.source ref.position) fun _ => True := by
  obtain ⟨table, htable, hposition⟩ := h
  -- The source has a row, which is wide enough.
  have hwidth := congrArg (fun widths => widths[ref.source]?) hrows
  simp only [List.getElem?_map, htable, Option.map_some, Option.map_eq_some_iff] at hwidth
  obtain ⟨row, hrow, hlength⟩ := hwidth
  have hcell : ref.position < row.length := by
    rw [hlength]
    exact hposition
  rw [columnOf, hrow]
  dsimp only
  rw [cellOf, List.getElem?_eq_getElem hcell]
  trivial

/-! ## Expressions -/

namespace Bound

mutual

/-- Nothing in the expression is out of place over the tables. -/
def Sound (tables : List Table) : Bound → Prop
  | literal reading => Ordinarily reading fun _ => True
  | param _ => True
  | column ref => ref.Within tables
  | call function args => function.Ordinary ∧ AllSound tables args
  | operation op operands => operands.length = op.arity ∧ AllSound tables operands
  | unbound _ _ | other _ => False

def AllSound (tables : List Table) : List Bound → Prop
  | [] => True
  | e :: es => e.Sound tables ∧ AllSound tables es

end

mutual

theorem Sound.type : ∀ e : Bound, e.Sound tables → Ordinarily e.type fun _ => True
  | literal reading, h => by
    rw [Bound.type]
    exact ordinarily_map h
  | param _, _ => trivial
  | column _, _ => trivial
  | call function args, h => by
    rw [Bound.type]
    apply ordinarily_bind (AllSound.types args h.2)
    intro ts _
    exact ordinarily_ok trivial
  | operation op operands, h => by
    rw [Bound.type]
    apply ordinarily_bind (AllSound.types operands h.2)
    intro ts hts
    exact (Operator.onValues_resultType (hts.trans h.1)).ordinarily
  | unbound _ _, h | other _, h => h.elim

theorem AllSound.types : ∀ es : List Bound, AllSound tables es →
    Ordinarily (Bound.types es) fun ts => ts.length = es.length
  | [], _ => rfl
  | e :: es, h => by
    rw [Bound.types]
    apply ordinarily_bind (Sound.type e h.1)
    intro t _
    apply ordinarily_bind (AllSound.types es h.2)
    intro ts hts
    exact ordinarily_ok (congrArg Nat.succ hts)

end

mutual

/-- The value of a sound expression on rows as wide as the tables. -/
theorem Sound.eval (hrows : SameWidths rows tables) (depth : Nat) : ∀ e : Bound, e.Sound tables →
    Ordinarily (e.eval (.onRows settings params rows) depth) fun _ => True
  | literal reading, h => by
    rw [Bound.eval]
    exact ordinarily_relay h
  | param _, _ => ordinarily_ok trivial
  | column ref, h => ordinarily_columnOf hrows h
  | call function args, h => by
    rw [Bound.eval]
    apply ordinarily_bind (AllSound.evalAll hrows depth args h.2)
    intro values _
    exact ordinarily_relay (h.1 values)
  | operation op operands, h => by
    rw [Bound.eval, if_pos h.1]
    apply ordinarily_bind (AllSound.evalAll hrows depth operands h.2)
    intro values hvalues
    exact ordinarily_relay (op.onValues_apply _ (hvalues.trans h.1)).ordinarily
  | unbound _ _, h | other _, h => h.elim

theorem AllSound.evalAll (hrows : SameWidths rows tables) (depth : Nat) :
    ∀ es : List Bound, AllSound tables es →
      Ordinarily (Bound.evalAll (.onRows settings params rows) depth es) fun values =>
        values.length = es.length
  | [], _ => rfl
  | e :: es, h => by
    rw [Bound.evalAll]
    split
    · exact ordinarily_error trivial
    · apply ordinarily_bind (Sound.eval hrows (depth + 1) e h.1)
      intro v _
      apply ordinarily_bind (AllSound.evalAll hrows depth es h.2)
      intro values hvalues
      exact ordinarily_ok (congrArg Nat.succ hvalues)

end

end Bound

/-! ## Fields and plans -/

/-- The value of the field is found by a sound expression, if it is found by one. -/
def Field.Sound (tables : List Table) (f : Field) : Prop :=
  match f.kind with
  | .static _ | .param _ => True
  | .data ref => ref.Within tables
  | .computed _ e => e.Sound tables

theorem Field.Sound.eval {f : Field} (hrows : SameWidths rows tables) (h : f.Sound tables) :
    Ordinarily (f.eval (.onRows settings params rows)) fun _ => True := by
  obtain ⟨name, type, kind, column, hname, htype⟩ := f
  cases kind with
  | static v => exact ordinarily_ok trivial
  | param ordinal => exact ordinarily_ok trivial
  | data ref => exact ordinarily_columnOf hrows h
  | computed node e => exact Bound.Sound.eval hrows 0 e h

theorem Field.ordinarily_evalAll (hrows : SameWidths rows tables) {fields : List Field}
    (h : ∀ f ∈ fields, f.Sound tables) :
    Ordinarily (Field.evalAll (.onRows settings params rows) fields) fun _ => True := by
  induction fields with
  | nil => exact ordinarily_ok trivial
  | cons f fields ih =>
    obtain ⟨hf, hfields⟩ := List.forall_mem_cons.mp h
    rw [Field.evalAll]
    apply ordinarily_bind (hf.eval hrows)
    intro v _
    exact ordinarily_bind (ih hfields) fun _ _ => ordinarily_ok trivial

/-- The fields and the predicate of the plan are sound over the tables. -/
structure Plan.Sound (p : Plan) (tables : List Table) : Prop where
  fields : ∀ f ∈ p.fields, f.Sound tables
  predicate : ∀ found ∈ p.predicate, found.2.Sound tables

namespace Plan.Sound

variable {p : Plan}

theorem holds (h : p.Sound tables) (hrows : SameWidths rows tables) :
    Ordinarily (p.holds (.onRows settings params rows)) fun _ => True := by
  rw [Plan.holds]
  cases hp : p.predicate with
  | none => exact ordinarily_ok trivial
  | some found =>
    apply ordinarily_bind (Bound.Sound.eval hrows 0 found.2 (h.predicate found hp))
    intro v _
    cases v <;> trivial

theorem rowsOf (h : p.Sound tables) {combined : List CombinedRow}
    (hcombined : ∀ rows ∈ combined, SameWidths rows tables) :
    Ordinarily (p.rowsOf settings params combined) fun _ => True := by
  induction combined with
  | nil => exact ordinarily_ok trivial
  | cons rows rest ih =>
    obtain ⟨hrows, hrest⟩ := List.forall_mem_cons.mp hcombined
    rw [Plan.rowsOf]
    apply ordinarily_bind (h.holds hrows)
    intro kept _
    cases kept with
    | false => exact ih hrest
    | true =>
      apply ordinarily_bind (Field.ordinarily_evalAll hrows h.fields)
      intro row _
      exact ordinarily_bind (ih hrest) fun _ _ => ordinarily_ok trivial

/-- The answer of a plan that is sound over the tables of its sources. -/
theorem answer {catalog : Catalog} (h : p.Sound tables)
    (htables : p.sources.map (tableRows catalog) = tables.map Table.rows) :
    Ordinarily (p.answer catalog settings params) fun _ => True := by
  apply h.rowsOf
  intro rows hrows
  rw [htables] at hrows
  exact sameWidths_of_mem_product hrows

end Plan.Sound

end SelectEngine
