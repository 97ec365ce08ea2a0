import SelectEngine.Proofs.Cursor.Fresh
import SelectEngine.Proofs.Plan.Agreement
import SelectEngine.Proofs.Typing.Described

/-!
# Values of output columns fit their descriptors

Over tables whose values are null or of the types of their columns, an output column has values that
are null or of the type that its descriptor announces, if that type is settled: if the parameters
and the arguments that a function chooses from do not bring in another one (`Memory.column_fits`).
For expressions that read no parameter and choose between no arguments this is always so. The
condition cannot be left out: the sum of a parameter and an integer is announced as an integer, and
is a double if the parameter is one (`Memory.column_not_fits_sum`).
-/

set_option autoImplicit false

namespace SelectEngine.Memory

/-- Every value is null or of the type of its column. -/
def Table.Typed (table : Table) : Prop :=
  ∀ row ∈ table.rows, List.Forall₂ (fun v column => v.Fits column.type) row table.columns

def Catalog.Typed (catalog : Catalog) : Prop := ∀ entry ∈ catalog.entries, entry.2.Typed

variable {catalog : Catalog} {settings : Settings}

theorem Table.Typed.fits {table : Table} (h : table.Typed) {row : List Value}
    (hrow : row ∈ table.rows) {position : Nat} {v : Value} {column : Column}
    (hv : row[position]? = some v) (hcolumn : table.columns[position]? = some column) :
    v.Fits column.type := by
  obtain ⟨-, hpairs⟩ := List.forall₂_iff_zip.mp (h row hrow)
  refine hpairs (List.mem_of_getElem? (i := position) ?_)
  rw [List.getElem?_zip_eq_some]
  exact ⟨hv, hcolumn⟩

/-- The places of sources are on the tables that the sources name. -/
theorem tablesNamed_places (places : List (Place catalog)) :
    tablesNamed catalog (places.map Place.name) = .ok (places.map Place.table) := by
  induction places with
  | nil => rfl
  | cons p places ih =>
    rw [List.map_cons, List.map_cons, tablesNamed, p.found]
    dsimp only
    rw [ih]
    rfl

/-- Columns of typed tables have values of their types on the current combined row. -/
theorem fits_of_columnOf (htyped : catalog.Typed) {places : List (Place catalog)}
    (hin : AllInside (entries places)) {ref : ColumnRef}
    (href : ref.DescribedBy (places.map Place.table)) {v : Value}
    (hv : columnOf (combination (entries places)) ref.source ref.position = .ok v) :
    v.Fits ref.column.type := by
  obtain ⟨table, htable, hcolumn⟩ := href
  rw [List.getElem?_map] at htable
  obtain ⟨p, hp, rfl⟩ := Option.map_eq_some_iff.mp htable
  obtain ⟨row, hrow, hcurrent⟩ := exists_row hin hp
  rw [columnOf, hcurrent] at hv
  dsimp only at hv
  obtain ⟨name, hmem⟩ := Catalog.exists_mem_of_lookup p.found
  unfold cellOf at hv
  split at hv
  · next w hw =>
    cases hv
    exact (htyped _ hmem).fits (List.mem_of_getElem? hrow) hw hcolumn
  · cases hv

/-! ## Output columns -/

/-- The output column of a position. -/
def output? (c : Cursor Scan Unit) (n : Nat) : Option Output :=
  (c.plan.bind fun plan => plan.fields[n]?).map Field.output

/-- The output columns of a plan have the types of their expressions, which read columns of the
tables of its sources. -/
theorem described_of_ofText {registry : Registry} {text : String} {plan : Plan}
    {places : List (Place catalog)} (hplan : Plan.ofText catalog registry settings text = .ok plan)
    (hnames : places.map Place.name = plan.sources) {n : Nat} {field : Field}
    (hfield : plan.fields[n]? = some field) :
    field.output.Described (places.map Place.table) registry := by
  obtain ⟨tree, ts, s, -, hmeaning⟩ := Plan.exists_meaning_of_ofText hplan
  obtain ⟨tables, htables, hdescribed⟩ := Statement.described_meaning hmeaning
  have hsources : plan.meaning.sources = places.map Place.name := hnames.symm
  rw [hsources, tablesNamed_places] at htables
  cases htables
  exact hdescribed field.output (List.mem_map_of_mem (List.mem_of_getElem? hfield))

/-- A described expression is read to a value of its column's type on the current combined row, if
its type is settled. -/
theorem fits_of_described (htyped : catalog.Typed) {places : List (Place catalog)}
    (hin : AllInside (entries places)) {o : Output} {params : Params} {depth : Nat} {v : Value}
    (hdescribed : o.Described (places.map Place.table) .withBuiltins)
    (hsettled : o.expression.Determined ∨ o.expression.Settled params o.column.type)
    (hread : o.expression.eval (surroundings settings params places) depth = .ok v) :
    v.Fits o.column.type := by
  have hbuiltins : ∀ f ∈ o.expression.functions, f ∈ Function.builtins := fun f hf =>
    Registry.mem_of_mem_ofList (hdescribed.present.functions f hf)
  have hall : o.expression.Settled params o.column.type :=
    hsettled.elim (fun h => h.settled _ _ hbuiltins hdescribed.type) id
  have hcolumns : ∀ ref ∈ o.expression.columns, ∀ w,
      columnOf (combination (entries places)) ref.source ref.position = .ok w →
        w.Fits ref.column.type := fun ref href w hw =>
    fits_of_columnOf htyped hin (hdescribed.present.columns ref href) hw
  exact hall.fits hcolumns (fun f hf => Function.builtins_truthful f (hbuiltins f hf)) hread

/-- The values of an output column are null or of the type that its descriptor announces, on every
row that a scan reaches. The values in the tables are null or of the types of their columns, and the
type of the expression is settled: it reads no parameter and does not choose between arguments, or
the types that its parts may have when they are read do not lead to another one. -/
theorem column_fits {text : String} {c : Cursor Scan Unit} {requests : List Cursor.Request}
    {n : Nat} {o : Output} {d : Column} {v : Value} (htyped : catalog.Typed)
    (hprepare : Cursor.prepare (backend catalog) .withBuiltins settings text () = .ok c)
    (houtput : output? c n = some o)
    (hdescribe : (Cursor.describe n).outcome (c.after (backend catalog) requests) = .ok d)
    (hread : (Cursor.column (backend catalog) n).outcome (c.after (backend catalog) requests) =
      .ok v)
    (hsettled : o.expression.Determined ∨ o.expression.Settled (Cursor.latest requests) d.type) :
    v.Fits d.type := by
  cases hplan : Plan.ofText catalog .withBuiltins settings text with
  | error e =>
    rw [prepare_of_error hplan] at hprepare
    cases hprepare
  | ok plan =>
    obtain ⟨c', places, hprepare', -, hrunning⟩ := prepare_of_plan hplan
    obtain rfl : c' = c := Except.ok.inj (hprepare'.symm.trans hprepare)
    obtain ⟨field, hfield, rfl⟩ := Option.map_eq_some_iff.mp houtput
    rw [hrunning.plan_eq, Option.bind_some] at hfield
    have hpos : (c'.after (backend catalog) requests).state = .positioned := by
      by_contra hne
      rw [Run.outcome_of_error (Cursor.column_of_ne _ n hne)] at hread
      cases hread
    rcases Standing.after (Or.inr ⟨places, hrunning⟩) requests with hclosed | ⟨others, hafter⟩
    · rw [hclosed] at hpos
      cases hpos
    -- The descriptor is that of the field, and the value that of its expression on the current row.
    obtain rfl : field.column = d := by
      rw [Cursor.describe, Run.outcome_bind_of_ok (Cursor.planFor_of_some hafter.plan_eq),
        hfield] at hdescribe
      exact Except.ok.inj hdescribe
    -- It is read with the parameters of the last execution, for which its type is settled.
    obtain ⟨cache, hrun, -⟩ := hafter.column hpos hfield
    rw [Run.outcome_relay hrun, Field.eval_expression] at hread
    have hstart : Cursor.Fresh Scan.column c' ∧ Cursor.Carries settings .empty c' :=
      Cursor.fresh_of_prepare hprepare
    have hcarries : Cursor.Carries settings (Cursor.latest requests)
        (c'.after (backend catalog) requests) := hstart.2.after requests
    have hparams := hcarries.params_eq (by rw [hpos]; decide)
    rw [hparams] at hread
    exact fits_of_described htyped (hafter.inside hpos)
      (described_of_ofText hplan hafter.names hfield) hsettled hread

theorem typed_oneTable : oneTable.Typed := by
  intro entry hentry
  rw [List.mem_singleton.mp hentry]
  intro row hrow
  rcases List.mem_pair.mp hrow with rfl | rfl
  · exact .cons (Value.fits_type _) .nil
  · exact .cons (Value.fits_type _) .nil

/-- A parameter that is null leaves the choice to a column. -/
theorem column_fits_coalesce :
    ∃ c d, Cursor.prepare (backend oneTable) .withBuiltins .default
        "SELECT coalesce(?, a) + ? FROM t" () = .ok c ∧
      (Cursor.describe 0).outcome (c.after (backend oneTable)
        [.execute (.ofList [.null, .integer 10]), .first]) = .ok d ∧
      d.type = .integer ∧ (Value.integer 11).Fits d.type := by
  have hrun : ((Cursor.prepare (backend oneTable) .withBuiltins .default
      "SELECT coalesce(?, a) + ? FROM t" ()).toOption.map fun c =>
        let later := c.after (backend oneTable)
          [.execute (.ofList [.null, .integer 10]), .first]
        ((output? c 0).map fun o =>
            decide (o.expression.Settled (.ofList [.null, .integer 10]) .integer),
          (Cursor.describe 0).outcome later, (Cursor.column (backend oneTable) 0).outcome later)) =
      some (some true, .ok (.ofType "EXPR_1" .integer), .ok (.integer 11)) := by
    decide +kernel
  cases h : Cursor.prepare (backend oneTable) .withBuiltins .default
      "SELECT coalesce(?, a) + ? FROM t" () with
  | error e =>
    rw [h] at hrun
    cases hrun
  | ok c =>
    rw [h] at hrun
    obtain ⟨hsettled, hrest⟩ := Prod.mk.inj (Option.some.inj hrun)
    obtain ⟨hdescribe, hread⟩ := Prod.mk.inj hrest
    obtain ⟨o, ho, hsettled⟩ := Option.map_eq_some_iff.mp hsettled
    exact ⟨c, .ofType "EXPR_1" .integer, rfl, hdescribe, rfl,
      column_fits typed_oneTable h ho hdescribe hread (Or.inr (of_decide_eq_true hsettled))⟩

/-- A sum that is announced as an integer and is a double. -/
theorem column_not_fits_sum :
    oneTable.Typed ∧ ∃ c d v, Cursor.prepare (backend oneTable) .withBuiltins .default
        "SELECT ? + 1 FROM t" () = .ok c ∧
      (Cursor.describe 0).outcome (c.after (backend oneTable)
        [.execute (.ofList [.double ⟨0x3ff8000000000000⟩]), .first]) = .ok d ∧
      (Cursor.column (backend oneTable) 0).outcome (c.after (backend oneTable)
        [.execute (.ofList [.double ⟨0x3ff8000000000000⟩]), .first]) = .ok v ∧
      d.type = .integer ∧ v.type = .double ∧ d.type ≠ .null ∧ ¬v.Fits d.type := by
  have hrun : ((Cursor.prepare (backend oneTable) .withBuiltins .default
      "SELECT ? + 1 FROM t" ()).toOption.map fun c =>
        let later := c.after (backend oneTable)
          [.execute (.ofList [.double ⟨0x3ff8000000000000⟩]), .first]
        ((Cursor.describe 0).outcome later, (Cursor.column (backend oneTable) 0).outcome later)) =
      some (.ok (.ofType "EXPR_1" .integer), .ok (.double ⟨0x4004000000000000⟩)) := by
    decide +kernel
  refine ⟨typed_oneTable, ?_⟩
  cases h : Cursor.prepare (backend oneTable) .withBuiltins .default "SELECT ? + 1 FROM t" () with
  | error e =>
    rw [h] at hrun
    cases hrun
  | ok c =>
    rw [h] at hrun
    obtain ⟨hdescribe, hread⟩ := Prod.mk.inj (Option.some.inj hrun)
    exact ⟨c, _, _, rfl, hdescribe, hread, rfl, rfl, by decide, by decide⟩

end SelectEngine.Memory
