import SelectEngine.Proofs.Memory.Descriptor
import SelectEngine.Proofs.Memory.Sourced
import SelectEngine.Proofs.Plan.Partition

/-!
# The columns of a result over tables in memory

The fields of a statement are the columns that its attributes give, in the order of the text, under
the names of their descriptors, and every row that is read has one value for each of them
(`Memory.fields_listed`).
-/

set_option autoImplicit false

namespace SelectEngine

/-! ## Rows -/

/-- Fields that are read have one value each. -/
theorem Field.values_of_evalAll {env : Environment (Except Error)} {fields : List Field}
    {values : List Value} (h : Field.evalAll env fields = .ok values) :
    List.Forall₂ (fun field v => field.eval env = .ok v) fields values := by
  induction fields generalizing values with
  | nil =>
    cases h
    exact .nil
  | cons field fields ih =>
    obtain ⟨v, hv, h⟩ := Outcome.bind_eq_ok h
    obtain ⟨rest, hrest, h⟩ := Outcome.bind_eq_ok h
    cases h
    exact .cons hv (ih hrest)

/-- Every row of a plan has one value for each field. The induction is on the combined rows, of
which some are skipped. -/
theorem Plan.length_of_mem_rowsOf {plan : Plan} {settings : Settings} {params : Params}
    {combined : List CombinedRow} {rows : List (List Value)}
    (h : plan.rowsOf settings params combined = .ok rows) :
    ∀ row ∈ rows, row.length = plan.fields.length := by
  induction combined generalizing rows with
  | nil =>
    cases h
    exact nofun
  | cons first rest ih =>
    obtain ⟨kept, -, hkept⟩ := rowsOf_cons_eq_ok h
    cases kept with
    | false => exact ih hkept
    | true =>
      obtain ⟨row, later, hrow, hlater, rfl⟩ := hkept
      exact List.forall_mem_cons.mpr
        ⟨(Field.values_of_evalAll hrow).length_eq.symm, ih hlater⟩

namespace Memory

variable {catalog : Catalog} {registry : Registry} {settings : Settings} {text : String}
variable {plan : Plan} {places : List (Place catalog)} {c : Cursor Scan Unit}

/-- What a cursor shows of the fields of its plan: their descriptors until it is closed, and on
every row one value for each of them, that of the current row being the values of the single
columns. -/
structure Shows (catalog : Catalog) (plan : Plan) (c : Cursor Scan Unit) : Prop where
  described : c.state ≠ .closed → ∀ (n : Nat) (f : Field), plan.fields[n]? = some f →
    (Cursor.describe n).outcome c = .ok f.column
  row : c.state = .positioned → ∀ values, (Cursor.row (backend catalog)).outcome c = .ok values →
    List.Forall₂ (fun n v => (Cursor.column (backend catalog) n).outcome c = .ok v)
      (List.range plan.fields.length) values
  fetched : ∀ params rows,
    (Cursor.fetchAll (backend catalog) params).outcome c = .ok (some rows) →
      ∀ row ∈ rows, row.length = plan.fields.length

theorem fetchAll_of_not_mem {params : Params}
    (h : c.state ∉ [CursorState.prepared, .opened, .positioned, .eof]) :
    (Cursor.fetchAll (backend catalog) params).outcome c =
      .error (.cursorState "execute" c.state.text) := by
  rw [Cursor.fetchAll, Cursor.execute, bind_assoc]
  exact Run.outcome_bind_of_error (Cursor.demand_of_not_mem h)

theorem Running.shows (h : Running plan settings places c) : Shows catalog plan c where
  described _ n f hf := by
    rw [Cursor.describe, Run.outcome_bind_of_ok (Cursor.planFor_of_some h.plan_eq), hf]
    rfl
  row hpos values hvalues := by
    obtain ⟨cache, hrun, -⟩ := h.row hpos
    rw [Run.outcome_relay hrun] at hvalues
    have hall := Field.values_of_evalAll hvalues
    rw [List.forall₂_iff_get]
    refine ⟨List.length_range.trans hall.length_eq, fun n hn hlt => ?_⟩
    have hplace : (List.range plan.fields.length).get ⟨n, hn⟩ = n := List.getElem_range hn
    have hfield : n < plan.fields.length := hall.length_eq ▸ hlt
    obtain ⟨_, hcolumn, -⟩ := h.column hpos (List.getElem?_eq_getElem hfield)
    rw [hplace, Run.outcome_relay hcolumn]
    exact (List.forall₂_iff_get.mp hall).2 n hfield hlt
  fetched params rows hrows := by
    by_cases hstate : c.state ∈ [CursorState.prepared, .opened, .positioned, .eof]
    · rw [h.outcome_fetchAll params hstate] at hrows
      obtain ⟨answer, hanswer, hsome⟩ := Outcome.map_eq_ok hrows
      cases hsome
      exact Plan.length_of_mem_rowsOf hanswer
    · rw [fetchAll_of_not_mem hstate] at hrows
      cases hrows

/-- A cursor that is closed shows nothing. -/
theorem shows_of_closed (h : c.state = .closed) : Shows catalog plan c where
  described hopen := absurd h hopen
  row hpos := by
    rw [h] at hpos
    cases hpos
  fetched params rows hrows := by
    rw [fetchAll_of_not_mem (by rw [h]; decide)] at hrows
    cases hrows

/-! ## Fields -/

/-- The fields of a statement that is prepared are the columns of its attributes, group by group in
the order of the text, under the names of their descriptors. The names that are generated are
numbered from one, as far as 32 bits can count. Whatever is asked of the cursor, these are the
descriptors that it gives, and every row that it reads has one value for each field. -/
theorem fields_listed (h : Cursor.prepare (backend catalog) registry settings text () = .ok c) :
    ∃ (tree : Tree) (ts : List Token) (s : Statement (Fin tree.tokens.size))
      (sources : List SourceName) (tables : List Table) (plan : Plan) (groups : List (List Output)),
      Sourced catalog settings text tree ts s sources tables ∧ c.plan = some plan ∧
      plan.fields.map Field.output = groups.flatten ∧
      Attribute.Grouped (binderOf tree s sources tables registry settings) settings tables 0
        (s.map Fin.val).attributes groups ∧
      (∀ n < 2 ^ 32, settings.generatedName n = settings.anonymousName n) ∧
      (∀ f ∈ plan.fields, f.name = f.column.name) ∧
      ∀ requests, Shows catalog plan (c.after (backend catalog) requests) := by
  obtain ⟨tree, ts, s, sources, tables, hsourced⟩ := Sourced.exists_of_prepare h
  obtain ⟨plan, places, hplan, hrunning⟩ := exists_running_of_prepare h
  obtain ⟨-, ⟨generated, houtputs⟩, -⟩ :=
    Statement.meaningOver_eq_ok (hsourced.meaningOver_of_plan hplan)
  obtain ⟨groups, hgroups, hgrouped⟩ :=
    Attribute.exists_groups_of_outputsAll rfl hsourced.length houtputs
  refine ⟨tree, ts, s, sources, tables, plan, groups, hsourced, hrunning.plan_eq, hgroups,
    hgrouped, fun n => settings.generatedName_of_lt, fun f _ => f.name_eq, fun requests => ?_⟩
  rcases Standing.after (Or.inr ⟨places, hrunning⟩) requests with hclosed | ⟨others, hafter⟩
  · exact shows_of_closed hclosed
  · exact hafter.shows

/-- Attributes of every kind, with a name given to them and without. -/
theorem fields_listed_overlapping :
    ∃ c, Cursor.prepare (backend overlapping) .empty .default
        "SELECT *, Y.*, x.a, c AS d, 's', 1 AS n, NULL, ?, x.a + c, 2 FROM t AS x, u AS y" () =
          .ok c ∧
      ∃ (tree : Tree) (ts : List Token) (s : Statement (Fin tree.tokens.size))
        (sources : List SourceName) (tables : List Table) (plan : Plan)
        (groups : List (List Output)),
        Sourced overlapping .default
          "SELECT *, Y.*, x.a, c AS d, 's', 1 AS n, NULL, ?, x.a + c, 2 FROM t AS x, u AS y" tree ts
          s sources tables ∧
        c.plan = some plan ∧ plan.fields.map Field.output = groups.flatten ∧
        Attribute.Grouped (binderOf tree s sources tables .empty .default) .default tables 0
          (s.map Fin.val).attributes groups ∧
        plan.fields.map Field.name = ["a", "b", "B", "c", "B", "c", "a", "d", "EXPR_1", "n",
          "EXPR_2", "EXPR_3", "EXPR_4", "EXPR_5"] := by
  have hrun : (((Cursor.prepare (backend overlapping) .empty .default
      "SELECT *, Y.*, x.a, c AS d, 's', 1 AS n, NULL, ?, x.a + c, 2 FROM t AS x, u AS y"
        ()).toOption.bind Cursor.plan).map fun plan => plan.fields.map Field.name) =
      some ["a", "b", "B", "c", "B", "c", "a", "d", "EXPR_1", "n", "EXPR_2", "EXPR_3", "EXPR_4",
        "EXPR_5"] := by
    decide +kernel
  cases h : Cursor.prepare (backend overlapping) .empty .default
      "SELECT *, Y.*, x.a, c AS d, 's', 1 AS n, NULL, ?, x.a + c, 2 FROM t AS x, u AS y" () with
  | error e =>
    rw [h] at hrun
    cases hrun
  | ok c =>
    rw [h] at hrun
    obtain ⟨plan, hplan, hnames⟩ := Option.map_eq_some_iff.mp hrun
    obtain ⟨tree, ts, s, sources, tables, plan', groups, hsourced, hplan', hgroups, hgrouped, -⟩ :=
      fields_listed h
    obtain rfl : plan = plan' := Option.some.inj (hplan.symm.trans hplan')
    exact ⟨c, rfl, tree, ts, s, sources, tables, plan, groups, hsourced, hplan, hgroups, hgrouped,
      hnames⟩

end Memory

end SelectEngine
