import SelectEngine.Proofs.Memory.Landing
import SelectEngine.Proofs.Memory.Prepare

/-!
# Fetching the rows over tables in memory

No request takes a cursor over tables in memory out of the states in which it is `Running` or closed
(`Standing.after`). A cursor that is running fetches the answer of its plan, whatever was asked of
it before (`Running.outcome_fetchAll`).
-/

set_option autoImplicit false

namespace SelectEngine.Memory

variable {catalog : Catalog} {plan : Plan} {settings : Settings}
variable {places : List (Place catalog)} {c : Cursor Scan Unit}

theorem SameTables.names {others : List (Place catalog)} (h : SameTables others places) :
    others.map Place.name = places.map Place.name := by
  have hnames := congrArg (List.map Place.name) h
  rw [List.map_map, List.map_map] at hnames
  exact hnames

/-- The places of a running cursor are on the tables that its plan names. -/
theorem tablesOf_eq {sources : List SourceName} (h : places.map Place.name = sources) :
    tablesOf places = sources.map (Plan.tableRows catalog) := by
  rw [← h, tablesOf, List.map_map]
  refine List.map_congr_left fun p _ => ?_
  show p.table.rows = Plan.tableRows catalog p.name
  rw [Plan.tableRows, p.found]

namespace Running

/-- A cursor that is executed is running still. -/
theorem executed (h : Running plan settings places c) (params : Params) :
    Running plan settings places
      { c with params, state := .opened, generation := c.generation + 1 } where
  plan_eq := h.plan_eq
  settings_eq := h.settings_eq
  session_eq := h.session_eq
  names := h.names
  inside := nofun
  cache n g v hentry := ⟨Nat.le_succ_of_le (h.cache n g v hentry).1, fun _ => nofun⟩

/-- A cursor that moved is running still if it is on a row of its tables or on none. A row of a
later generation finds no entry of the cache. -/
theorem moved (h : Running plan settings places c) {others : List (Place catalog)} {g : Nat}
    (state : CursorState) (ht : SameTables others places) (hg : c.generation ≤ g)
    (hstate : state = .positioned → c.generation < g ∧ AllInside (entries others)) :
    Running plan settings others { standing c others g with state } where
  plan_eq := h.plan_eq
  settings_eq := h.settings_eq
  session_eq := rfl
  names := ht.names.trans h.names
  inside hpos := (hstate hpos).2
  cache n g' v hentry := by
    have hbefore : g' ≤ c.generation := (h.cache n g' v hentry).1
    refine ⟨Nat.le_trans hbefore hg, fun hsame hpos => ?_⟩
    exact absurd (Nat.lt_of_lt_of_eq (hstate hpos).1 hsame.symm) (Nat.not_lt_of_le hbefore)

end Running

/-! ## Where a move leads -/

/-- A move that ends as `found` says leaves a running cursor: on the first of the combined rows
found, past the last row, or bad. -/
def Reached (catalog : Catalog) (plan : Plan) (settings : Settings) (params : Params)
    (found : Except Error (List CombinedRow))
    (result : EStateM.Result Error (Cursor Scan Unit) Landing) : Prop :=
  ∃ (others : List (Place catalog)) (last : Cursor Scan Unit),
    Running plan settings others last ∧ last.params = params ∧
    match found with
    | .error e => result = .error e last
    | .ok [] => result = .ok .ended last
    | .ok (rows :: rest) => result = .ok .row last ∧ last.state = .positioned ∧
        onward (entries others) = rows :: rest

theorem Reached.final {params : Params} {found : Except Error (List CombinedRow)}
    {move : Run (Cursor Scan Unit) Landing}
    (h : Reached catalog plan settings params found (move c)) :
    ∃ others : List (Place catalog), Running plan settings others (move.final c) := by
  obtain ⟨others, last, hlast, -, hfound⟩ := h
  refine ⟨others, ?_⟩
  have hfinal : move.final c = last := by
    unfold Run.final
    rcases found with e | _ | ⟨rows, rest⟩
    · rw [hfound]
    · rw [hfound]
    · rw [hfound.1]
  rw [hfinal]
  exact hlast

theorem land_reached (h : Running plan settings places c)
    {found : Except Error (List CombinedRow)} {move : Run (Cursor Scan Unit) Landing}
    (hmove : Landed places c found (move c)) :
    Reached catalog plan settings c.params found (Cursor.land move c) := by
  obtain ⟨others, g, ht, hg, hfound⟩ := hmove
  rcases found with e | _ | ⟨rows, rest⟩
  · refine ⟨others, _, h.moved .bad ht hg nofun, rfl, ?_⟩
    rw [Cursor.land, hfound]
  · refine ⟨others, _, h.moved .eof ht hg nofun, rfl, ?_⟩
    rw [Cursor.land, hfound]
    rfl
  · obtain ⟨hrun, hlater, hin, honward⟩ := hfound
    refine ⟨others, _, h.moved .positioned ht hg fun _ => ⟨hlater, hin⟩, rfl, ?_⟩
    rw [Cursor.land, hrun]
    exact ⟨rfl, rfl, honward⟩

/-- The first row is sought among all combined rows. -/
theorem Running.first (h : Running plan settings places c)
    (hstate : c.state ∈ [CursorState.opened, .positioned, .eof]) :
    Reached catalog plan settings c.params
      (plan.seek settings c.params (product (plan.sources.map (Plan.tableRows catalog))))
      (Cursor.first (backend catalog) c) := by
  rw [Cursor.first, Run.bind_of_ok (Cursor.demand_of_mem hstate), ← tablesOf_eq h.names,
    ← h.settings_eq]
  have hland := land_reached h (start_landed h.plan_eq h.session_eq)
  rwa [h.settings_eq] at hland ⊢

/-- The next row is sought behind the current combined row. -/
theorem Running.next (h : Running plan settings places c) (hpos : c.state = .positioned)
    {current : CombinedRow} {later : List CombinedRow}
    (hcurrent : onward (entries places) = current :: later) :
    Reached catalog plan settings c.params (plan.seek settings c.params later)
      (Cursor.next (backend catalog) c) := by
  have hne : c.state ≠ .eof := by
    rw [hpos]
    decide
  rw [Cursor.next, Run.bind_of_ok (Run.get_apply c), if_neg hne,
    Run.bind_of_ok (Cursor.demand_of_mem (List.mem_singleton.mpr hpos))]
  have hforward := forward_landed h.plan_eq h.session_eq (h.inside hpos) hcurrent
    (length_lt_bound hcurrent)
  rw [h.settings_eq] at hforward
  refine land_reached h ?_
  rwa [Run.bind_of_ok (rowBound_apply h.session_eq)]

/-! ## What a scan fetches -/

/-- From a row on, the rows of the plan are fetched. The induction is on the bound of the scan,
which is more than the number of rows behind the current one. -/
theorem Running.outcome_drain {fuel : Nat} {rows : CombinedRow} {rest : List CombinedRow}
    (h : Running plan settings places c) (hpos : c.state = .positioned)
    (hrows : onward (entries places) = rows :: rest) (hfuel : rest.length < fuel) :
    (Cursor.drain (backend catalog) fuel).outcome c =
      (plan.rowsFrom settings c.params (rows :: rest)).map some := by
  induction fuel generalizing places c rows rest with
  | zero => exact absurd hfuel (Nat.not_lt_zero _)
  | succ fuel ih =>
    obtain ⟨_, hhead⟩ := onward_eq_cons (h.inside hpos)
    have hcurrent : combination (entries places) = rows :=
      (List.cons.inj (hhead.symm.trans hrows)).1
    -- The row is read, which may fill the cache, and the scan goes on behind it.
    obtain ⟨cache, hrow, h'⟩ := h.row hpos
    -- Executing opens the cursor, and its first row is sought among all combined rows.
    obtain ⟨others, last, hlast, hparams, hfound⟩ := h'.next hpos hrows
    rw [surroundings, hcurrent] at hrow
    rw [Cursor.drain, Plan.rowsFrom]
    cases hread : Field.evalAll (Environment.onRows settings c.params rows) plan.fields with
    | error e =>
      rw [hread] at hrow
      exact Run.outcome_bind_of_error hrow
    | ok row =>
      rw [hread] at hrow
      rw [Run.outcome_bind_of_ok hrow, Plan.rowsOf_eq_seek]
      cases hseek : plan.seek settings c.params rest with
      | error e =>
        rw [hseek] at hfound
        exact Run.outcome_bind_of_error hfound
      | ok found =>
        rw [hseek] at hfound
        cases found with
        | nil => exact Run.outcome_bind_of_ok hfound
        | cons next behind =>
          obtain ⟨hrun, hpos', honward⟩ := hfound
          -- The search only skips rows, so the bound is still more than what is left.
          have hfuel' : behind.length < fuel :=
            Nat.lt_of_lt_of_le (Plan.length_lt_of_seek hseek) (Nat.le_of_lt_succ hfuel)
          rw [Run.outcome_bind_of_ok hrun]
          simp only [Run.outcome_bind_pure, ih hlast hpos' honward hfuel', hparams]
          show _ = (do
            let later ← plan.rowsFrom settings c.params (next :: behind)
            .ok (row :: later)).map some
          cases plan.rowsFrom settings c.params (next :: behind) <;> rfl

/-- A cursor that may be executed fetches the answer of its plan. -/
theorem Running.outcome_fetchAll (h : Running plan settings places c) (params : Params)
    (hstate : c.state ∈ [CursorState.prepared, .opened, .positioned, .eof]) :
    (Cursor.fetchAll (backend catalog) params).outcome c =
      (plan.answer catalog settings params).map some := by
  have hexecute : Cursor.execute params c =
      .ok () { c with params, state := .opened, generation := c.generation + 1 } := by
    rw [Cursor.execute, Run.bind_of_ok (Cursor.demand_of_mem hstate)]
    rfl
  obtain ⟨others, last, hlast, hparams, hfound⟩ :=
    (h.executed params).first (List.mem_cons_self (a := CursorState.opened))
  rw [Cursor.fetchAll, Run.outcome_bind_of_ok hexecute, Plan.answer, Plan.rowsOf_eq_seek]
  cases hseek : plan.seek settings params
      (product (plan.sources.map (Plan.tableRows catalog))) with
  | error e =>
    rw [hseek] at hfound
    exact Run.outcome_bind_of_error hfound
  | ok found =>
    rw [hseek] at hfound
    cases found with
    | nil => exact Run.outcome_bind_of_ok hfound
    | cons rows rest =>
      obtain ⟨hrun, hpos, honward⟩ := hfound
      rw [Run.outcome_bind_of_ok hrun]
      dsimp only
      rw [Run.outcome_bind_of_ok (rowBound_apply hlast.session_eq),
        hlast.outcome_drain hpos honward (length_lt_bound honward), hparams]
      rfl

/-! ## What requests preserve -/

/-- The cursor is closed, or it is running on some places. -/
def Standing (catalog : Catalog) (plan : Plan) (settings : Settings) (c : Cursor Scan Unit) :
    Prop :=
  c.state = .closed ∨ ∃ places : List (Place catalog), Running plan settings places c

theorem Running.final_column (h : Running plan settings places c) (n : Nat) :
    Running plan settings places ((Cursor.column (backend catalog) n).final c) := by
  by_cases hpos : c.state = .positioned
  · cases hfield : plan.fields[n]? with
    | some field =>
      obtain ⟨cache, hrun, hrunning⟩ := h.column hpos hfield
      rwa [Run.final_relay hrun]
    | none =>
      rw [Cursor.column, Run.final_bind_of_ok (Cursor.demand_of_mem (List.mem_singleton.mpr hpos)),
        Run.final_bind_of_ok (Cursor.planFor_of_some h.plan_eq), hfield]
      exact h
  · rwa [Run.final_of_error (Cursor.column_of_ne _ n hpos)]

theorem Running.final_row (h : Running plan settings places c) :
    Running plan settings places ((Cursor.row (backend catalog)).final c) := by
  by_cases hpos : c.state = .positioned
  · obtain ⟨cache, hrun, hrunning⟩ := h.row hpos
    rwa [Run.final_relay hrun]
  · rwa [Cursor.final_row_of_ne _ hpos]

/-- A running cursor is asked for something: only closing it ends its run. -/
theorem Running.request (h : Running plan settings places c) (request : Cursor.Request) :
    Standing catalog plan settings (request.run (backend catalog) c) := by
  cases request with
  | execute params =>
    refine Or.inr ⟨places, ?_⟩
    by_cases hstate : c.state ∈ [CursorState.prepared, .opened, .positioned, .eof]
    · rw [Cursor.Request.run, Cursor.execute,
        Run.final_bind_of_ok (Cursor.demand_of_mem hstate)]
      exact h.executed params
    · rw [Cursor.Request.run, Cursor.execute,
        Run.final_bind_of_error (Cursor.demand_of_not_mem hstate)]
      exact h
  | first =>
    by_cases hstate : c.state ∈ [CursorState.opened, .positioned, .eof]
    · exact Or.inr (h.first hstate).final
    · rw [Cursor.Request.run, Cursor.first,
        Run.final_bind_of_error (Cursor.demand_of_not_mem hstate)]
      exact Or.inr ⟨places, h⟩
  | next =>
    by_cases hpos : c.state = .positioned
    · obtain ⟨_, hcurrent⟩ := onward_eq_cons (h.inside hpos)
      exact Or.inr (h.next hpos hcurrent).final
    · have hnot : c.state ∉ [CursorState.positioned] := fun hmem =>
        hpos (List.mem_singleton.mp hmem)
      refine Or.inr ⟨places, ?_⟩
      rw [Cursor.Request.run, Cursor.next, Run.final_bind_of_ok (Run.get_apply c)]
      split
      · exact h
      · rwa [Run.final_bind_of_error (Cursor.demand_of_not_mem hnot)]
  | column n => exact Or.inr ⟨places, h.final_column n⟩
  | columnByName name =>
    refine Or.inr ⟨places, ?_⟩
    rw [Cursor.Request.run, Cursor.columnByName, Run.final_bind_of_ok (Run.get_apply c)]
    split
    · exact h.final_column _
    · exact h
  | row => exact Or.inr ⟨places, h.final_row⟩
  | close => exact Or.inl (Cursor.state_final_close (backend catalog) c)

/-- No request ends the run of a cursor but closing it. -/
theorem Standing.after (h : Standing catalog plan settings c) (requests : List Cursor.Request) :
    Standing catalog plan settings (c.after (backend catalog) requests) := by
  refine Cursor.after_induction (P := Standing catalog plan settings) ?_ requests h
  rintro c request (h | ⟨places, h⟩)
  · exact Or.inl (Cursor.state_run_of_closed (backend catalog) request h)
  · exact h.request request

/-- Where a cursor admits to be executed, its rows are the answer of the plan of its statement,
whatever was asked of it before. If a source has no rows the answer is empty. -/
theorem outcome_fetchAll_after {registry : Registry} {settings : Settings} {text : String}
    {c : Cursor Scan Unit}
    (h : Cursor.prepare (backend catalog) registry settings text () = .ok c)
    (requests : List Cursor.Request) (params : Params)
    (hexecute : (Cursor.execute params).outcome (c.after (backend catalog) requests) = .ok ()) :
    ∃ plan, Plan.ofText catalog registry settings text = .ok plan ∧
      (∀ source ∈ plan.sources, ∃ table, catalog.lookup source.table = some table) ∧
      (Cursor.fetchAll (backend catalog) params).outcome (c.after (backend catalog) requests) =
        (plan.answer catalog settings params).map some ∧
      ((∃ source ∈ plan.sources, Plan.tableRows catalog source = []) →
        (Cursor.fetchAll (backend catalog) params).outcome (c.after (backend catalog) requests) =
          .ok (some [])) := by
  cases hplan : Plan.ofText catalog registry settings text with
  | error e =>
    rw [prepare_of_error hplan] at h
    cases h
  | ok plan =>
    obtain ⟨c', places, hprepare, -, hrunning⟩ := prepare_of_plan hplan
    obtain rfl : c' = c := Except.ok.inj (hprepare.symm.trans h)
    have hstate : (c'.after (backend catalog) requests).state ∈
        [CursorState.prepared, .opened, .positioned, .eof] := by
      by_contra hnot
      rw [Cursor.execute, Run.outcome_bind_of_error (Cursor.demand_of_not_mem hnot)] at hexecute
      cases hexecute
    have hfetch : (Cursor.fetchAll (backend catalog) params).outcome
        (c'.after (backend catalog) requests) = (plan.answer catalog settings params).map some := by
      rcases Standing.after (Or.inr ⟨places, hrunning⟩) requests with hclosed | ⟨others, hafter⟩
      · rw [hclosed] at hstate
        exact absurd hstate (by decide)
      · exact hafter.outcome_fetchAll params hstate
    refine ⟨plan, rfl, fun source hsource => ?_, hfetch, fun hempty => ?_⟩
    · rw [← hrunning.names] at hsource
      obtain ⟨p, -, rfl⟩ := List.mem_map.mp hsource
      exact ⟨p.table, p.found⟩
    · rw [hfetch, Plan.answer_eq_nil hempty]
      rfl

/-- A catalog of one table, which has one column and two rows. -/
def oneTable : Catalog :=
  ⟨[(⟨none, none, "t"⟩, ⟨[.ofType "a" .integer], [[.integer 1], [.integer 2]], by decide⟩)]⟩

/-- A self join, fetched again from its second row. -/
theorem outcome_fetchAll_second_row :
    ∃ c, Cursor.prepare (backend oneTable) .empty .default
        "SELECT x.a, y.a + 1 FROM t x, t y WHERE y.a > 1" () = .ok c ∧
      ∃ plan, Plan.ofText oneTable .empty .default
          "SELECT x.a, y.a + 1 FROM t x, t y WHERE y.a > 1" = .ok plan ∧
        (Cursor.fetchAll (backend oneTable) .empty).outcome
            (c.after (backend oneTable) [.execute .empty, .first, .next, .row]) =
          (plan.answer oneTable .default .empty).map some := by
  have hexecute : ((Cursor.prepare (backend oneTable) .empty .default
      "SELECT x.a, y.a + 1 FROM t x, t y WHERE y.a > 1" ()).toOption.map fun c =>
        (Cursor.execute .empty).outcome
          (c.after (backend oneTable) [.execute .empty, .first, .next, .row])) = some (.ok ()) := by
    decide +kernel
  cases h : Cursor.prepare (backend oneTable) .empty .default
      "SELECT x.a, y.a + 1 FROM t x, t y WHERE y.a > 1" () with
  | error e =>
    rw [h] at hexecute
    cases hexecute
  | ok c =>
    rw [h] at hexecute
    obtain ⟨plan, hplan, -, hfetch, -⟩ := outcome_fetchAll_after h
      [.execute .empty, .first, .next, .row] .empty (Option.some.inj hexecute)
    exact ⟨c, rfl, plan, hplan, hfetch⟩

end SelectEngine.Memory
