import SelectEngine.Proofs.Cursor.Step
import SelectEngine.Proofs.Memory.Fetch

/-!
# Kept values are fresh

Where a column of a provider is read from the row on which the provider stands and from nothing else
(`Backend.Pure`), a computed field has the value that its expression has on the current combined row
and under the parameters of the latest execution (`Cursor.column_fresh`), whether the cursor has kept
the value or finds it. The invariant is `Cursor.Holds`: a kept value is of no later generation than
the cursor, and one of the same generation is the value on the current row.
-/

set_option autoImplicit false

namespace SelectEngine

variable {σ γ α V : Type}

/-- The values of the columns of the row on which a provider stands, or why they cannot be read. -/
abbrev RowOf (σ : Type) := σ → Nat → Except Error Value

/-- Reading a column answers from the row on which the provider stands, and leaves it there. The
provider may change in other ways, and so may what the providers share. -/
structure Backend.Pure (B : Backend σ γ) (row : RowOf σ) : Prop where
  answer_eq : ∀ position p w, (B.answer (.column position) p w).1 = row p position
  row_eq : ∀ position p w, row (B.answer (.column position) p w).2.1 = row p

/-- From states with a view a computation has the given outcome and leaves the view as it is. -/
def Correspondence.seen {s : Type} (view : s → V) (v : V) :
    Correspondence (Run s) (Except Error) where
  rel x y := ∀ state, view state = v → x.outcome state = y ∧ view (x.final state) = v
  returning _ _ h := ⟨rfl, h⟩
  failing _ _ h := ⟨rfl, h⟩
  sequencing {_ _ x y f g} hx hf := by
    intro state hstate
    obtain ⟨houtcome, hfinal⟩ := hx state hstate
    cases hstep : x state with
    | ok a later =>
      rw [Run.outcome, hstep] at houtcome
      rw [Run.final, hstep] at hfinal
      rw [Run.outcome_bind_of_ok hstep, Run.final_bind_of_ok hstep, ← houtcome]
      exact hf a later hfinal
    | error e later =>
      rw [Run.outcome, hstep] at houtcome
      rw [Run.final, hstep] at hfinal
      rw [Run.outcome_bind_of_error hstep, Run.final_bind_of_error hstep, ← houtcome]
      exact ⟨rfl, hfinal⟩

namespace Session

variable {B : Backend σ γ} {row : RowOf σ}

/-- The current combined row, by source and position. -/
def rows (row : RowOf σ) (session : Session σ γ) (source position : Nat) : Except Error Value :=
  match session.sources[source]? with
  | some s => row s.provider position
  | none => .error (.internal s!"field bound to missing source {source}")

/-- A source that stands on the same row may take the place of another. -/
theorem rows_set {session : Session σ γ} {i : Nat} {source later : Source σ} {world : γ}
    (hsource : session.sources[i]? = some source)
    (hrow : row later.provider = row source.provider) :
    rows row ⟨session.sources.set i later, world⟩ = session.rows row := by
  funext j position
  have hi : i < session.sources.length := (List.getElem?_eq_some_iff.mp hsource).1
  by_cases hj : i = j
  · subst hj
    simp only [rows, List.getElem?_set_self hi, hsource, hrow]
  · simp only [rows, List.getElem?_set_ne hj]

/-- A column is read from the current combined row. -/
theorem seen_column (h : B.Pure row) (v : Nat → Nat → Except Error Value) (i position : Nat) :
    (Correspondence.seen (rows row) v).rel (at_ i (Source.column B position)) (v i position) := by
  rintro session rfl
  cases hsource : session.sources[i]? with
  | none =>
    rw [Run.outcome_of_error (at_apply_none hsource), Run.final_of_error (at_apply_none hsource)]
    simp only [rows, hsource, and_self]
  | some source =>
    -- The provider answers from its row, and what it is afterwards stands on the same row.
    have hask : Source.column B position (source, session.world) =
        (relay (B.answer (.column position) source.provider session.world).1 : Run _ _)
          ({ source with provider := (B.answer (.column position) source.provider session.world).2.1 },
            (B.answer (.column position) source.provider session.world).2.2) := rfl
    rw [outcome_at hsource, final_at hsource, Run.outcome_relay hask, Run.final_relay hask,
      h.answer_eq, rows_set hsource (h.row_eq _ _ _)]
    simp only [rows, hsource, and_self]

/-- Reading leaves the current combined row. -/
theorem reads_rows (h : B.Pure row) (v : Nat → Nat → Except Error Value) :
    Reads B fun session => session.rows row = v := by
  intro i position session hv
  have hfinal := (seen_column h v i position session hv).2
  rw [Run.final] at hfinal
  cases hstep : at_ i (Source.column B position) session with
  | ok a later =>
    rw [hstep] at hfinal
    exact hfinal
  | error e later =>
    rw [hstep] at hfinal
    exact hfinal

end Session

namespace Cursor

variable {B : Backend σ γ} {row : RowOf σ} {c : Cursor σ γ}
variable {v : Nat → Nat → Except Error Value}

/-- The surroundings of an expression on a combined row that is given. -/
def onRow (c : Cursor σ γ) (v : Nat → Nat → Except Error Value) : Environment (Except Error) where
  column := v
  params := c.params
  nulls := c.settings.nulls
  maxDepth := c.settings.maxDepth

/-- An expression has the value that it has on the current combined row, which stays. -/
theorem seen_evaluate (hpure : B.Pure row) (hv : c.session.rows row = v) (e : Bound) :
    (evaluate B e).outcome c = e.eval (c.onRow v) 0 ∧
      ∃ session, (evaluate B e).final c = { c with session } ∧ session.rows row = v := by
  have henv : Correspondence.Environments (Correspondence.seen (Session.rows row) v)
      (c.environment B) (c.onRow v) :=
    ⟨Session.seen_column hpure v, rfl, rfl, rfl⟩
  obtain ⟨houtcome, hfinal⟩ := Correspondence.eval henv 0 e c.session hv
  rw [evaluate_eq, Run.outcome_bind_of_ok (Run.get_apply c), Run.final_bind_of_ok (Run.get_apply c),
    final_onSession, outcome_onSession]
  exact ⟨houtcome, _, rfl, hfinal⟩

/-! ## Kept values -/

/-- The expression that the field of a position is computed from. -/
def expression? (c : Cursor σ γ) (n : Nat) : Option Bound :=
  match (c.plan.bind fun plan => plan.fields[n]?).map Field.kind with
  | some (.computed _ e) => some e
  | _ => none

/-- No kept value is of a later generation than the cursor, and one of the same generation is the
value on the current combined row. -/
def Holds (v : Nat → Nat → Except Error Value) (c : Cursor σ γ) : Prop :=
  ∀ (n g : Nat) (value : Value), c.cache.getD n none = some (g, value) → g ≤ c.generation ∧
    (g = c.generation → c.state = .positioned → ∀ e, c.expression? n = some e →
      e.eval (c.onRow v) 0 = .ok value)

theorem Holds.ignoresSession (v : Nat → Nat → Except Error Value) :
    IgnoresSession (Holds (σ := σ) (γ := γ) v) :=
  fun _ _ h => h

/-- The values that a cursor has kept are fresh. -/
def Fresh (row : RowOf σ) (c : Cursor σ γ) : Prop := Holds (c.session.rows row) c

/-- Nothing is kept by a cursor whose cache is empty. -/
theorem holds_of_empty (h : ∀ n, c.cache.getD n none = none) : Holds v c := by
  intro n g value hentry
  rw [h n] at hentry
  cases hentry

/-- A later generation has no kept values yet. -/
theorem Holds.outdated {later : Cursor σ γ} {w : Nat → Nat → Except Error Value} (h : Holds v c)
    (hcache : later.cache = c.cache) (hgeneration : c.generation < later.generation) :
    Holds w later := by
  intro n g value hentry
  rw [hcache] at hentry
  have hle : g ≤ c.generation := (h n g value hentry).1
  exact ⟨by omega, fun hsame => by omega⟩

/-- Nor is a kept value read anywhere but on a row. -/
theorem Holds.off_row {later : Cursor σ γ} {w : Nat → Nat → Except Error Value} (h : Holds v c)
    (hcache : later.cache = c.cache) (hgeneration : c.generation ≤ later.generation)
    (hstate : later.state ≠ .positioned) : Holds w later := by
  intro n g value hentry
  rw [hcache] at hentry
  exact ⟨Nat.le_trans (h n g value hentry).1 hgeneration, fun _ hpositioned =>
    absurd hpositioned hstate⟩

theorem expression?_eq_some {n : Nat} {plan : Plan} {field : Field} {node : NodeId} {e : Bound}
    (hplan : c.plan = some plan) (hfield : plan.fields[n]? = some field)
    (hkind : field.kind = .computed node e) : c.expression? n = some e := by
  simp [expression?, hplan, hfield, hkind]

theorem exists_of_expression? {n : Nat} {e : Bound} (h : c.expression? n = some e) :
    ∃ (plan : Plan) (field : Field) (node : NodeId),
      c.plan = some plan ∧ plan.fields[n]? = some field ∧ field.kind = .computed node e := by
  unfold expression? at h
  split at h
  · rename_i node other hkind
    obtain ⟨field, hfield, hfieldKind⟩ := Option.map_eq_some_iff.mp hkind
    obtain ⟨plan, hplan, hget⟩ := Option.bind_eq_some_iff.mp hfield
    cases h
    exact ⟨plan, field, node, hplan, hget, hfieldKind⟩
  · cases h

/-- A value found on the current row may be kept. -/
theorem Holds.keep (h : Holds v c) {n : Nat} {e : Bound} {value : Value}
    (hn : c.expression? n = some e) (hvalue : e.eval (c.onRow v) 0 = .ok value) :
    Holds v { c with cache := c.cache.setIfInBounds n (some (c.generation, value)) } := by
  intro m g other hentry
  by_cases hnm : n = m
  · subst hnm
    have hnew : some (g, other) = some (c.generation, value) := by
      rw [Array.getD_eq_getD_getElem?, Array.getElem?_setIfInBounds_self] at hentry
      split at hentry
      · exact hentry.symm
      · cases hentry
    obtain ⟨rfl, rfl⟩ := Prod.mk.inj (Option.some.inj hnew)
    refine ⟨Nat.le_refl _, fun _ _ e' he' => ?_⟩
    rw [Option.some.inj (he'.symm.trans hn)]
    exact hvalue
  · rw [Array.getD_eq_getD_getElem?, Array.getElem?_setIfInBounds_ne hnm,
      ← Array.getD_eq_getD_getElem?] at hentry
    exact h m g other hentry

/-! ## What requests leave fresh -/

theorem leads_computed (hpure : B.Pure row) {n : Nat} {e : Bound} :
    Run.Leads
      (fun c => Over (Holds v) (fun session => session.rows row = v) c ∧ c.expression? n = some e)
      (computed B n e) (fun _ => Over (Holds v) fun session => session.rows row = v)
      (Over (Holds v) fun session => session.rows row = v) := by
  apply Run.leads_get
  rintro c ⟨⟨hholds, hrows⟩, hn⟩
  have hsame : ∀ later, later = c → Over (Holds v) (fun session => session.rows row = v) later := by
    rintro later rfl
    exact ⟨hholds, hrows⟩
  split
  · exact Run.leads_pure hsame
  · have hevaluate : Run.Leads (· = c) (evaluate B e)
        (fun value later => Over (Holds v) (fun session => session.rows row = v) later ∧
          later.expression? n = some e ∧ e.eval (later.onRow v) 0 = .ok value)
        (Over (Holds v) fun session => session.rows row = v) := by
      rintro later rfl
      obtain ⟨houtcome, session, hfinal, hlater⟩ := seen_evaluate hpure hrows e
      rw [Run.outcome] at houtcome
      rw [Run.final] at hfinal
      cases hstep : evaluate B e later with
      | ok value last =>
        rw [hstep] at houtcome hfinal
        obtain rfl : last = { later with session } := hfinal
        exact ⟨⟨hholds, hlater⟩, hn, houtcome.symm⟩
      | error failure last =>
        rw [hstep] at hfinal
        obtain rfl : last = { later with session } := hfinal
        exact ⟨hholds, hlater⟩
    apply Run.leads_bind hevaluate
    intro value
    apply Run.leads_bind (Q := fun _ => Over (Holds v) fun session => session.rows row = v)
    · apply Run.leads_modify
      rintro later ⟨⟨hkept, hlater⟩, hcomputes, hvalue⟩
      exact ⟨hkept.keep hcomputes hvalue, hlater⟩
    · intro _
      exact Run.leads_pure fun _ h => h

theorem leads_column_fresh (hpure : B.Pure row) (n : Nat) :
    Run.Leads (Over (Holds v) fun session => session.rows row = v) (column B n)
      (fun _ => Over (Holds v) fun session => session.rows row = v)
      (Over (Holds v) fun session => session.rows row = v) := by
  apply leads_column (Holds.ignoresSession v) (Session.reads_rows hpure v)
  intro plan field node e hfield hkind
  refine (leads_computed hpure).weaken ?_ (fun _ _ h => h) (fun _ h => h)
  rintro c ⟨h, hplan⟩
  exact ⟨h, expression?_eq_some hplan hfield hkind⟩

theorem Fresh.of_over (h : Over (Holds v) (fun session => session.rows row = v) c) : Fresh row c := by
  rw [Fresh, h.2]
  exact h.1

/-- A move to a row begins a new generation, and one that ends elsewhere ends where nothing is
read. -/
theorem Lands.fresh {bound : Nat} {P F : Session σ γ → Prop} {move : Run (Cursor σ γ) Landing}
    (hlands : Lands c bound P F (move c)) (h : Fresh row c) : Fresh row (move.final c) := by
  rw [Run.final]
  cases hstep : move c with
  | ok landing later =>
    rw [hstep] at hlands
    have hmoved := hlands.1
    cases landing with
    | row => exact Holds.outdated h hmoved.cache_eq hmoved.generation_le
    | ended | givenUp =>
      exact Holds.off_row h hmoved.cache_eq
        (Nat.le_trans (Nat.le_add_right _ _) hmoved.generation_le) (hmoved.state_eq ▸ nofun)
  | error e later =>
    rw [hstep] at hlands
    have hmoved := hlands.1
    exact Holds.off_row h hmoved.cache_eq hmoved.generation_le (hmoved.state_eq ▸ nofun)

theorem Fresh.run_of_reads (hpure : B.Pure row) (h : Fresh row c) {request : Request}
    (hreads : request.reads = true) : Fresh row (request.run B c) := by
  have hstart : Over (Holds (c.session.rows row)) (fun session =>
      session.rows row = c.session.rows row) c := ⟨h, rfl⟩
  cases request with
  | column n => exact .of_over ((leads_column_fresh hpure n).final_of_both hstart)
  | columnByName name =>
    exact .of_over ((leads_columnByName (leads_column_fresh hpure) name).final_of_both hstart)
  | row => exact .of_over ((leads_row (leads_column_fresh hpure)).final_of_both hstart)
  | execute _ | first | next | close => cases hreads

/-- Nothing is kept by a closed cursor. -/
theorem fresh_final_close (B : Backend σ γ) (c : Cursor σ γ) : Fresh row ((close B).final c) := by
  rw [final_close]
  exact holds_of_empty fun n => rfl

/-- Every request leaves what is kept fresh. -/
theorem Fresh.run (hpure : B.Pure row) (h : Fresh row c) (request : Request) :
    Fresh row (request.run B c) := by
  generalize hlater : request.run B c = later
  cases hlater ▸ step_run B c request with
  | refused _ _ => exact h
  | stayed _ => exact h
  | executed params _ => exact Holds.outdated h rfl (Nat.lt_succ_self _)
  | moved _ _ _ _ hmove => exact hmove.ends.fresh h
  | read _ _ hreads => exact h.run_of_reads hpure hreads
  | closed => exact fresh_final_close B c

/-! ## The parameters of the latest execution -/

/-- The parameters after a request that is not refused. -/
def Request.given (params : Params) : Request → Params
  | .execute given => given
  | .first | .next | .column _ | .columnByName _ | .row | .close => params

/-- The parameters of the latest execution among some requests. -/
def latest (requests : List Request) : Params := requests.foldl Request.given .empty

/-- A cursor that can be executed has the given parameters. -/
structure Carries (settings : Settings) (params : Params) (c : Cursor σ γ) : Prop where
  settings_eq : c.settings = settings
  params_eq : c.state ∈ [.prepared, .opened, .positioned, .eof] → c.params = params

variable {settings : Settings} {params : Params}

theorem MoveEnds.carries {move : Run (Cursor σ γ) Landing} (hends : MoveEnds B c (move c))
    (h : Carries settings params c) (hstate : c.state ∈ [.opened, .positioned, .eof]) :
    Carries settings params (move.final c) := by
  have hparams : c.params = params := h.params_eq (List.mem_cons_of_mem _ hstate)
  rw [Run.final]
  cases hstep : move c with
  | ok landing later =>
    rw [hstep] at hends
    exact ⟨hends.1.settings_eq.trans h.settings_eq, fun _ => hends.1.params_eq.trans hparams⟩
  | error e later =>
    rw [hstep] at hends
    exact ⟨hends.1.settings_eq.trans h.settings_eq, fun _ => hends.1.params_eq.trans hparams⟩

theorem Carries.run (h : Carries settings params c) (request : Request) :
    Carries settings (request.given params) (request.run B c) := by
  generalize hlater : request.run B c = later
  cases hlater ▸ step_run B c request with
  | refused _ hrefused =>
    refine ⟨h.settings_eq, fun hstate => ?_⟩
    rw [h.params_eq hstate]
    cases request with
    | execute given => exact absurd hstate hrefused
    | first | next | column _ | columnByName _ | row | close => rfl
  | stayed _ => exact h
  | executed given _ => exact ⟨h.settings_eq, fun _ => rfl⟩
  | moved _ _ hstate hrequest hmove =>
    rcases hrequest with rfl | rfl <;> exact hmove.ends.carries h hstate
  | read _ _ hreads =>
    have hkept : Kept c (request.run B c) := kept_of_reads B hreads
    have hgiven : request.given params = params := by
      cases request with
      | column _ | columnByName _ | row => rfl
      | execute _ | first | next | close => cases hreads
    rw [hgiven]
    exact ⟨hkept.settings_eq.trans h.settings_eq, fun hstate =>
      hkept.params_eq.trans (h.params_eq (hkept.state_eq ▸ hstate))⟩
  | closed =>
    rw [final_close]
    have hclosed : CursorState.closed ∉ [CursorState.prepared, .opened, .positioned, .eof] := by
      decide
    exact ⟨h.settings_eq, fun hstate => absurd hstate hclosed⟩

theorem Carries.after (requests : List Request) (h : Carries settings params c) :
    Carries settings (requests.foldl Request.given params) (c.after B requests) := by
  induction requests generalizing c params with
  | nil => exact h
  | cons request rest ih => exact ih (h.run request)

/-! ## What is read -/

/-- A value kept for the current row is the value of the field. -/
theorem Fresh.outcome_computed (hpure : B.Pure row) (h : Fresh row c)
    (hstate : c.state = .positioned) {n : Nat} {e : Bound} (hn : c.expression? n = some e) :
    (computed B n e).outcome c = e.eval (c.onRow (c.session.rows row)) 0 := by
  rw [computed, Run.outcome_bind_of_ok (Run.get_apply c)]
  split
  · rename_i g value hkept
    obtain ⟨hentry, hcurrent⟩ := Option.filter_eq_some_iff.mp hkept
    exact ((h n g value hentry).2 (eq_of_beq hcurrent) hstate e hn).symm
  · -- What is found is answered, and keeping it does not change that.
    rw [← (seen_evaluate hpure rfl e).1]
    cases hstep : evaluate B e c with
    | ok value later =>
      rw [Run.outcome_bind_of_ok hstep, Run.outcome_bind_of_ok (Run.modify_apply _ _), Run.outcome,
        Run.outcome, hstep]
      rfl
    | error failure later =>
      rw [Run.outcome_bind_of_error hstep, Run.outcome_of_error hstep]

/-- A computed field reads as the value of its expression, whether it was kept or not. -/
theorem Fresh.outcome_column (hpure : B.Pure row) (h : Fresh row c) (hstate : c.state = .positioned)
    {n : Nat} {e : Bound} (hn : c.expression? n = some e) :
    (column B n).outcome c = e.eval (c.onRow (c.session.rows row)) 0 := by
  obtain ⟨plan, field, node, hplan, hfield, hkind⟩ := exists_of_expression? hn
  rw [column, Run.outcome_bind_of_ok (demand_of_mem (List.mem_singleton.mpr hstate)),
    Run.outcome_bind_of_ok (planFor_of_some hplan)]
  simp only [hfield, fieldValue, hkind]
  exact h.outcome_computed hpure hstate hn

/-- A cursor that was just prepared has kept nothing and has no parameters. -/
theorem fresh_of_prepare {registry : Registry} {text : String} {world : γ}
    (h : prepare B registry settings text world = .ok c) :
    Fresh row c ∧ Carries settings .empty c := by
  obtain ⟨tree, plan, session, -, -, rfl⟩ := prepare_eq_ok h
  refine ⟨holds_of_empty fun n => ?_, rfl, fun _ => rfl⟩
  rw [Array.getD_eq_getD_getElem?, Array.getElem?_replicate]
  split <;> rfl

/-- On a row a computed field reads as what its expression evaluates to on the current combined row
under the parameters of the latest execution, failures included, whatever was asked of the cursor
before; and so it does where it is evaluated afresh. -/
theorem column_fresh (hpure : B.Pure row) {registry : Registry} {text : String} {world : γ}
    (hprepare : prepare B registry settings text world = .ok c) (requests : List Request)
    (hstate : (c.after B requests).state = .positioned) {n : Nat} {e : Bound}
    (hn : (c.after B requests).expression? n = some e) :
    (column B n).outcome (c.after B requests) =
        e.eval
          { column := (c.after B requests).session.rows row
            params := latest requests
            nulls := settings.nulls
            maxDepth := settings.maxDepth } 0 ∧
      (column B n).outcome (c.after B requests) =
        (evaluate B e).outcome (c.after B requests) := by
  obtain ⟨hfresh, hcarries⟩ : Fresh row c ∧ Carries settings .empty c := fresh_of_prepare hprepare
  have hlater : Fresh row (c.after B requests) :=
    after_induction (fun _ request h => h.run hpure request) requests hfresh
  have hread := hlater.outcome_column hpure hstate hn
  have hrun := hcarries.after (B := B) requests
  have hparams : (c.after B requests).params = latest requests :=
    hrun.params_eq (by rw [hstate]; decide)
  refine ⟨?_, hread.trans (seen_evaluate hpure rfl e).1.symm⟩
  rw [hread, onRow, hparams, hrun.settings_eq]

theorem pure_backend (catalog : Memory.Catalog) :
    (Memory.backend catalog).Pure Memory.Scan.column where
  answer_eq _ _ _ := rfl
  row_eq _ _ _ := rfl

/-- A computed field is read, and read again under another parameter. -/
theorem column_fresh_executed_again :
    ∃ (c : Cursor Memory.Scan Unit) (e : Bound),
      prepare (Memory.backend Memory.oneTable) .empty .default "SELECT a + ? FROM t" () = .ok c ∧
        (column (Memory.backend Memory.oneTable) 0).outcome
            (c.after (Memory.backend Memory.oneTable)
              [.execute (.ofList [.integer 10]), .first, .row, .execute (.ofList [.integer 20]),
                .first]) =
          .ok (.integer 21) ∧
        (column (Memory.backend Memory.oneTable) 0).outcome
            (c.after (Memory.backend Memory.oneTable)
              [.execute (.ofList [.integer 10]), .first, .row, .execute (.ofList [.integer 20]),
                .first]) =
          (evaluate (Memory.backend Memory.oneTable) e).outcome
            (c.after (Memory.backend Memory.oneTable)
              [.execute (.ofList [.integer 10]), .first, .row, .execute (.ofList [.integer 20]),
                .first]) := by
  have hrun : ((prepare (Memory.backend Memory.oneTable) .empty .default "SELECT a + ? FROM t"
      ()).toOption.map fun c =>
        let c := c.after (Memory.backend Memory.oneTable)
          [.execute (.ofList [.integer 10]), .first, .row, .execute (.ofList [.integer 20]), .first]
        (c.state, (c.expression? 0).isSome,
          (column (Memory.backend Memory.oneTable) 0).outcome c)) =
      some (.positioned, true, .ok (.integer 21)) := by
    decide +kernel
  cases h : prepare (Memory.backend Memory.oneTable) .empty .default "SELECT a + ? FROM t" () with
  | error e =>
    rw [h] at hrun
    cases hrun
  | ok c =>
    rw [h] at hrun
    obtain ⟨hstate, hrest⟩ := Prod.mk.inj (Option.some.inj hrun)
    obtain ⟨hsome, hvalue⟩ := Prod.mk.inj hrest
    obtain ⟨e, he⟩ := Option.isSome_iff_exists.mp hsome
    exact ⟨c, e, rfl, hvalue, (column_fresh (pure_backend _) h _ hstate he).2⟩

end Cursor

end SelectEngine
