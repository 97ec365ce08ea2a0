import SelectEngine.Proofs.Memory.Fetch
import SelectEngine.Proofs.Ordinary.Binding
import SelectEngine.Query

/-!
# Queries over tables in memory fail ordinarily

A query over tables in memory is the answer of the plan of its text (`Memory.query_eq_answer`): the
sources close whatever was asked of them, and no scan is given up. A text has a sound plan or fails
ordinarily, and the answer of a sound plan is its rows or an ordinary failure. So no query over
tables in memory ends with a failure that its text, the tables, the parameters and the settings do
not account for (`Memory.query_ordinary`).
-/

set_option autoImplicit false

namespace SelectEngine

/-! ## Queries from fetching and closing -/

section

variable {σ γ : Type} {B : Backend σ γ} {registry : Registry} {settings : Settings} {text : String}
variable {params : Params} {world : γ}

/-- A failure to fetch comes before a failure to close. -/
theorem query_of_prepared {c : Cursor σ γ}
    (h : Cursor.prepare B registry settings text world = .ok c) :
    (query B registry settings text params world).1 = (do
      let rows ← (Cursor.fetchAll B params).outcome c
      (Cursor.close B).outcome ((Cursor.fetchAll B params).final c)
      .ok rows) := by
  unfold query
  rw [h]
  dsimp only
  rw [Run.bind_of_ok (Run.attempt_apply _ c), Run.bind_of_ok (Run.attempt_apply _ _)]
  cases (Cursor.fetchAll B params).outcome c with
  | error e => rfl
  | ok rows =>
    cases (Cursor.close B).outcome ((Cursor.fetchAll B params).final c) with
    | error e => rfl
    | ok closed => rfl

theorem query_of_failed {e : Error} {later : γ}
    (h : Cursor.prepare B registry settings text world = .error (e, later)) :
    (query B registry settings text params world).1 = .error e := by
  unfold query
  rw [h]

end

namespace Memory

variable {catalog : Catalog}

/-! ## Closing -/

/-- A source over tables in memory closes, open or not. -/
theorem close_source (catalog : Catalog) (source : Source Scan) :
    ∃ later, Source.close (backend catalog) (source, ()) = .ok () (later, ()) := by
  obtain ⟨aliasName, name, provider, _ | _⟩ := source
  · exact ⟨_, rfl⟩
  · exact ⟨_, rfl⟩

/-- A source that is there closes, and stays in its place. -/
theorem attempt_close (catalog : Catalog) {session : Session Scan Unit} {i : Nat}
    (hi : i < session.sources.length) :
    ∃ later, attempt (Session.at_ i (Source.close (backend catalog))) session =
        .ok (.ok ()) later ∧ later.sources.length = session.sources.length := by
  obtain ⟨source, hclose⟩ := close_source catalog session.sources[i]
  refine ⟨⟨session.sources.set i source, ()⟩, ?_, List.length_set⟩
  unfold attempt
  rw [Session.at_apply_ok (List.getElem?_eq_getElem hi) hclose]

/-- Sources that are there close one after the other. -/
theorem closeEach_apply (catalog : Catalog) {is : List Nat} {session : Session Scan Unit}
    (h : ∀ i ∈ is, i < session.sources.length) :
    ∃ later, Session.closeEach (backend catalog) is session = .ok none later := by
  induction is generalizing session with
  | nil => exact ⟨session, rfl⟩
  | cons i rest ih =>
    obtain ⟨hi, hrest⟩ := List.forall_mem_cons.mp h
    obtain ⟨closed, hclose, hlength⟩ := attempt_close catalog hi
    rw [← hlength] at hrest
    obtain ⟨later, hothers⟩ := ih hrest
    refine ⟨later, ?_⟩
    rw [Session.closeEach, Run.bind_of_ok hclose, Run.bind_of_ok hothers]
    rfl

/-- A cursor over tables in memory closes, whatever was asked of it. -/
theorem outcome_close (c : Cursor Scan Unit) :
    (Cursor.close (backend catalog)).outcome c = .ok () := by
  have hthere : ∀ i ∈ List.range c.session.sources.length, i < c.session.sources.length :=
    fun _ hi => List.mem_range.mp hi
  obtain ⟨later, hclosed⟩ := closeEach_apply catalog hthere
  have hall : (Session.closeAll (backend catalog)).outcome c.session = .ok () := by
    have hcount : Session.count c.session = .ok c.session.sources.length c.session := rfl
    rw [Session.closeAll, Run.outcome_bind_of_ok hcount, Run.outcome_bind_of_ok hclosed]
    rfl
  rw [Cursor.close, Run.outcome_bind_of_ok (Run.attempt_apply _ c), Cursor.outcome_onSession, hall]
  rfl

/-! ## Queries -/

variable {registry : Registry} {settings : Settings} {text : String} {params : Params}

/-- A query over tables in memory is the answer of the plan of its text, of which all rows are
fetched. -/
theorem query_eq_answer :
    (query (backend catalog) registry settings text params ()).1 =
      (Plan.ofText catalog registry settings text >>= fun plan =>
        (plan.answer catalog settings params).map some) := by
  cases hplan : Plan.ofText catalog registry settings text with
  | error e => exact query_of_failed (prepare_of_error hplan)
  | ok plan =>
    obtain ⟨c, places, hprepare, hstate, hrunning⟩ := prepare_of_plan hplan
    have hadmitted : c.state ∈ [CursorState.prepared, .opened, .positioned, .eof] := by
      rw [hstate]
      exact List.mem_cons_self
    rw [query_of_prepared hprepare, hrunning.outcome_fetchAll params hadmitted, outcome_close,
      Outcome.ok_bind]
    cases plan.answer catalog settings params <;> rfl

/-- Whatever the text, the tables, the parameters and the settings: a query with the functions that
every registry starts with has all its rows, or fails for a reason that these account for. -/
theorem query_ordinary (catalog : Catalog) (settings : Settings) (text : String)
    (params : Params) :
    match (query (backend catalog) .withBuiltins settings text params ()).1 with
    | .ok rows => ∃ found, rows = some found
    | .error e => e.Ordinary := by
  have hquery : Ordinarily (query (backend catalog) .withBuiltins settings text params ()).1
      fun rows => ∃ found, rows = some found := by
    rw [query_eq_answer]
    apply ordinarily_bind
      (Plan.ordinarily_ofText catalog Registry.withBuiltins_ordinary settings text)
    rintro plan ⟨tables, hsound, htables⟩
    apply ordinarily_map
    exact (hsound.answer htables).mono fun rows _ => ⟨rows, rfl⟩
  generalize (query (backend catalog) .withBuiltins settings text params ()).1 = outcome at hquery ⊢
  cases outcome <;> exact hquery

end Memory

end SelectEngine
