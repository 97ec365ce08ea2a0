import SelectEngine.Proofs.Cursor.Step
import SelectEngine.Proofs.Memory.Fetch

/-!
# The life of a cursor

What each request does in each state of a cursor (`Cursor.Lifecycle`), for every cursor that a
statement was prepared for and after any requests to it, whatever the providers answer
(`Cursor.lifecycle_after`). A request that the state does not admit fails before any provider is
called: the cursor and all that the providers share stay as they are, and the backend does not matter.
-/

set_option autoImplicit false

namespace SelectEngine.Cursor

variable {σ γ : Type} {B : Backend σ γ} {c : Cursor σ γ}

/-- What the state of a cursor says about every request. -/
structure Lifecycle (B : Backend σ γ) (c : Cursor σ γ) : Prop where
  /-- The plan is there until the cursor is closed. -/
  plan_iff : c.plan.isSome = true ↔ c.state ≠ .closed
  execute_admitted : ∀ params, c.state ∈ [.prepared, .opened, .positioned, .eof] →
    execute params c = .ok () { c with params, state := .opened, generation := c.generation + 1 }
  execute_refused : ∀ params, c.state ∉ [.prepared, .opened, .positioned, .eof] →
    execute params c = .error (.cursorState "execute" c.state.text) c
  first_admitted : c.state ∈ [.opened, .positioned, .eof] → MoveEnds B c (first B c)
  first_refused : c.state ∉ [.opened, .positioned, .eof] → ∀ other : Backend σ γ,
    first other c = .error (.cursorState "first" c.state.text) c
  next_admitted : c.state = .positioned → MoveEnds B c (next B c)
  next_eof : c.state = .eof → ∀ other : Backend σ γ, next other c = .ok .ended c
  next_refused : c.state ∉ [.positioned, .eof] → ∀ other : Backend σ γ,
    next other c = .error (.cursorState "next" c.state.text) c
  column_refused : c.state ≠ .positioned → ∀ (other : Backend σ γ) (n : Nat),
    column other n c = .error (.cursorState "read a column" c.state.text) c
  /-- Away from a row no provider is asked for a column in any other way either. -/
  reading_refused : c.state ≠ .positioned → ∀ (other : Backend σ γ) (request : Request),
    request.reads = true → request.run other c = c
  describe_refused : c.state = .closed → ∀ n : Nat,
    describe n c = .error (.cursorState "describe a column" c.state.text) c
  /-- What is read, found or not, the state stays and so do plan, parameters and generation. -/
  reading : ∀ request : Request, request.reads = true → Kept c (request.run B c)
  close_state : ((close B).final c).state = .closed
  /-- Only closing leaves the bad state. -/
  bad_stays : c.state = .bad → ∀ request : Request, request ≠ .close → request.run B c = c
  closed_stays : c.state = .closed → ∀ request : Request, (request.run B c).state = .closed

theorem run_of_bad (B : Backend σ γ) (h : c.state = .bad) {request : Request}
    (hclose : request ≠ .close) : request.run B c = c := by
  generalize hlater : request.run B c = later
  cases hlater ▸ step_run B c request with
  | refused _ _ => rfl
  | stayed _ => rfl
  | executed _ hstate => exact absurd (h ▸ hstate) (by decide)
  | moved _ _ hstate _ _ => exact absurd (h ▸ hstate) (by decide)
  | read _ hstate _ => exact absurd (h.symm.trans hstate) nofun
  | closed => exact absurd rfl hclose

theorem describe_of_none (n : Nat) (hplan : c.plan = none) (hstate : c.state = .closed) :
    describe n c = .error (.cursorState "describe a column" c.state.text) c := by
  have hrefused : planFor "describe a column" c =
      .error (.cursorState "describe a column" c.state.text) c := by
    rw [planFor, Run.bind_of_ok (Run.get_apply c), hplan, hstate]
    rfl
  exact Run.bind_of_error hrefused

/-- All but the plan is a matter of the state alone. -/
theorem Lifecycle.of_plan (B : Backend σ γ) (h : c.plan.isSome = true ↔ c.state ≠ .closed) :
    Lifecycle B c where
  plan_iff := h
  execute_admitted := Cursor.execute_admitted
  execute_refused := Cursor.execute_refused
  first_admitted hstate := Travels.ends fun _ _ _ hdriven hbound hP =>
    first_lands hdriven hbound hstate hP
  first_refused hstate other := Cursor.first_refused other hstate
  next_admitted hstate := Travels.ends fun _ _ _ hdriven hbound hP =>
    next_lands hdriven hbound hstate hP
  next_eof hstate other := next_of_eof other hstate
  next_refused hstate other := Cursor.next_refused other hstate
  column_refused hstate other n := column_of_ne other n hstate
  reading_refused hstate other _ hreads := run_of_reads_of_ne other hstate hreads
  describe_refused hstate n := by
    have hnone : c.plan = none := by
      cases hplan : c.plan with
      | none => rfl
      | some plan => exact absurd hstate (h.mp (hplan ▸ rfl))
    exact describe_of_none n hnone hstate
  reading _ hreads := kept_of_reads B hreads
  close_state := state_final_close B c
  bad_stays hstate _ hclose := run_of_bad B hstate hclose
  closed_stays hstate request := state_run_of_closed B request hstate

/-! ## The plan -/

/-- The plan is there exactly until the cursor is closed. -/
def Planned (c : Cursor σ γ) : Prop := c.plan.isSome = true ↔ c.state ≠ .closed

theorem Planned.kept {later : Cursor σ γ} (h : Planned c) (hkept : Kept c later) :
    Planned later := by
  rw [Planned, hkept.plan_eq, hkept.state_eq]
  exact h

theorem MoveEnds.planned {move : Run (Cursor σ γ) Landing} (hends : MoveEnds B c (move c))
    (h : Planned c) (hstate : c.state ≠ .closed) : Planned (move.final c) := by
  have hsome : c.plan.isSome = true := h.mpr hstate
  rw [Run.final]
  cases hstep : move c with
  | ok landing later =>
    rw [hstep] at hends
    rw [Planned, hends.1.plan_eq, hends.1.state_eq]
    exact ⟨fun _ => by cases landing <;> exact nofun, fun _ => hsome⟩
  | error e later =>
    rw [hstep] at hends
    rw [Planned, hends.1.plan_eq, hends.1.state_eq]
    exact ⟨fun _ => nofun, fun _ => hsome⟩

theorem planned_final_close (B : Backend σ γ) (c : Cursor σ γ) : Planned ((close B).final c) := by
  rw [final_close]
  exact ⟨nofun, fun hstate => absurd rfl hstate⟩

theorem Planned.run (h : Planned c) (request : Request) : Planned (request.run B c) := by
  have hne : ∀ {allowed : List CursorState}, .closed ∉ allowed → c.state ∈ allowed →
      c.state ≠ .closed := fun hnot hmem hclosed => hnot (hclosed ▸ hmem)
  generalize hlater : request.run B c = later
  cases hlater ▸ step_run B c request with
  | refused _ _ => exact h
  | stayed _ => exact h
  | executed params hstate => exact ⟨fun _ => nofun, fun _ => h.mpr (hne (by decide) hstate)⟩
  | moved _ _ hstate _ hmove => exact hmove.ends.planned h (hne (by decide) hstate)
  | read _ _ hreads => exact h.kept (kept_of_reads B hreads)
  | closed => exact planned_final_close B c

theorem planned_of_ofTree {registry : Registry} {settings : Settings} {tree : Tree} {world : γ}
    (h : ofTree B registry settings tree world = .ok c) : Planned c := by
  unfold ofTree at h
  split at h
  · cases h
    exact ⟨fun _ => nofun, fun _ => rfl⟩
  · cases h

/-- A cursor that was prepared goes through its states as it should, after any requests and whatever
the providers answer. -/
theorem lifecycle_after {registry : Registry} {settings : Settings} {text : String} {world : γ}
    (h : prepare B registry settings text world = .ok c) (requests : List Request) :
    Lifecycle B (c.after B requests) := by
  have hplanned : Planned c := by
    unfold prepare at h
    split at h
    · exact planned_of_ofTree h
    · cases h
  apply Lifecycle.of_plan
  exact after_induction (fun _ request hplan => hplan.run request) requests hplanned

/-- A move that fails in the WHERE clause leaves the cursor bad. -/
theorem lifecycle_after_failed_first :
    ∃ c, prepare (Memory.backend Memory.oneTable) .empty .default
        "SELECT a FROM t WHERE 1 / (a - 2) < 0" () = .ok c ∧
      (c.after (Memory.backend Memory.oneTable) [.execute .empty, .first]).state = .positioned ∧
      (c.after (Memory.backend Memory.oneTable) [.execute .empty, .first, .next]).state = .bad ∧
      Lifecycle (Memory.backend Memory.oneTable)
        (c.after (Memory.backend Memory.oneTable) [.execute .empty, .first, .next]) := by
  have hstates : ((prepare (Memory.backend Memory.oneTable) .empty .default
      "SELECT a FROM t WHERE 1 / (a - 2) < 0" ()).toOption.map fun c =>
        ((c.after (Memory.backend Memory.oneTable) [.execute .empty, .first]).state,
          (c.after (Memory.backend Memory.oneTable) [.execute .empty, .first, .next]).state)) =
      some (.positioned, .bad) := by
    decide +kernel
  cases h : prepare (Memory.backend Memory.oneTable) .empty .default
      "SELECT a FROM t WHERE 1 / (a - 2) < 0" () with
  | error e =>
    rw [h] at hstates
    cases hstates
  | ok c =>
    rw [h] at hstates
    have hpair := Prod.mk.inj (Option.some.inj hstates)
    exact ⟨c, rfl, hpair.1, hpair.2, lifecycle_after h [.execute .empty, .first, .next]⟩

end SelectEngine.Cursor
