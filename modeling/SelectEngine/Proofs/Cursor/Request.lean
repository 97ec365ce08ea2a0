import SelectEngine.Proofs.Run
import SelectEngine.Query

/-!
# Requests to a cursor

What can be asked of a cursor, and the cursor after it was asked, whether the answer was a failure
or not (`Cursor.after`).
-/

set_option autoImplicit false

namespace SelectEngine.Cursor

variable {σ γ α : Type}

/-- Something that is asked of a cursor. -/
inductive Request where
  | execute (params : Params)
  | first
  | next
  | column (n : Nat)
  | columnByName (name : String)
  | row
  | close

/-- The cursor after a request. -/
def Request.run (B : Backend σ γ) (c : Cursor σ γ) : Request → Cursor σ γ
  | execute params => (Cursor.execute params).final c
  | first => (Cursor.first B).final c
  | next => (Cursor.next B).final c
  | column n => (Cursor.column B n).final c
  | columnByName name => (Cursor.columnByName B name).final c
  | row => (Cursor.row B).final c
  | close => (Cursor.close B).final c

/-- The cursor after several requests. -/
def after (B : Backend σ γ) (c : Cursor σ γ) : List Request → Cursor σ γ
  | [] => c
  | request :: rest => (request.run B c).after B rest

/-- What every request preserves is preserved by any number of them. -/
theorem after_induction {B : Backend σ γ} {P : Cursor σ γ → Prop}
    (step : ∀ (c : Cursor σ γ) (request : Request), P c → P (request.run B c)) :
    ∀ (requests : List Request) {c : Cursor σ γ}, P c → P (c.after B requests)
  | [], _, h => h
  | request :: rest, c, h => after_induction step rest (step c request h)

theorem after_append (B : Backend σ γ) (c : Cursor σ γ) (front back : List Request) :
    c.after B (front ++ back) = (c.after B front).after B back := by
  induction front generalizing c with
  | nil => rfl
  | cons request rest ih => exact ih (request.run B c)

/-! ## A cursor that was prepared -/

/-- A cursor that was prepared has the plan that its text was bound to, over the sources that were
opened for it, and has run nothing. -/
theorem prepare_eq_ok {B : Backend σ γ} {registry : Registry} {settings : Settings} {text : String}
    {world : γ} {c : Cursor σ γ} (h : prepare B registry settings text world = .ok c) :
    ∃ tree plan session, parse settings.reading text = .ok tree ∧
      Session.bind B registry settings tree ⟨[], world⟩ = .ok plan session ∧
      c = { plan := some plan, session, params := .empty, state := .prepared, settings,
            generation := 0, cache := Array.replicate plan.fields.length none } := by
  unfold prepare at h
  split at h
  · next tree htree =>
    unfold ofTree at h
    split at h
    · next plan session hbind =>
      cases h
      exact ⟨tree, plan, session, htree, hbind, rfl⟩
    · cases h
  · cases h

/-! ## What an operation asks of the cursor -/

variable {c : Cursor σ γ} {operation : String} {allowed : List CursorState}

theorem demand_of_mem (h : c.state ∈ allowed) : demand operation allowed c = .ok () c := by
  rw [demand, Run.bind_of_ok (Run.get_apply c), if_pos h]
  rfl

theorem demand_of_not_mem (h : c.state ∉ allowed) :
    demand operation allowed c = .error (.cursorState operation c.state.text) c := by
  rw [demand, Run.bind_of_ok (Run.get_apply c), if_neg h]
  rfl

theorem planFor_of_some {plan : Plan} (h : c.plan = some plan) :
    planFor operation c = .ok plan c := by
  rw [planFor, Run.bind_of_ok (Run.get_apply c), h]
  rfl

theorem final_onSession (x : Run (Session σ γ) α) (c : Cursor σ γ) :
    (onSession x).final c = { c with session := x.final c.session } := by
  rw [Run.final, Run.final, onSession]
  cases x c.session <;> rfl

theorem outcome_onSession (x : Run (Session σ γ) α) (c : Cursor σ γ) :
    (onSession x).outcome c = x.outcome c.session := by
  rw [Run.outcome, Run.outcome, onSession]
  cases x c.session <;> rfl

/-- Nothing is read from a cursor that is not on a row. -/
theorem column_of_ne (B : Backend σ γ) (n : Nat) (h : c.state ≠ .positioned) :
    column B n c = .error (.cursorState "read a column" c.state.text) c := by
  have hnot : c.state ∉ [CursorState.positioned] := fun hmem => h (List.mem_singleton.mp hmem)
  rw [column, Run.bind_of_error (demand_of_not_mem hnot)]

theorem final_row_of_ne (B : Backend σ γ) (h : c.state ≠ .positioned) :
    (row B).final c = c := by
  rw [row, Run.final_bind_of_ok (Run.get_apply c)]
  cases List.range c.columnCount with
  | nil => rfl
  | cons n ns => exact Run.final_bind_of_error (column_of_ne B n h)

/-! ## Closing -/

theorem final_close (B : Backend σ γ) (c : Cursor σ γ) :
    (close B).final c =
      { c with plan := none, session := ⟨[], ((Session.closeAll B).final c.session).world⟩,
               params := .empty, state := .closed, cache := #[] } := by
  rw [close, Run.final_bind_of_ok (Run.attempt_apply _ c),
    Run.final_bind_of_ok (Run.modify_apply _ _), Run.final_relay rfl, final_onSession]

theorem state_final_close (B : Backend σ γ) (c : Cursor σ γ) :
    ((close B).final c).state = .closed := by
  rw [final_close]

/-- A closed cursor stays closed. -/
theorem state_run_of_closed (B : Backend σ γ) (request : Request) (h : c.state = .closed) :
    (request.run B c).state = .closed := by
  have hcolumn : ∀ n, (column B n).final c = c := fun n =>
    Run.final_of_error (column_of_ne B n (h ▸ nofun))
  have hrefused : ∀ {operation : String} {α : Type} {allowed : List CursorState}
      {x : Run (Cursor σ γ) α}, CursorState.closed ∉ allowed →
      (demand operation allowed >>= fun _ => x).final c = c := fun hnot =>
    Run.final_bind_of_error (demand_of_not_mem (h ▸ hnot))
  cases request with
  | execute params =>
    rw [Request.run, execute, hrefused (by decide)]
    exact h
  | first =>
    rw [Request.run, first, hrefused (by decide)]
    exact h
  | next =>
    rw [Request.run, next, Run.final_bind_of_ok (Run.get_apply c), if_neg (h ▸ nofun),
      hrefused (by decide)]
    exact h
  | column n =>
    rw [Request.run, hcolumn]
    exact h
  | columnByName name =>
    rw [Request.run, columnByName, Run.final_bind_of_ok (Run.get_apply c)]
    split
    · rw [hcolumn]
      exact h
    · exact h
  | row =>
    rw [Request.run, final_row_of_ne B (h ▸ nofun)]
    exact h
  | close => exact state_final_close B c

theorem state_after_of_closed (B : Backend σ γ) (requests : List Request) (h : c.state = .closed) :
    (c.after B requests).state = .closed :=
  after_induction (P := fun c => c.state = .closed)
    (fun _ request h => state_run_of_closed B request h) requests h

end SelectEngine.Cursor
