import SelectEngine.Proofs.Cursor.Rules

/-!
# What a move does to the cursor

A move leaves the plan, the parameters, the settings and the kept values of a cursor as they are, and
its generation grows with each combined row that the move comes to (`Cursor.Moved`). What it does to
the sources follows from what their computations do (`Session.Driven`).
-/

set_option autoImplicit false

namespace SelectEngine

/-- The combined rows that a move has come to, at least, by how it ended. -/
def Landing.passed (bound : Nat) : Landing → Nat
  | .row => 1
  | .ended => 0
  | .givenUp => bound

theorem Landing.passed_mono {bound limit : Nat} (hle : bound ≤ limit) (landing : Landing) :
    landing.passed bound ≤ landing.passed limit := by
  cases landing with
  | row | ended => exact Nat.le_refl _
  | givenUp => exact hle

namespace Cursor

variable {σ γ α : Type} {B : Backend σ γ} {P F : Session σ γ → Prop}
variable {c later : Cursor σ γ} {state : CursorState} {rows bound : Nat}

/-- The later cursor is the earlier one in another state, at least so many combined rows further. -/
structure Moved (c : Cursor σ γ) (state : CursorState) (rows : Nat) (later : Cursor σ γ) : Prop where
  plan_eq : later.plan = c.plan
  params_eq : later.params = c.params
  settings_eq : later.settings = c.settings
  cache_eq : later.cache = c.cache
  state_eq : later.state = state
  generation_le : c.generation + rows ≤ later.generation

theorem Moved.refl (c : Cursor σ γ) : Moved c c.state 0 c :=
  ⟨rfl, rfl, rfl, rfl, rfl, Nat.le_refl _⟩

theorem Moved.mono (h : Moved c state rows later) {fewer : Nat} (hle : fewer ≤ rows) :
    Moved c state fewer later :=
  { h with generation_le := Nat.le_trans (Nat.add_le_add_left hle _) h.generation_le }

theorem Moved.ignoresSession (c : Cursor σ γ) (state : CursorState) (rows : Nat) :
    IgnoresSession (Moved c state rows) :=
  fun _ _ h => { h with }

/-- A cursor in the middle of a move, its session in `P`. -/
abbrev Under (c : Cursor σ γ) (rows : Nat) (P : Session σ γ → Prop) : Cursor σ γ → Prop :=
  Over (Moved c c.state rows) P

theorem Under.mono (h : Under c rows P later) {fewer : Nat} (hle : fewer ≤ rows) :
    Under c fewer P later :=
  ⟨h.1.mono hle, h.2⟩

theorem leads_renew :
    Run.Leads (Under c rows P) renew (fun _ => Under c (rows + 1) P) (Under c rows P) := by
  apply Run.leads_modify
  rintro later ⟨hmoved, hsession⟩
  exact ⟨{ hmoved with generation_le := Nat.succ_le_succ hmoved.generation_le }, hsession⟩

/-- A failure ends the move, however many rows it has passed. -/
theorem leads_failing {x : Run (Cursor σ γ) α} {Q : α → Cursor σ γ → Prop}
    {F' : Session σ γ → Prop} (hx : Run.Leads (Under c rows P) x Q (Under c rows F'))
    (hF : ∀ session, F' session → F session) :
    Run.Leads (Under c rows P) x Q (Under c 0 F) :=
  hx.weaken (fun _ h => h) (fun _ _ h => h) fun _ h => ⟨h.1.mono (Nat.zero_le _), hF _ h.2⟩

theorem leads_forward (h : Session.Driven B P F) : ∀ (limit : Nat) {rows : Nat},
    Run.Leads (Under c rows P) (forward B limit)
      (fun landing => Under c (rows + landing.passed limit) P) (Under c 0 F)
  | 0, _ => Run.leads_pure fun _ h => h
  | limit + 1, rows => by
    apply Run.leads_bind
      (leads_failing (leads_onSession (Moved.ignoresSession _ _ _) h.leads_forward) fun _ hF => hF)
    intro found
    split
    · apply Run.leads_bind (leads_failing leads_renew h.fails)
      intro _
      apply Run.leads_bind (leads_failing (leads_satisfied (Moved.ignoresSession _ _ _) h.column)
        h.fails)
      intro holds
      split
      · exact Run.leads_pure fun _ h => h
      · -- One row has been passed, and the rest of the move passes the others.
        refine (leads_forward h limit).weaken (fun _ h => h) ?_ (fun _ h => h)
        intro landing later hunder
        apply hunder.mono
        cases landing <;> simp only [Landing.passed] <;> omega
    · exact Run.leads_pure fun _ h => h

/-- Going forward over as many rows as the backend expects at most. -/
theorem leads_forward_rowBound (h : Session.Driven B P F)
    (hbound : ∀ session, P session → bound ≤ Nat.pow (B.rowLimit + 1) session.sources.length) :
    Run.Leads (Under c rows P) (do forward B (← rowBound B))
      (fun landing => Under c (landing.passed bound) P) (Under c 0 F) := by
  apply Run.leads_bind
    (leads_failing (leads_rowBound (Moved.ignoresSession _ _ _)) h.fails)
  rintro limit later ⟨rfl, hunder⟩
  have hle : bound ≤ Nat.pow (B.rowLimit + 1) later.session.sources.length := hbound _ hunder.2
  refine ((leads_forward h _).weaken (fun _ h => h) ?_ (fun _ h => h)) later hunder
  intro landing last hlast
  apply hlast.mono
  exact Nat.le_trans (Landing.passed_mono hle landing) (Nat.le_add_left _ _)

theorem leads_start (h : Session.Driven B P F)
    (hbound : ∀ session, P session → bound ≤ Nat.pow (B.rowLimit + 1) session.sources.length) :
    Run.Leads (Under c 0 P) (start B) (fun landing => Under c (landing.passed bound) P)
      (Under c 0 F) := by
  apply Run.leads_bind (leads_onSession (Moved.ignoresSession _ _ _) h.leads_start)
  intro found
  split
  · apply Run.leads_bind (leads_failing leads_renew h.fails)
    intro _
    apply Run.leads_bind (leads_failing (leads_satisfied (Moved.ignoresSession _ _ _) h.column)
      h.fails)
    intro holds
    split
    · exact Run.leads_pure fun _ h => h
    · exact leads_forward_rowBound h hbound
  · exact Run.leads_pure fun _ h => h

/-! ## Landing -/

/-- How a move ends: on a row or past the last one, or in a bad state if it is given up or fails. -/
def Lands (c : Cursor σ γ) (bound : Nat) (P F : Session σ γ → Prop) :
    EStateM.Result Error (Cursor σ γ) Landing → Prop
  | .ok landing later => Moved c landing.state (landing.passed bound) later ∧ P later.session
  | .error _ later => Moved c .bad 0 later ∧ F later.session

theorem land_apply {move : Run (Cursor σ γ) Landing}
    (hmove : Run.Leads (Under c 0 P) move (fun landing => Under c (landing.passed bound) P)
      (Under c 0 F))
    (hP : P c.session) : Lands c bound P F (land move c) := by
  have h := hmove c ⟨Moved.refl c, hP⟩
  unfold land
  cases hstep : move c with
  | ok landing later =>
    rw [hstep] at h
    exact ⟨{ h.1 with state_eq := rfl }, h.2⟩
  | error e later =>
    rw [hstep] at h
    exact ⟨{ h.1 with state_eq := rfl }, h.2⟩

theorem first_lands (h : Session.Driven B P F)
    (hbound : ∀ session, P session → bound ≤ Nat.pow (B.rowLimit + 1) session.sources.length)
    (hstate : c.state ∈ [.opened, .positioned, .eof]) (hP : P c.session) :
    Lands c bound P F (first B c) := by
  rw [first, Run.bind_of_ok (demand_of_mem hstate)]
  exact land_apply (leads_start h hbound) hP

theorem next_lands (h : Session.Driven B P F)
    (hbound : ∀ session, P session → bound ≤ Nat.pow (B.rowLimit + 1) session.sources.length)
    (hstate : c.state = .positioned) (hP : P c.session) : Lands c bound P F (next B c) := by
  have hnot : c.state ≠ .eof := hstate ▸ nofun
  rw [next, Run.bind_of_ok (Run.get_apply c), if_neg hnot,
    Run.bind_of_ok (demand_of_mem (List.mem_singleton.mpr hstate))]
  exact land_apply (leads_forward_rowBound h hbound) hP

/-! ## Requests that the state does not admit -/

theorem execute_refused (params : Params)
    (h : c.state ∉ [.prepared, .opened, .positioned, .eof]) :
    execute params c = .error (.cursorState "execute" c.state.text) c :=
  Run.bind_of_error (demand_of_not_mem h)

theorem execute_admitted (params : Params) (h : c.state ∈ [.prepared, .opened, .positioned, .eof]) :
    execute params c = .ok () { c with params, state := .opened, generation := c.generation + 1 } :=
  Run.bind_of_ok (demand_of_mem h)

theorem first_refused (B : Backend σ γ) (h : c.state ∉ [.opened, .positioned, .eof]) :
    first B c = .error (.cursorState "first" c.state.text) c :=
  Run.bind_of_error (demand_of_not_mem h)

theorem next_of_eof (B : Backend σ γ) (h : c.state = .eof) : next B c = .ok .ended c := by
  rw [next, Run.bind_of_ok (Run.get_apply c), if_pos h, Run.pure_apply]

theorem next_refused (B : Backend σ γ) (h : c.state ∉ [.positioned, .eof]) :
    next B c = .error (.cursorState "next" c.state.text) c := by
  have hnot : c.state ≠ .eof := fun heq => h (by rw [heq]; decide)
  have hrefused : c.state ∉ [CursorState.positioned] :=
    fun hmem => h (by rw [List.mem_singleton.mp hmem]; decide)
  rw [next, Run.bind_of_ok (Run.get_apply c), if_neg hnot,
    Run.bind_of_error (demand_of_not_mem hrefused)]

end Cursor

end SelectEngine
