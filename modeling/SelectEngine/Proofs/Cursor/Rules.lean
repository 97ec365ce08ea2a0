import SelectEngine.Proofs.Cursor.Request
import SelectEngine.Proofs.Session.Driven

/-!
# Where the parts of requests lead

A request is made of computations on the sources and of changes to the rest of the cursor. What the
former lead to is said by a property `P` of the session, and what is known of the rest by a property
`R` of the cursor that no computation on the sources can break (`Cursor.IgnoresSession`).
-/

set_option autoImplicit false

namespace SelectEngine.Cursor

variable {σ γ α : Type} {B : Backend σ γ} {P F : Session σ γ → Prop}
variable {R : Cursor σ γ → Prop}

/-- The property does not depend on the sources. -/
def IgnoresSession (R : Cursor σ γ → Prop) : Prop :=
  ∀ c session, R c → R { c with session }

/-- The cursor has one property and its session the other. -/
def Over (R : Cursor σ γ → Prop) (P : Session σ γ → Prop) (c : Cursor σ γ) : Prop :=
  R c ∧ P c.session

/-- A computation on the sources changes nothing else. -/
theorem leads_onSession (hR : IgnoresSession R) {x : Run (Session σ γ) α}
    {Q : α → Session σ γ → Prop} (hx : Run.Leads P x Q F) :
    Run.Leads (Over R P) (onSession x) (fun a => Over R (Q a)) (Over R F) := by
  rintro c ⟨hcursor, hsession⟩
  have h := hx c.session hsession
  unfold onSession
  cases hstep : x c.session with
  | ok a session =>
    rw [hstep] at h
    exact ⟨hR c session hcursor, h⟩
  | error e session =>
    rw [hstep] at h
    exact ⟨hR c session hcursor, h⟩

theorem leads_planFor {I : Cursor σ γ → Prop} (operation : String) :
    Run.Leads I (planFor operation) (fun plan c => I c ∧ c.plan = some plan) I := by
  apply Run.leads_get
  intro seen hseen
  split
  · rename_i plan hplan
    apply Run.leads_pure
    rintro c rfl
    exact ⟨hseen, hplan⟩
  · apply Run.leads_throw
    rintro c rfl
    exact hseen

theorem leads_demand {I : Cursor σ γ → Prop} (operation : String) (allowed : List CursorState) :
    Run.Leads I (demand operation allowed) (fun _ c => I c ∧ c.state ∈ allowed) I := by
  intro c h
  by_cases hmem : c.state ∈ allowed
  · rw [demand_of_mem hmem]
    exact ⟨h, hmem⟩
  · rw [demand_of_not_mem hmem]
    exact h

theorem leads_evaluate (hR : IgnoresSession R) (h : Session.Reads B P) (e : Bound) :
    Run.Leads (Over R P) (evaluate B e) (fun _ => Over R P) (Over R P) := by
  rw [evaluate_eq]
  apply Run.leads_get
  intro seen hseen
  have heval : Run.Leads P (e.eval (seen.environment B) 0) (fun _ => P) P :=
    h.leads_eval (fun _ _ => rfl) 0 e
  refine (leads_onSession hR heval).weaken ?_ (fun _ _ h => h) (fun _ h => h)
  rintro c rfl
  exact hseen

/-- Whether a row satisfies the WHERE clause is found by evaluating. -/
theorem leads_satisfied (hR : IgnoresSession R) (h : Session.Reads B P) :
    Run.Leads (Over R P) (satisfied B) (fun _ => Over R P) (Over R P) := by
  apply Run.leads_bind (leads_planFor _)
  intro plan
  refine Run.Leads.weaken ?_ (fun _ h => h.1) (fun _ _ h => h) (fun _ h => h)
  split
  · exact Run.leads_pure fun _ h => h
  · apply Run.leads_bind (leads_evaluate hR h _)
    intro v
    split
    · exact Run.leads_pure fun _ h => h
    · exact Run.leads_pure fun _ h => h
    · exact Run.leads_throw fun _ h => h

/-- The bound of a search grows with the number of sources. -/
theorem leads_rowBound (hR : IgnoresSession R) :
    Run.Leads (Over R P) (rowBound B)
      (fun limit c => limit = Nat.pow (B.rowLimit + 1) c.session.sources.length ∧ Over R P c)
      (Over R P) := by
  apply Run.leads_bind (leads_onSession hR Session.leads_count)
  intro n
  apply Run.leads_pure
  rintro c ⟨hcursor, hsession, rfl⟩
  exact ⟨rfl, hcursor, hsession⟩

/-! ## Reading -/

/-- A column is read from a source, or computed, or at hand. -/
theorem leads_column (hR : IgnoresSession R) (h : Session.Reads B P) (n : Nat)
    (hcomputed : ∀ (plan : Plan) (field : Field) (node : NodeId) (e : Bound),
      plan.fields[n]? = some field → field.kind = .computed node e →
      Run.Leads (fun c => Over R P c ∧ c.plan = some plan) (computed B n e) (fun _ => Over R P)
        (Over R P)) :
    Run.Leads (Over R P) (column B n) (fun _ => Over R P) (Over R P) := by
  apply Run.leads_bind (leads_demand _ _)
  intro _
  refine Run.Leads.weaken ?_ (fun _ h => h.1) (fun _ _ h => h) (fun _ h => h)
  apply Run.leads_bind (leads_planFor _)
  intro plan
  split
  · rename_i field hfield
    unfold fieldValue
    split
    · exact Run.leads_pure fun _ h => h.1
    · apply Run.leads_get
      intro seen hseen
      apply Run.leads_pure
      rintro c rfl
      exact hseen.1
    · rename_i ref hkind
      exact (leads_onSession hR (h ref.source ref.position)).weaken (fun _ h => h.1)
        (fun _ _ h => h) (fun _ h => h)
    · rename_i node e hkind
      exact hcomputed plan field node e hfield hkind
  · exact Run.leads_throw fun _ h => h.1

variable {I : Cursor σ γ → Prop}

/-- What reading one column preserves is preserved by reading several. -/
theorem leads_columns (h : ∀ n, Run.Leads I (column B n) (fun _ => I) I) :
    ∀ ns : List Nat, Run.Leads I (columns B ns) (fun _ => I) I
  | [] => Run.leads_pure fun _ hI => hI
  | n :: rest => by
    apply Run.leads_bind (h n)
    intro v
    apply Run.leads_bind (leads_columns h rest)
    intro vs
    exact Run.leads_pure fun _ hI => hI

theorem leads_row (h : ∀ n, Run.Leads I (column B n) (fun _ => I) I) :
    Run.Leads I (row B) (fun _ => I) I := by
  apply Run.leads_get
  intro seen hseen
  refine (leads_columns h _).weaken ?_ (fun _ _ hI => hI) (fun _ hI => hI)
  rintro c rfl
  exact hseen

theorem leads_columnByName (h : ∀ n, Run.Leads I (column B n) (fun _ => I) I) (name : String) :
    Run.Leads I (columnByName B name) (fun _ => I) I := by
  apply Run.leads_get
  intro seen hseen
  have hsame : ∀ c, c = seen → I c := by
    rintro c rfl
    exact hseen
  split
  · exact (h _).weaken hsame (fun _ _ hI => hI) (fun _ hI => hI)
  · exact Run.leads_throw hsame

/-! ## What reading leaves as it is -/

/-- The later cursor differs from the earlier one at most in its sources and in the values that it
keeps. -/
structure Kept (c later : Cursor σ γ) : Prop where
  plan_eq : later.plan = c.plan
  params_eq : later.params = c.params
  settings_eq : later.settings = c.settings
  state_eq : later.state = c.state
  generation_eq : later.generation = c.generation

variable {c : Cursor σ γ}

theorem Kept.refl (c : Cursor σ γ) : Kept c c := ⟨rfl, rfl, rfl, rfl, rfl⟩

theorem Kept.ignoresSession (c : Cursor σ γ) : IgnoresSession (Kept c) :=
  fun _ _ h => { h with }

theorem leads_computed_kept (h : Session.Reads B P) (n : Nat) (e : Bound) :
    Run.Leads (Over (Kept c) P) (computed B n e) (fun _ => Over (Kept c) P)
      (Over (Kept c) P) := by
  apply Run.leads_get
  intro seen hseen
  have hsame : ∀ later, later = seen → Over (Kept c) P later := by
    rintro later rfl
    exact hseen
  split
  · exact Run.leads_pure hsame
  · apply Run.leads_bind
      ((leads_evaluate (Kept.ignoresSession c) h e).weaken hsame (fun _ _ h => h) (fun _ h => h))
    intro v
    apply Run.leads_bind (Q := fun _ => Over (Kept c) P)
    · apply Run.leads_modify
      rintro later ⟨hkept, hsession⟩
      exact ⟨{ hkept with }, hsession⟩
    · intro _
      exact Run.leads_pure fun _ h => h

theorem leads_column_kept (h : Session.Reads B P) (n : Nat) :
    Run.Leads (Over (Kept c) P) (column B n) (fun _ => Over (Kept c) P) (Over (Kept c) P) := by
  apply leads_column (Kept.ignoresSession c) h
  intro plan field node e _ _
  exact (leads_computed_kept h n e).weaken (fun _ h => h.1) (fun _ _ h => h) (fun _ h => h)

/-- A request that reads from the current row. -/
def Request.reads : Request → Bool
  | column _ | columnByName _ | row => true
  | execute _ | first | next | close => false

theorem final_columnByName_of_ne (B : Backend σ γ) (name : String) (h : c.state ≠ .positioned) :
    (columnByName B name).final c = c := by
  rw [columnByName, Run.final_bind_of_ok (Run.get_apply c)]
  split
  · exact Run.final_of_error (column_of_ne B _ h)
  · rfl

/-- Away from a row nothing is read. -/
theorem run_of_reads_of_ne (B : Backend σ γ) (h : c.state ≠ .positioned) {request : Request}
    (hreads : request.reads = true) : request.run B c = c := by
  cases request with
  | column n => exact Run.final_of_error (column_of_ne B n h)
  | columnByName name => exact final_columnByName_of_ne B name h
  | row => exact final_row_of_ne B h
  | execute _ | first | next | close => cases hreads

/-- On a row the sources are asked, and the values found are kept. -/
theorem run_of_reads (h : Session.Reads B P) (hP : c.state = .positioned → P c.session)
    {request : Request} (hreads : request.reads = true) :
    request.run B c = c ∨ c.state = .positioned ∧ Over (Kept c) P (request.run B c) := by
  by_cases hpositioned : c.state = .positioned
  · have hstart : Over (Kept c) P c := ⟨Kept.refl c, hP hpositioned⟩
    refine Or.inr ⟨hpositioned, ?_⟩
    cases request with
    | column n => exact (leads_column_kept h n).final_of_both hstart
    | columnByName name =>
      exact (leads_columnByName (leads_column_kept h) name).final_of_both hstart
    | row => exact (leads_row (leads_column_kept h)).final_of_both hstart
    | execute _ | first | next | close => cases hreads
  · exact Or.inl (run_of_reads_of_ne B hpositioned hreads)

end SelectEngine.Cursor
