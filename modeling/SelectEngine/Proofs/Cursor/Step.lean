import SelectEngine.Proofs.Cursor.Move

/-!
# What a request comes to

Whatever is asked of a cursor, it comes to one of few steps (`Cursor.Step`): the request is refused or
there is nothing to do, parameters are taken, the sources are moved, the current row is read, or the
cursor is closed. An invariant of cursors is shown step by step (`Cursor.step_run`).
-/

set_option autoImplicit false

namespace SelectEngine.Cursor

variable {σ γ : Type} {B : Backend σ γ} {c : Cursor σ γ}

/-- The states in which a request is not refused. -/
def Request.admitted : Request → List CursorState
  | execute _ => [.prepared, .opened, .positioned, .eof]
  | first => [.opened, .positioned, .eof]
  | next => [.positioned, .eof]
  | column _ | columnByName _ | row => [.positioned]
  | close => [.prepared, .opened, .positioned, .eof, .bad, .closed]

/-- A move does to the cursor and its sources what moves do. -/
def Travels (B : Backend σ γ) (c : Cursor σ γ) (move : Run (Cursor σ γ) Landing) : Prop :=
  ∀ (P F : Session σ γ → Prop) (bound : Nat), Session.Driven B P F →
    (∀ session, P session → bound ≤ Nat.pow (B.rowLimit + 1) session.sources.length) →
    P c.session → Lands c bound P F (move c)

/-- What a request comes to. -/
inductive Step (B : Backend σ γ) (c : Cursor σ γ) : Request → Cursor σ γ → Prop where
  | refused (request : Request) (hstate : c.state ∉ request.admitted) : Step B c request c
  | stayed (hstate : c.state = .eof) : Step B c .next c
  | executed (params : Params) (hstate : c.state ∈ [.prepared, .opened, .positioned, .eof]) :
      Step B c (.execute params)
        { c with params, state := .opened, generation := c.generation + 1 }
  | moved (request : Request) (move : Run (Cursor σ γ) Landing)
      (hstate : c.state ∈ [.opened, .positioned, .eof]) (hrequest : request = .first ∨ request = .next)
      (hmove : Travels B c move) : Step B c request (move.final c)
  | read (request : Request) (hstate : c.state = .positioned) (hreads : request.reads = true) :
      Step B c request (request.run B c)
  | closed : Step B c .close ((close B).final c)

theorem step_of_reads (B : Backend σ γ) (c : Cursor σ γ) {request : Request}
    (hreads : request.reads = true) : Step B c request (request.run B c) := by
  by_cases hstate : c.state = .positioned
  · exact .read request hstate hreads
  · rw [run_of_reads_of_ne B hstate hreads]
    apply Step.refused
    cases request with
    | column _ | columnByName _ | row => exact fun hmem => hstate (List.mem_singleton.mp hmem)
    | execute _ | first | next | close => cases hreads

theorem step_run (B : Backend σ γ) (c : Cursor σ γ) (request : Request) :
    Step B c request (request.run B c) := by
  cases request with
  | execute params =>
    by_cases hstate : c.state ∈ [.prepared, .opened, .positioned, .eof]
    · rw [Request.run, Run.final, execute_admitted params hstate]
      exact .executed params hstate
    · rw [Request.run, Run.final_of_error (execute_refused params hstate)]
      exact .refused (.execute params) hstate
  | first =>
    by_cases hstate : c.state ∈ [.opened, .positioned, .eof]
    · exact .moved .first (first B) hstate (Or.inl rfl) fun P F bound h hbound hP =>
        first_lands h hbound hstate hP
    · rw [Request.run, Run.final_of_error (first_refused B hstate)]
      exact .refused .first hstate
  | next =>
    by_cases hpositioned : c.state = .positioned
    · exact .moved .next (next B) (by rw [hpositioned]; decide) (Or.inr rfl)
        fun P F bound h hbound hP => next_lands h hbound hpositioned hP
    by_cases heof : c.state = .eof
    · rw [Request.run, Run.final, next_of_eof B heof]
      exact .stayed heof
    · have hstate : c.state ∉ Request.admitted .next := by
        simp [Request.admitted, hpositioned, heof]
      rw [Request.run, Run.final_of_error (next_refused B hstate)]
      exact .refused .next hstate
  | column _ | columnByName _ | row => exact step_of_reads B c rfl
  | close => exact .closed

/-! ## Moves that say nothing of the sources -/

/-- A move ends on a row, past the last row, or with a failure that leaves the cursor bad; it is given
up only after more combined rows than sources within the limit of the backend have. -/
def MoveEnds (B : Backend σ γ) (c : Cursor σ γ) :
    EStateM.Result Error (Cursor σ γ) Landing → Prop :=
  Lands c (Nat.pow (B.rowLimit + 1) c.session.sources.length)
    (fun session => session.sources.length = c.session.sources.length)
    (fun session => session.sources.length = c.session.sources.length)

theorem Travels.ends {move : Run (Cursor σ γ) Landing} (h : Travels B c move) :
    MoveEnds B c (move c) := by
  apply h _ _ _ (Session.driven_length B _) _ rfl
  intro session hlength
  exact Nat.le_of_eq (congrArg _ hlength.symm)

theorem kept_of_reads (B : Backend σ γ) {request : Request} (hreads : request.reads = true) :
    Kept c (request.run B c) := by
  rcases run_of_reads (Session.driven_length B _).column (fun _ => rfl) hreads with
    hsame | ⟨-, hkept, -⟩
  · rw [hsame]
    exact Kept.refl c
  · exact hkept

end SelectEngine.Cursor
