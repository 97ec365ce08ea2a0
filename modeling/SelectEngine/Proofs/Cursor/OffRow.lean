import SelectEngine.Proofs.Cursor.Lifecycle

/-!
# Reading away from a row

A cursor keeps the plan that it was prepared with until it is closed, and has none from then on
(`Cursor.plan_after`). So what the three ways of reading give away from a row is known in every state
that requests can lead to (`Cursor.offRow_after`). A column is refused by its position. A column is
refused by its name, whether the plan knows the name or not. A row is refused if there are columns; a
cursor without columns gives the empty row in every state, and a closed cursor has none
(`Cursor.row_closed`).
-/

set_option autoImplicit false

namespace SelectEngine.Cursor

variable {σ γ : Type} {B : Backend σ γ} {c later : Cursor σ γ}

/-! ## The plan of a cursor -/

/-- The cursor has the plan until it is closed. -/
def Keeps (plan : Option Plan) (later : Cursor σ γ) : Prop :=
  later.plan = if later.state = .closed then none else plan

theorem Keeps.plan_eq {plan : Option Plan} (h : Keeps plan later) (hstate : later.state ≠ .closed) :
    later.plan = plan := by
  rw [h, if_neg hstate]

theorem keeps_of_ne {plan : Option Plan} (hplan : later.plan = plan)
    (hstate : later.state ≠ .closed) : Keeps plan later := by
  rw [Keeps, if_neg hstate, hplan]

theorem MoveEnds.keeps {plan : Option Plan} {move : Run (Cursor σ γ) Landing}
    (hends : MoveEnds B c (move c)) (hplan : c.plan = plan) : Keeps plan (move.final c) := by
  rw [Run.final]
  cases hstep : move c with
  | ok landing later =>
    rw [hstep] at hends
    apply keeps_of_ne (hends.1.plan_eq.trans hplan)
    rw [hends.1.state_eq]
    cases landing <;> simp [Landing.state]
  | error e later =>
    rw [hstep] at hends
    apply keeps_of_ne (hends.1.plan_eq.trans hplan)
    simp [hends.1.state_eq]

theorem Keeps.run {plan : Option Plan} (h : Keeps plan c) (request : Request) :
    Keeps plan (request.run B c) := by
  have hne : ∀ {allowed : List CursorState}, .closed ∉ allowed → c.state ∈ allowed →
      c.state ≠ .closed := fun hnot hmem hclosed => hnot (hclosed ▸ hmem)
  generalize hlater : request.run B c = later
  cases hlater ▸ step_run B c request with
  | refused _ _ => exact h
  | stayed _ => exact h
  | executed params hstate => exact keeps_of_ne (h.plan_eq (hne (by decide) hstate)) nofun
  | moved _ _ hstate _ hmove => exact hmove.ends.keeps (h.plan_eq (hne (by decide) hstate))
  | read _ hstate hreads =>
    have hkept := kept_of_reads (c := c) B hreads
    apply keeps_of_ne
    · rw [hkept.plan_eq, h.plan_eq (hstate ▸ nofun)]
    · simp [hkept.state_eq, hstate]
  | closed => rw [final_close, Keeps, if_pos rfl]

/-- The plan of a prepared cursor is there until the cursor is closed. -/
theorem plan_after {registry : Registry} {settings : Settings} {text : String} {world : γ}
    (h : prepare B registry settings text world = .ok c) (requests : List Request) :
    Keeps c.plan (c.after B requests) := by
  have hstart : Keeps c.plan c := by
    obtain ⟨tree, plan, session, -, -, rfl⟩ := prepare_eq_ok h
    exact keeps_of_ne rfl nofun
  exact after_induction (fun _ request hkeeps => hkeeps.run request) requests hstart

theorem Keeps.columnCount_eq (h : Keeps c.plan later) :
    later.columnCount = if later.state = .closed then 0 else c.columnCount := by
  rw [columnCount, h]
  by_cases hstate : later.state = .closed
  · rw [if_pos hstate, if_pos hstate]
  · rw [if_neg hstate, if_neg hstate, columnCount]

/-! ## The three ways of reading -/

/-- A name is looked for before the state is. -/
theorem columnByName_of_ne (B : Backend σ γ) (name : String) (h : later.state ≠ .positioned) :
    columnByName B name later = .error
      (if (later.columnIndex? name).isSome then .cursorState "read a column" later.state.text
       else .noSuchColumn name) later := by
  rw [columnByName, Run.bind_of_ok (Run.get_apply later)]
  cases later.columnIndex? name with
  | none => rfl
  | some n => exact column_of_ne B n h

/-- A row is refused by its first column. -/
theorem row_of_ne (B : Backend σ γ) (h : later.state ≠ .positioned) (hcount : later.columnCount ≠ 0) :
    row B later = .error (.cursorState "read a column" later.state.text) later := by
  rw [row, Run.bind_of_ok (Run.get_apply later)]
  cases hwidth : later.columnCount with
  | zero => exact absurd hwidth hcount
  | succ n =>
    rw [List.range_succ_eq_map]
    exact Run.bind_of_error (column_of_ne B 0 h)

/-- Without columns nothing is asked for, so nothing is refused. -/
theorem row_of_columnCount_eq_zero (B : Backend σ γ) (h : later.columnCount = 0) :
    row B later = .ok [] later := by
  rw [row, Run.bind_of_ok (Run.get_apply later), h]
  rfl

/-- What is read from the later cursor away from a row, for a cursor that was prepared as the earlier
one. -/
structure OffRow (c later : Cursor σ γ) : Prop where
  columnCount_eq : later.columnCount = if later.state = .closed then 0 else c.columnCount
  column_refused : later.state ≠ .positioned → ∀ (other : Backend σ γ) (n : Nat),
    column other n later = .error (.cursorState "read a column" later.state.text) later
  columnByName_refused : later.state ≠ .positioned → ∀ (other : Backend σ γ) (name : String),
    columnByName other name later = .error
      (if (later.columnIndex? name).isSome then .cursorState "read a column" later.state.text
       else .noSuchColumn name) later
  row_refused : later.state ≠ .positioned → later.columnCount ≠ 0 → ∀ other : Backend σ γ,
    row other later = .error (.cursorState "read a column" later.state.text) later
  row_empty : later.columnCount = 0 → ∀ other : Backend σ γ, row other later = .ok [] later

/-- After any requests to a prepared cursor, columns are read on a row alone, and rows are read on a
row alone as long as they have columns. -/
theorem offRow_after {registry : Registry} {settings : Settings} {text : String} {world : γ}
    (h : prepare B registry settings text world = .ok c) (requests : List Request) :
    OffRow c (c.after B requests) where
  columnCount_eq := (plan_after h requests).columnCount_eq
  column_refused hstate other n := column_of_ne other n hstate
  columnByName_refused hstate other name := columnByName_of_ne other name hstate
  row_refused hstate hcount other := row_of_ne other hstate hcount
  row_empty hcount other := row_of_columnCount_eq_zero other hcount

/-- A cursor past the last row has the column that it was prepared with, and refuses the row. -/
theorem offRow_after_last_row :
    ∃ c, prepare (Memory.backend Memory.oneTable) .empty .default "SELECT a FROM t WHERE a < 0" () =
        .ok c ∧
      (c.after (Memory.backend Memory.oneTable) [.execute .empty, .first]).state = .eof ∧
      (c.after (Memory.backend Memory.oneTable) [.execute .empty, .first]).columnCount = 1 ∧
      OffRow c (c.after (Memory.backend Memory.oneTable) [.execute .empty, .first]) := by
  have hends : ((prepare (Memory.backend Memory.oneTable) .empty .default
      "SELECT a FROM t WHERE a < 0" ()).toOption.map fun c =>
        ((c.after (Memory.backend Memory.oneTable) [.execute .empty, .first]).state,
          (c.after (Memory.backend Memory.oneTable) [.execute .empty, .first]).columnCount)) =
      some (.eof, 1) := by
    decide +kernel
  cases h : prepare (Memory.backend Memory.oneTable) .empty .default
      "SELECT a FROM t WHERE a < 0" () with
  | error e =>
    rw [h] at hends
    cases hends
  | ok c =>
    rw [h] at hends
    have hpair := Prod.mk.inj (Option.some.inj hends)
    exact ⟨c, rfl, hpair.1, hpair.2, offRow_after h [.execute .empty, .first]⟩

/-- A closed cursor refuses the column that it was prepared with, and not the row. -/
theorem row_closed :
    ∃ c, prepare (Memory.backend Memory.oneTable) .empty .default "SELECT a FROM t" () = .ok c ∧
      (c.after (Memory.backend Memory.oneTable) [.close]).state = .closed ∧
      column (Memory.backend Memory.oneTable) 0
          (c.after (Memory.backend Memory.oneTable) [.close]) =
        .error (.cursorState "read a column" "closed")
          (c.after (Memory.backend Memory.oneTable) [.close]) ∧
      row (Memory.backend Memory.oneTable) (c.after (Memory.backend Memory.oneTable) [.close]) =
        .ok [] (c.after (Memory.backend Memory.oneTable) [.close]) := by
  have hsome : (prepare (Memory.backend Memory.oneTable) .empty .default "SELECT a FROM t"
      ()).toOption.isSome = true := by
    decide +kernel
  cases h : prepare (Memory.backend Memory.oneTable) .empty .default "SELECT a FROM t" () with
  | error e =>
    rw [h] at hsome
    cases hsome
  | ok c =>
    have hstate : (c.after (Memory.backend Memory.oneTable) [.close]).state = .closed :=
      state_final_close _ c
    have hcount : (c.after (Memory.backend Memory.oneTable) [.close]).columnCount = 0 := by
      rw [(plan_after h [.close]).columnCount_eq, if_pos hstate]
    refine ⟨c, rfl, hstate, ?_, row_of_columnCount_eq_zero _ hcount⟩
    rw [column_of_ne _ 0 (hstate ▸ nofun), hstate]
    rfl

end SelectEngine.Cursor
