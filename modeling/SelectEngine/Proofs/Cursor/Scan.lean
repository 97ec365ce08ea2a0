import SelectEngine.Proofs.Cursor.Rules
import SelectEngine.Query

/-!
# Where a whole scan leads

The combined rows of a session are counted by predicates `P n`, each of which says that the session
is on combined row `n` (`Session.Counted`). A cursor that reads all its rows goes through them from
the first one to the end, whichever of them satisfy the WHERE clause, and is never given up, since
each search moves on and there are fewer combined rows than its bound (`Counted.leads_fetchAll`).
-/

set_option autoImplicit false

namespace SelectEngine

variable {σ γ : Type} {B : Backend σ γ} {S D : Session σ γ → Prop} {P : Nat → Session σ γ → Prop}
variable {bound : Nat}

/-- Starting leads to combined row 0 and going forward from each combined row to the one behind it,
or both to the end `D`. Reading stays on the row, and the rows are fewer than `bound`. -/
structure Session.Counted (B : Backend σ γ) (S : Session σ γ → Prop)
    (P : Nat → Session σ γ → Prop) (D : Session σ γ → Prop) (bound : Nat) : Prop where
  start : Run.Leads S (Session.start B) (fun found => if found then P 0 else D) fun _ => True
  forward : ∀ n, Run.Leads (P n) (Session.forward B)
    (fun found => if found then P (n + 1) else D) fun _ => True
  reads : ∀ n, Session.Reads B (P n)
  below : ∀ n session, P n session → n < bound
  limit : ∀ n session, P n session → bound ≤ Nat.pow (B.rowLimit + 1) session.sources.length

namespace Cursor

variable {state : CursorState} {n : Nat}

/-- A cursor in a state, its session in `P`. -/
abbrev Standing (state : CursorState) (P : Session σ γ → Prop) : Cursor σ γ → Prop :=
  Over (fun c => c.state = state) P

theorem ignoresSession_state (state : CursorState) :
    IgnoresSession fun c : Cursor σ γ => c.state = state :=
  fun _ _ h => h

/-- Where a search over the combined rows behind row `n` ends: on one of them, at the end, or not at
all if it is given up. -/
def Sought (P : Nat → Session σ γ → Prop) (D : Session σ γ → Prop) (n : Nat)
    (session : Session σ γ) : Landing → Prop
  | .row => ∃ m, n ≤ m ∧ P m session
  | .ended => D session
  | .givenUp => False

/-- What a computation on the sources leads to, the state of the cursor staying what it is. -/
theorem leads_standing {α : Type} {x : Run (Session σ γ) α} {Q : Session σ γ → Prop}
    {R : α → Session σ γ → Prop} (h : Run.Leads Q x R fun _ => True) :
    Run.Leads (Standing state Q) (onSession x) (fun a => Standing state (R a)) fun _ => True :=
  (leads_onSession (ignoresSession_state state) h).weaken (fun _ h => h) (fun _ _ h => h)
    fun _ _ => trivial

/-- Reading the current row moves nothing. -/
theorem leads_row_standing {Q : Session σ γ → Prop} (h : Session.Reads B Q) :
    Run.Leads (Standing state Q) (row B) (fun _ => Standing state Q) fun _ => True := by
  intro c hc
  have hrow := leads_row (leads_column_kept (c := c) h) c ⟨Kept.refl c, hc.2⟩
  cases hrun : row B c with
  | error e later => trivial
  | ok values later =>
    rw [hrun] at hrow
    exact ⟨hrow.1.state_eq.trans hc.1, hrow.2⟩

end Cursor

namespace Session.Counted

open Cursor

variable {state : CursorState} {n : Nat}

/-- On a new combined row the search ends if the row satisfies the WHERE clause, else it goes on. -/
theorem leads_land (h : Counted B S P D bound) {search : Run (Cursor σ γ) Landing}
    {Q : Landing → Cursor σ γ → Prop}
    (hrow : ∀ c, Standing state (P n) c → Q .row c)
    (hsearch : Run.Leads (Standing state (P n)) search Q fun _ => True) :
    Run.Leads (Standing state (P n))
      (do
        renew
        if ← satisfied B then pure Landing.row else search) Q fun _ => True := by
  apply Run.leads_bind (Q := fun _ => Standing state (P n))
  · exact Run.leads_modify fun _ h => h
  · intro _
    have hsatisfied := leads_satisfied (ignoresSession_state state) (h.reads n)
    apply Run.leads_bind
      (hsatisfied.weaken (fun _ h => h) (fun _ _ h => h) fun _ _ => trivial)
    intro holds
    split
    · exact Run.leads_pure hrow
    · exact hsearch

/-- A search that is given up has passed as many combined rows as it was allowed. The induction is
on that number. -/
theorem leads_search (h : Counted B S P D bound) : ∀ (limit : Nat) {n : Nat},
    Run.Leads (Standing state (P n)) (Cursor.forward B limit)
      (fun landing c => c.state = state ∧
        (landing = .givenUp ∧ P (n + limit) c.session ∨ Sought P D (n + 1) c.session landing))
      fun _ => True
  | 0, _ => Run.leads_pure fun _ hc => ⟨hc.1, Or.inl ⟨rfl, hc.2⟩⟩
  | limit + 1, n => by
    apply Run.leads_bind (leads_standing (h.forward n))
    intro found
    cases found with
    | false => exact Run.leads_pure fun _ hc => ⟨hc.1, Or.inr hc.2⟩
    | true =>
      -- The row uses up one of those allowed, whether or not it satisfies the WHERE clause.
      apply h.leads_land (n := n + 1)
      · exact fun c hc => ⟨hc.1, Or.inr ⟨n + 1, Nat.le_refl _, hc.2⟩⟩
      · refine (leads_search h limit).weaken (fun _ h => h) ?_ (fun _ h => h)
        rintro landing c ⟨hstate, ⟨rfl, hP⟩ | hsought⟩
        · refine ⟨hstate, Or.inl ⟨rfl, ?_⟩⟩
          rwa [Nat.add_right_comm, Nat.add_assoc] at hP
        · refine ⟨hstate, Or.inr ?_⟩
          cases landing with
          | row =>
            obtain ⟨m, hm, hP⟩ := hsought
            exact ⟨m, Nat.le_of_succ_le hm, hP⟩
          | ended | givenUp => exact hsought

/-- A search that is allowed the bound is not given up, since it would have passed all combined
rows. -/
theorem leads_search_rowBound (h : Counted B S P D bound) :
    Run.Leads (Standing state (P n)) (do Cursor.forward B (← rowBound B))
      (fun landing c => c.state = state ∧ Sought P D (n + 1) c.session landing) fun _ => True := by
  have hbound := leads_rowBound (B := B) (P := P n) (ignoresSession_state (σ := σ) (γ := γ) state)
  apply Run.leads_bind (hbound.weaken (fun _ h => h) (fun _ _ h => h) fun _ _ => trivial)
  rintro limit c ⟨rfl, hc⟩
  have hlimit : bound ≤ Nat.pow (B.rowLimit + 1) c.session.sources.length := h.limit n _ hc.2
  refine ((h.leads_search _).weaken (fun _ h => h) ?_ (fun _ h => h)) c hc
  rintro landing later ⟨hstate, ⟨rfl, hP⟩ | hsought⟩
  · -- A search that is given up would be on a row that there is not.
    have hbelow := h.below _ _ hP
    omega
  · exact ⟨hstate, hsought⟩

theorem leads_start (h : Counted B S P D bound) :
    Run.Leads (Standing state S) (Cursor.start B)
      (fun landing c => c.state = state ∧ Sought P D 0 c.session landing) fun _ => True := by
  apply Run.leads_bind (leads_standing h.start)
  intro found
  cases found with
  | false => exact Run.leads_pure fun _ hc => hc
  | true =>
    apply h.leads_land (n := 0)
    · exact fun c hc => ⟨hc.1, 0, Nat.le_refl 0, hc.2⟩
    · refine h.leads_search_rowBound.weaken (fun _ h => h) ?_ (fun _ h => h)
      rintro landing c ⟨hstate, hsought⟩
      refine ⟨hstate, ?_⟩
      cases landing with
      | row =>
        obtain ⟨m, -, hP⟩ := hsought
        exact ⟨m, Nat.zero_le m, hP⟩
      | ended | givenUp => exact hsought

/-- A move ends on a row or past the last one. -/
theorem leads_landing {Q : Cursor σ γ → Prop} {move : Run (Cursor σ γ) Landing}
    (hmove : Run.Leads Q move (fun landing c => Sought P D n c.session landing) fun _ => True) :
    Run.Leads Q (land move)
      (fun landing c => c.state = landing.state ∧ Sought P D n c.session landing)
      fun _ => True := by
  intro c hc
  have hsought := hmove c hc
  unfold land
  cases hrun : move c with
  | ok landing later =>
    rw [hrun] at hsought
    exact ⟨rfl, hsought⟩
  | error e later => trivial

theorem leads_first (h : Counted B S P D bound) :
    Run.Leads (Standing state S) (Cursor.first B)
      (fun landing c => c.state = landing.state ∧ Sought P D 0 c.session landing)
      fun _ => True := by
  apply Run.leads_bind
    ((leads_demand _ _).weaken (fun _ h => h) (fun _ _ h => h.1) fun _ _ => trivial)
  intro _
  exact leads_landing (h.leads_start.weaken (fun _ h => h) (fun _ _ h => h.2) fun _ h => h)

theorem leads_next (h : Counted B S P D bound) :
    Run.Leads (Standing .positioned (P n)) (Cursor.next B)
      (fun landing c => c.state = landing.state ∧ Sought P D (n + 1) c.session landing)
      fun _ => True := by
  intro c hc
  have hnot : c.state ≠ .eof := hc.1 ▸ nofun
  rw [next, Run.bind_of_ok (Run.get_apply c), if_neg hnot,
    Run.bind_of_ok (demand_of_mem (List.mem_singleton.mpr hc.1))]
  have hmove : Run.Leads (Standing .positioned (P n)) (do Cursor.forward B (← rowBound B))
      (fun landing c => Sought P D (n + 1) c.session landing) fun _ => True :=
    h.leads_search_rowBound.weaken (fun _ h => h) (fun _ _ h => h.2) fun _ h => h
  exact leads_landing hmove c hc

/-- From a combined row on all rows are read. The induction is on how many may be read, and fewer
than that are left. -/
theorem leads_drain (h : Counted B S P D bound) (limit : Nat) {n : Nat} (hn : bound ≤ n + limit) :
    Run.Leads (Standing .positioned (P n)) (drain B limit)
      (fun rows c => rows.isSome = true ∧ D c.session) fun _ => True := by
  induction limit generalizing n with
  | zero =>
    intro c hc
    have hbelow := h.below n _ hc.2
    omega
  | succ limit ih =>
    apply Run.leads_bind (leads_row_standing (h.reads n))
    intro current
    apply Run.leads_bind h.leads_next
    intro landing
    cases landing with
    | row =>
      apply Run.leads_bind (Q := fun rows c => rows.isSome = true ∧ D c.session)
      · -- At least one row has been passed, and one fewer may be read.
        rintro c ⟨hstate, m, hm, hP⟩
        exact ih (by omega) c ⟨hstate, hP⟩
      · intro rows
        exact Run.leads_pure fun c hc => ⟨Option.isSome_map.trans hc.1, hc.2⟩
    | ended => exact Run.leads_pure fun _ hc => ⟨rfl, hc.2⟩
    | givenUp => exact Run.leads_pure fun _ hc => hc.2.elim

/-- Reading all rows leads to the end, and there are rows to answer with. -/
theorem leads_fetchAll (h : Counted B S P D bound) (params : Params) :
    Run.Leads (fun c => S c.session) (fetchAll B params)
      (fun rows c => rows.isSome = true ∧ D c.session) fun _ => True := by
  have hexecute : Run.Leads (fun c => S c.session) (execute params : Run (Cursor σ γ) Unit)
      (fun _ => Standing .opened S) fun _ => True := by
    apply Run.leads_bind
      ((leads_demand _ _).weaken (fun _ h => h) (fun _ _ h => h.1) fun _ _ => trivial)
    intro _
    apply Run.leads_bind (Q := fun _ => Standing .opened S)
    · exact Run.leads_modify fun _ hc => ⟨rfl, hc⟩
    · intro _
      exact Run.leads_modify fun _ h => h
  apply Run.leads_bind hexecute
  intro _
  apply Run.leads_bind h.leads_first
  intro landing
  cases landing with
  | row =>
    rintro c ⟨hstate, m, -, hP⟩
    have hlimit : bound ≤ Nat.pow (B.rowLimit + 1) c.session.sources.length := h.limit m _ hP
    exact h.leads_drain _ (Nat.le_trans hlimit (Nat.le_add_left _ m)) c ⟨hstate, hP⟩
  | ended => exact Run.leads_pure fun _ hc => ⟨rfl, hc.2⟩
  | givenUp => exact Run.leads_pure fun _ hc => hc.2.elim

end Session.Counted

end SelectEngine
