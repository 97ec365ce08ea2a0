import SelectEngine.Proofs.Correspondence.Evaluation
import SelectEngine.Proofs.Run
import SelectEngine.Proofs.Triple
import SelectEngine.Session.Basic

/-!
# What moving and reading do to the sources

A cursor reaches its sources through few computations, each on one source of the session; what one
gives on the session is what it gives on the source alone. Where these lead from the sessions in `P`
to sessions in `P`, or fail in `F`, so do the moves over combined rows and the evaluations on them
(`Session.Driven`).
-/

set_option autoImplicit false

namespace SelectEngine.Session

variable {σ γ α : Type} {i : Nat} {x : Run (Source σ × γ) α} {session : Session σ γ}
variable {source later : Source σ} {world : γ}

theorem at_apply_none (h : session.sources[i]? = none) :
    at_ i x session = .error (.internal s!"field bound to missing source {i}") session := by
  unfold at_
  rw [h]

theorem at_apply_ok {a : α} (h : session.sources[i]? = some source)
    (hx : x (source, session.world) = .ok a (later, world)) :
    at_ i x session = .ok a ⟨session.sources.set i later, world⟩ := by
  unfold at_
  rw [h]
  dsimp only
  rw [hx]

theorem at_apply_error {e : Error} (h : session.sources[i]? = some source)
    (hx : x (source, session.world) = .error e (later, world)) :
    at_ i x session = .error e ⟨session.sources.set i later, world⟩ := by
  unfold at_
  rw [h]
  dsimp only
  rw [hx]

theorem outcome_at (h : session.sources[i]? = some source) :
    (at_ i x).outcome session = x.outcome (source, session.world) := by
  rw [Run.outcome, Run.outcome]
  cases hx : x (source, session.world) with
  | ok a state => rw [at_apply_ok h hx]
  | error e state => rw [at_apply_error h hx]

theorem final_at (h : session.sources[i]? = some source) :
    (at_ i x).final session = ⟨session.sources.set i (x.final (source, session.world)).1,
      (x.final (source, session.world)).2⟩ := by
  rw [Run.final, Run.final]
  cases hx : x (source, session.world) with
  | ok a state => rw [at_apply_ok h hx]
  | error e state => rw [at_apply_error h hx]

/-- A computation that leaves its source as it is leaves the session as it is. -/
theorem at_apply_relay {y : Except Error α} (h : session.sources[i]? = some source)
    (hx : x (source, session.world) = (relay y : Run _ α) (source, session.world)) :
    at_ i x session = (relay y : Run _ α) session := by
  have hset : session.sources.set i source = session.sources := by
    obtain ⟨hi, rfl⟩ := List.getElem?_eq_some_iff.mp h
    exact List.set_getElem_self hi
  cases y with
  | ok a =>
    rw [at_apply_ok h hx, hset]
    rfl
  | error e =>
    rw [at_apply_error h hx, hset]
    rfl

end SelectEngine.Session

namespace SelectEngine

/-- A computation preserves what holds of the state, failed or not. -/
def Correspondence.preserving {s : Type} (P : s → Prop) : Correspondence (Run s) (Run s) where
  rel x _ := Run.Leads P x (fun _ => P) P
  returning _ := Run.leads_pure fun _ h => h
  failing _ := Run.leads_throw fun _ h => h
  sequencing := Run.leads_bind

namespace Session

variable {σ γ α : Type} {B : Backend σ γ} {P F : Session σ γ → Prop}

/-- Reading a column of a source leads from `P` to `P`, failed or not. -/
def Reads (B : Backend σ γ) (P : Session σ γ → Prop) : Prop :=
  ∀ i position, Run.Leads P (at_ i (Source.column B position)) (fun _ => P) P

/-- The computations on one source lead from `P` to `P`; those that move it may fail in `F`. -/
structure Driven (B : Backend σ γ) (P F : Session σ γ → Prop) : Prop where
  first : ∀ i, Run.Leads P (at_ i (Source.first B)) (fun _ => P) F
  next : ∀ i, Run.Leads P (at_ i (Source.next B)) (fun _ => P) F
  eof : ∀ i, Run.Leads P (at_ i (Source.eof B)) (fun _ => P) F
  reset : ∀ i, Run.Leads P (at_ i (Source.reset B)) (fun _ => P) F
  column : Reads B P
  fails : ∀ session, P session → F session

/-- Evaluating reads columns and nothing else. -/
theorem Reads.leads_eval (h : Reads B P) {env : Environment (Run (Session σ γ))}
    (henv : ∀ source position, env.column source position = at_ source (Source.column B position))
    (depth : Nat) (e : Bound) : Run.Leads P (e.eval env depth) (fun _ => P) P := by
  have hcolumns : Correspondence.Environments (Correspondence.preserving P) env env :=
    { column := fun source position => (henv source position).symm ▸ h source position
      params := rfl
      nulls := rfl
      maxDepth := rfl }
  exact Correspondence.eval hcolumns depth e

theorem leads_count :
    Run.Leads P count (fun n session => P session ∧ n = session.sources.length) F := by
  apply Run.leads_get
  intro seen hseen
  apply Run.leads_pure
  rintro session rfl
  exact ⟨hseen, rfl⟩

namespace Driven

theorem leads_firstEach (h : Driven B P F) : ∀ is : List Nat,
    Run.Leads P (firstEach B is) (fun _ => P) F
  | [] => Run.leads_pure fun _ hP => hP
  | i :: rest => Run.leads_bind (h.first i) fun _ => leads_firstEach h rest

theorem leads_anyEof (h : Driven B P F) : ∀ is : List Nat,
    Run.Leads P (anyEof B is) (fun _ => P) F
  | [] => Run.leads_pure fun _ hP => hP
  | i :: rest => by
    apply Run.leads_bind (h.eof i)
    intro passed
    split
    · exact Run.leads_pure fun _ hP => hP
    · exact leads_anyEof h rest

theorem leads_start (h : Driven B P F) : Run.Leads P (start B) (fun _ => P) F := by
  apply Run.leads_bind leads_count
  intro n
  apply Run.leads_bind ((h.leads_firstEach _).weaken (fun _ hP => hP.1) (fun _ _ hP => hP)
    fun _ hF => hF)
  intro _
  apply Run.leads_bind (h.leads_anyEof _)
  intro empty
  exact Run.leads_pure fun _ hP => hP

theorem leads_forwardWithin (h : Driven B P F) : ∀ n : Nat,
    Run.Leads P (forwardWithin B n) (fun _ => P) F
  | 0 => Run.leads_pure fun _ hP => hP
  | i + 1 => by
    apply Run.leads_bind (h.next i)
    intro _
    apply Run.leads_bind (h.eof i)
    intro passed
    split
    · exact Run.leads_pure fun _ hP => hP
    split
    · exact Run.leads_pure fun _ hP => hP
    -- The source starts again while the one before it moves on.
    apply Run.leads_bind (h.reset i)
    intro _
    apply Run.leads_bind (h.eof i)
    intro empty
    split
    · exact Run.leads_pure fun _ hP => hP
    · exact leads_forwardWithin h i

theorem leads_forward (h : Driven B P F) : Run.Leads P (forward B) (fun _ => P) F := by
  apply Run.leads_bind leads_count
  intro n
  exact (h.leads_forwardWithin n).weaken (fun _ hP => hP.1) (fun _ _ hP => hP) fun _ hF => hF

end Driven

/-! ## The number of sources -/

theorem leads_at_length (n i : Nat) (x : Run (Source σ × γ) α) :
    Run.Leads (fun session => session.sources.length = n) (at_ i x)
      (fun _ session => session.sources.length = n) (fun session => session.sources.length = n) := by
  intro session hlength
  cases hsource : session.sources[i]? with
  | none =>
    rw [at_apply_none hsource]
    exact hlength
  | some source =>
    cases hrun : x (source, session.world) with
    | ok a state =>
      rw [at_apply_ok hsource hrun]
      exact List.length_set.trans hlength
    | error e state =>
      rw [at_apply_error hsource hrun]
      exact List.length_set.trans hlength

/-- No computation changes how many sources there are. -/
theorem driven_length (B : Backend σ γ) (n : Nat) :
    Driven B (fun session => session.sources.length = n)
      (fun session => session.sources.length = n) where
  first i := leads_at_length n i _
  next i := leads_at_length n i _
  eof i := leads_at_length n i _
  reset i := leads_at_length n i _
  column i _ := leads_at_length n i _
  fails _ h := h

end Session

end SelectEngine
