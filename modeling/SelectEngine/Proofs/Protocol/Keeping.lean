import SelectEngine.Proofs.Correspondence.Binding
import SelectEngine.Proofs.Cursor.Rules
import SelectEngine.Proofs.Protocol.Watch

/-!
# What runs keep that succeed

`Run.Keeps P x` says that what `P` says of the state holds of it again if the computation returns a
value; nothing is said of computations that fail. Where asking a source keeps something unless the
answer is a failure (`Source.Keeping`), all computations of the source keep it, since they fail with
the failures that they are answered, and so do binding, moving and reading over all sources
(`Session.Keeping`), up to the list of all rows (`Session.Keeping.fetchAll`).
-/

set_option autoImplicit false

namespace SelectEngine

variable {σ γ α ι : Type}

/-! ## Computations that succeed -/

/-- What holds of the state holds of it again if the computation returns a value. -/
abbrev Run.Keeps {s : Type} (P : s → Prop) (x : Run s α) : Prop :=
  Run.Leads P x (fun _ => P) fun _ => True

/-- A computation keeps what holds of the state unless it fails. -/
def Correspondence.keeping {s : Type} (P : s → Prop) : Correspondence (Run s) (Run s) where
  rel x _ := Run.Keeps P x
  returning _ := Run.leads_pure fun _ h => h
  failing _ := Run.leads_throw fun _ _ => trivial
  sequencing := Run.leads_bind

namespace Run

variable {s : Type} {P : s → Prop}

theorem keeps_pure (a : α) : Keeps P (pure a : Run s α) := leads_pure fun _ h => h

theorem keeps_throw (e : Error) : Keeps P (throw e : Run s α) := leads_throw fun _ _ => trivial

theorem keeps_relay (x : Except Error α) : Keeps P (relay x : Run s α) :=
  leads_relay (fun _ _ _ h => h) fun _ _ _ _ => trivial

theorem keeps_modify {f : s → s} (h : ∀ state, P state → P (f state)) : Keeps P (modify f) :=
  leads_modify h

theorem leads_any (P : s → Prop) (x : Run s α) : Leads P x (fun _ _ => True) fun _ => True := by
  intro state _
  cases x state <;> trivial

/-- An attempt keeps what the computation keeps if it has not failed. -/
theorem leads_attempt_keeps {x : Run s α} (hx : Keeps P x) :
    Leads P (attempt x) (fun outcome state => ∀ a, outcome = .ok a → P state) fun _ => True := by
  refine (leads_attempt hx).weaken (fun _ h => h) ?_ (fun _ _ => trivial)
  rintro outcome state h a rfl
  exact h

/-- Where a computation leads that returns a value. -/
theorem Leads.of_ok {Q : α → s → Prop} {F : s → Prop} {x : Run s α} {state later : s} {a : α}
    (h : Leads P x Q F) (hstate : P state) (hx : x state = .ok a later) : Q a later := by
  have hleads := h state hstate
  rw [hx] at hleads
  exact hleads

theorem Leads.final_of_ok {Q : α → s → Prop} {F : s → Prop} {x : Run s α} {state : s} {a : α}
    (h : Leads P x Q F) (hstate : P state) (hx : x.outcome state = .ok a) :
    Q a (x.final state) := by
  rcases h.final hstate with ⟨found, hfound, hfinal⟩ | ⟨⟨e, he⟩, -⟩
  · cases hx.symm.trans hfound
    exact hfinal
  · cases hx.symm.trans he

/-- What is known of the values that a computation returns is known of those with which it leads
somewhere. -/
theorem Leads.returning {Q : α → s → Prop} {F : s → Prop} {x : Run s α} {V : α → Prop}
    (h : Leads P x Q F) (hV : Returns x V) : Leads P x (fun a state => V a ∧ Q a state) F := by
  intro state hstate
  have hleads := h state hstate
  cases hrun : x state with
  | ok a later =>
    rw [hrun] at hleads
    exact ⟨hV state a later hrun, hleads⟩
  | error e later =>
    rw [hrun] at hleads
    exact hleads

/-- What follows a look at the state may depend on what was seen. -/
theorem keeps_get {f : s → Run s α} (h : ∀ seen, Keeps P (f seen)) : Keeps P (get >>= f) := by
  apply leads_get
  intro seen hseen
  refine (h seen).weaken ?_ (fun _ _ h => h) (fun _ h => h)
  rintro state rfl
  exact hseen

end Run

/-! ## One source -/

namespace Source

/-- Asking a source keeps `P` unless the answer is a failure, and marking it keeps `P`. -/
structure Keeping (B : Backend σ γ) (P : Source σ × γ → Prop) : Prop where
  asks : ∀ call : Call,
    Run.Leads P (ask B call) (fun a state => call.granted a = true → P state) fun _ => True
  marks : ∀ (mark : Bool) (s : Source σ) (world : γ),
    P (s, world) → P ({ s with isOpen := mark }, world)

namespace Keeping

variable {B : Backend σ γ} {P : Source σ × γ → Prop}

/-- An answer is passed on if it is no failure. -/
theorem heeds (h : Keeping B P) (call : Call) {heed : call.Answer → Except Error α}
    (hheed : ∀ a v, heed a = .ok v → call.granted a = true) :
    Run.Keeps P (ask B call >>= fun a => relay (heed a)) := by
  apply Run.leads_bind (h.asks call)
  intro a
  exact Run.leads_relay (fun v hv _ hP => hP (hheed a v hv)) fun _ _ _ _ => trivial

theorem first (h : Keeping B P) : Run.Keeps P (first B) :=
  h.heeds .first fun _ _ ha => congrArg Except.isOk ha

theorem next (h : Keeping B P) : Run.Keeps P (next B) :=
  h.heeds .next fun _ _ ha => congrArg Except.isOk ha

theorem column (h : Keeping B P) (position : Nat) : Run.Keeps P (column B position) :=
  h.heeds (.column position) fun _ _ ha => congrArg Except.isOk ha

theorem describe (h : Keeping B P) (position : Nat) : Run.Keeps P (describe B position) :=
  h.heeds (.describe position) fun _ _ ha => congrArg Except.isOk ha

/-- A call that always has an answer. -/
theorem asks_only (h : Keeping B P) {call : Call} (hgranted : ∀ a, call.granted a = true) :
    Run.Keeps P (ask B call) :=
  (h.asks call).weaken (fun _ hP => hP) (fun a _ hP => hP (hgranted a)) fun _ h => h

theorem eof (h : Keeping B P) : Run.Keeps P (eof B) := h.asks_only fun _ => rfl

theorem columnCount (h : Keeping B P) : Run.Keeps P (columnCount B) := h.asks_only fun _ => rfl

theorem columnId (h : Keeping B P) (name : String) : Run.Keeps P (columnId? B name) :=
  h.asks_only fun _ => rfl

theorem openTable (h : Keeping B P) : Run.Keeps P (openTable B) := by
  apply Run.keeps_get
  intro seen
  apply Run.leads_bind (h.asks (.openTable .read seen.1.name))
  intro outcome
  apply Run.leads_bind (Q := fun _ => P)
  · exact Run.leads_relay (fun _ hok _ hP => hP (congrArg Except.isOk hok)) fun _ _ _ _ => trivial
  · intro _
    exact Run.keeps_modify fun state hP => h.marks true state.1 state.2 hP

theorem close (h : Keeping B P) : Run.Keeps P (close B) := by
  apply Run.keeps_get
  intro seen
  dsimp only
  split
  · apply Run.leads_bind (Run.keeps_modify fun state hP => h.marks false state.1 state.2 hP)
    intro _
    exact h.heeds .close fun _ _ ha => congrArg Except.isOk ha
  · exact Run.keeps_pure ()

theorem reset (h : Keeping B P) : Run.Keeps P (reset B) :=
  Run.leads_bind h.close fun _ => Run.leads_bind h.openTable fun _ => h.first

end Keeping

end Source

/-! ## All sources -/

namespace Session

/-- What holds again once a source is replaced by what a computation makes of it. -/
theorem keeps_at {P : Session σ γ → Prop} {i : Nat} {x : Run (Source σ × γ) α}
    (h : ∀ (session : Session σ γ) (source later : Source σ) (world : γ) (a : α), P session →
      session.sources[i]? = some source → x (source, session.world) = .ok a (later, world) →
      P ⟨session.sources.set i later, world⟩) : Run.Keeps P (at_ i x) := by
  intro session hP
  cases hsource : session.sources[i]? with
  | none =>
    rw [at_apply_none hsource]
    trivial
  | some source =>
    cases hrun : x (source, session.world) with
    | ok a state =>
      rw [at_apply_ok hsource hrun]
      exact h session source state.1 state.2 a hP hsource hrun
    | error e state =>
      rw [at_apply_error hsource hrun]
      trivial

/-- A source that is opened is put behind the others. -/
theorem openSource_eq_ok {B : Backend σ γ} {name : SourceName} {session later : Session σ γ}
    (h : openSource B name session = .ok () later) :
    ∃ provider world source world', B.create name.table session.world = (.ok provider, world) ∧
      Source.openTable B (Source.closed name.aliasName name.table provider, world) =
        .ok () (source, world') ∧ later = ⟨session.sources ++ [source], world'⟩ := by
  unfold openSource at h
  split at h
  · cases h
  · next provider world hcreate =>
    split at h
    · next source world' hopen =>
      cases h
      exact ⟨provider, world, source, world', hcreate, hopen, rfl⟩
    · cases h

/-- A computation on one source of a session keeps `P` if on the source alone it keeps every `R k`,
as the computations of a source do. -/
structure Keeping (B : Backend σ γ) (R : ι → Source σ × γ → Prop) (P : Session σ γ → Prop) :
    Prop where
  source : ∀ k, Source.Keeping B (R k)
  at_ : ∀ {α : Type} (i : Nat) {x : Run (Source σ × γ) α}, (∀ k, Run.Keeps (R k) x) →
    Run.Keeps P (at_ i x)

namespace Keeping

variable {B : Backend σ γ} {R : ι → Source σ × γ → Prop} {P : Session σ γ → Prop}

theorem eof (h : Keeping B R P) (i : Nat) : Run.Keeps P (Session.at_ i (Source.eof B)) :=
  h.at_ i fun k => (h.source k).eof

theorem firstEach (h : Keeping B R P) : ∀ is : List Nat, Run.Keeps P (firstEach B is)
  | [] => Run.keeps_pure ()
  | i :: rest => Run.leads_bind (h.at_ i fun k => (h.source k).first) fun _ => firstEach h rest

theorem anyEof (h : Keeping B R P) : ∀ is : List Nat, Run.Keeps P (anyEof B is)
  | [] => Run.keeps_pure false
  | i :: rest => by
    apply Run.leads_bind (h.eof i)
    intro passed
    split
    · exact Run.keeps_pure true
    · exact anyEof h rest

theorem start (h : Keeping B R P) : Run.Keeps P (start B) :=
  Run.keeps_get fun _ => Run.leads_bind (h.firstEach _) fun _ =>
    Run.leads_bind (h.anyEof _) fun _ => Run.keeps_pure _

theorem forwardWithin (h : Keeping B R P) : ∀ n : Nat, Run.Keeps P (forwardWithin B n)
  | 0 => Run.keeps_pure false
  | i + 1 => by
    apply Run.leads_bind (h.at_ i fun k => (h.source k).next)
    intro _
    apply Run.leads_bind (h.eof i)
    intro passed
    split
    · exact Run.keeps_pure true
    split
    · exact Run.keeps_pure false
    -- The source starts again while the one before it moves on.
    apply Run.leads_bind (h.at_ i fun k => (h.source k).reset)
    intro _
    apply Run.leads_bind (h.eof i)
    intro empty
    split
    · exact Run.keeps_pure false
    · exact forwardWithin h i

theorem forward (h : Keeping B R P) : Run.Keeps P (forward B) :=
  Run.keeps_get fun _ => h.forwardWithin _

/-- Closing the sources of a list keeps `P` if none of them fails. -/
theorem closeEach (h : Keeping B R P) : ∀ is : List Nat,
    Run.Leads P (closeEach B is) (fun failure session => failure = none → P session) fun _ => True
  | [] => Run.leads_pure fun _ hP _ => hP
  | i :: rest => by
    have hclose : Run.Keeps P (Session.at_ i (Source.close B)) :=
      h.at_ i fun k => (h.source k).close
    apply Run.leads_bind (Run.leads_attempt_keeps hclose)
    intro outcome
    cases outcome with
    | ok closed =>
      apply Run.leads_bind ((closeEach h rest).weaken (fun _ hP => hP () rfl) (fun _ _ h => h)
        fun _ h => h)
      intro failure
      exact Run.leads_pure fun _ h => h
    | error e =>
      apply Run.leads_bind (Run.leads_any _ _)
      intro failure
      exact Run.leads_pure fun _ _ => nofun

theorem closeAll (h : Keeping B R P) : Run.Keeps P (closeAll B) := by
  apply Run.keeps_get
  intro session
  apply Run.leads_bind (h.closeEach _)
  intro failure
  cases failure with
  | none => exact Run.leads_pure fun _ hP => hP rfl
  | some e => exact Run.leads_throw fun _ _ => trivial

/-- The questions that binding asks. -/
theorem scopes (h : Keeping B R P) (names : List SourceName) :
    Correspondence.Scopes (Correspondence.keeping P) (scope B names) (scope B names) where
  sources := rfl
  columnCount i := h.at_ i fun k => (h.source k).columnCount
  columnId i name := h.at_ i fun k => (h.source k).columnId name
  describe i position := h.at_ i fun k => (h.source k).describe position

/-- Evaluating reads columns and nothing else. -/
theorem eval (h : Keeping B R P) (c : Cursor σ γ) (e : Bound) (depth : Nat) :
    Run.Keeps P (e.eval (c.environment B) depth) := by
  have hcolumns : Correspondence.Environments (Correspondence.keeping P) (c.environment B)
      (c.environment B) :=
    { column := fun i position => h.at_ i fun k => (h.source k).column position
      params := rfl
      nulls := rfl
      maxDepth := rfl }
  exact Correspondence.eval hcolumns depth e

end Keeping

end Session

/-! ## Cursors -/

namespace Cursor

/-- The session of the cursor has the property. -/
def On (P : Session σ γ → Prop) (c : Cursor σ γ) : Prop := P c.session

end Cursor

namespace Session.Keeping

open Cursor

variable {B : Backend σ γ} {R : ι → Source σ × γ → Prop} {P : Session σ γ → Prop}

theorem onSession {x : Run (Session σ γ) α} (hx : Run.Keeps P x) :
    Run.Keeps (On P) (onSession x) := by
  intro c hc
  have h := hx c.session hc
  unfold Cursor.onSession
  cases hstep : x c.session with
  | ok a session =>
    rw [hstep] at h
    exact h
  | error e session => exact trivial

theorem demand (operation : String) (allowed : List CursorState) :
    Run.Keeps (On P) (demand operation allowed) :=
  (leads_demand operation allowed).weaken (fun _ h => h) (fun _ _ h => h.1) fun _ _ => trivial

theorem planFor (operation : String) : Run.Keeps (On P) (planFor operation) :=
  (leads_planFor operation).weaken (fun _ h => h) (fun _ _ h => h.1) fun _ _ => trivial

theorem evaluate (h : Keeping B R P) (e : Bound) : Run.Keeps (On P) (evaluate B e) := by
  rw [evaluate_eq]
  exact Run.keeps_get fun c => onSession (h.eval c e 0)

theorem satisfied (h : Keeping B R P) : Run.Keeps (On P) (satisfied B) := by
  apply Run.leads_bind (planFor _)
  intro plan
  split
  · exact Run.keeps_pure true
  · apply Run.leads_bind (h.evaluate _)
    intro v
    split
    · exact Run.keeps_pure _
    · exact Run.keeps_pure false
    · exact Run.keeps_throw _

theorem renew : Run.Keeps (On P) renew := Run.keeps_modify fun _ h => h

theorem rowBound (B : Backend σ γ) : Run.Keeps (On P) (rowBound B) :=
  Run.leads_bind (onSession (Run.keeps_get fun _ => Run.keeps_pure _)) fun _ => Run.keeps_pure _

theorem forwardRows (h : Keeping B R P) : ∀ rows : Nat, Run.Keeps (On P) (Cursor.forward B rows)
  | 0 => Run.keeps_pure _
  | rows + 1 => by
    apply Run.leads_bind (onSession h.forward)
    intro found
    split
    · apply Run.leads_bind renew
      intro _
      apply Run.leads_bind h.satisfied
      intro holds
      split
      · exact Run.keeps_pure _
      · exact forwardRows h rows
    · exact Run.keeps_pure _

theorem startRows (h : Keeping B R P) : Run.Keeps (On P) (Cursor.start B) := by
  apply Run.leads_bind (onSession h.start)
  intro found
  split
  · apply Run.leads_bind renew
    intro _
    apply Run.leads_bind h.satisfied
    intro holds
    split
    · exact Run.keeps_pure _
    · exact Run.leads_bind (rowBound B) fun rows => h.forwardRows rows
  · exact Run.keeps_pure _

theorem land {move : Run (Cursor σ γ) Landing} (hmove : Run.Keeps (On P) move) :
    Run.Keeps (On P) (land move) := by
  intro c hc
  have h := hmove c hc
  unfold Cursor.land
  cases hstep : move c with
  | ok landing later =>
    rw [hstep] at h
    exact h
  | error e later => exact trivial

theorem execute (params : Params) :
    Run.Keeps (On P) (Cursor.execute params : Run (Cursor σ γ) Unit) :=
  Run.leads_bind (demand _ _) fun _ =>
    Run.leads_bind (Run.keeps_modify fun _ h => h) fun _ => renew

theorem first (h : Keeping B R P) : Run.Keeps (On P) (Cursor.first B) :=
  Run.leads_bind (demand _ _) fun _ => land h.startRows

theorem next (h : Keeping B R P) : Run.Keeps (On P) (Cursor.next B) := by
  apply Run.keeps_get
  intro c
  split
  · exact Run.keeps_pure _
  · apply Run.leads_bind (demand _ _)
    intro _
    exact land (Run.leads_bind (rowBound B) fun rows => h.forwardRows rows)

theorem computed (h : Keeping B R P) (n : Nat) (e : Bound) :
    Run.Keeps (On P) (computed B n e) := by
  apply Run.keeps_get
  intro c
  split
  · exact Run.keeps_pure _
  · apply Run.leads_bind (h.evaluate e)
    intro v
    exact Run.leads_bind (Run.keeps_modify fun _ h => h) fun _ => Run.keeps_pure v

theorem fieldValue (h : Keeping B R P) (n : Nat) (field : Field) :
    Run.Keeps (On P) (fieldValue B n field) := by
  unfold Cursor.fieldValue
  split
  · exact Run.keeps_pure _
  · exact Run.keeps_get fun _ => Run.keeps_pure _
  · exact onSession (h.at_ _ fun k => (h.source k).column _)
  · exact h.computed n _

theorem column (h : Keeping B R P) (n : Nat) : Run.Keeps (On P) (Cursor.column B n) := by
  apply Run.leads_bind (demand _ _)
  intro _
  apply Run.leads_bind (planFor _)
  intro plan
  split
  · exact h.fieldValue n _
  · exact Run.keeps_throw _

theorem columns (h : Keeping B R P) : ∀ ns : List Nat, Run.Keeps (On P) (columns B ns)
  | [] => Run.keeps_pure []
  | n :: rest => Run.leads_bind (h.column n) fun _ =>
      Run.leads_bind (columns h rest) fun _ => Run.keeps_pure _

theorem row (h : Keeping B R P) : Run.Keeps (On P) (row B) :=
  Run.keeps_get fun _ => h.columns _

theorem drain (h : Keeping B R P) : ∀ rows : Nat, Run.Keeps (On P) (drain B rows)
  | 0 => Run.keeps_pure none
  | rows + 1 => by
    apply Run.leads_bind h.row
    intro current
    apply Run.leads_bind h.next
    intro landing
    cases landing with
    | row => exact Run.leads_bind (drain h rows) fun _ => Run.keeps_pure _
    | ended => exact Run.keeps_pure _
    | givenUp => exact Run.keeps_pure none

/-- What asking keeps unless it is refused is kept until all rows are read. -/
theorem fetchAll (h : Keeping B R P) (params : Params) :
    Run.Keeps (On P) (fetchAll B params) := by
  apply Run.leads_bind (execute params)
  intro _
  apply Run.leads_bind h.first
  intro landing
  cases landing with
  | row => exact Run.leads_bind (rowBound B) fun rows => h.drain rows
  | ended => exact Run.keeps_pure _
  | givenUp => exact Run.keeps_pure none

end Session.Keeping

end SelectEngine
