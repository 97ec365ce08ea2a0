import SelectEngine.Proofs.Run

/-!
# Where computations lead

`Run.Leads P x Q F` says of a computation that it leads from the states in `P` to those in `Q` if it
returns a value and to those in `F` if it fails. The rules follow the operations of the monad, so
that what a sequence leads to is found from its parts.
-/

set_option autoImplicit false

namespace SelectEngine.Run

variable {s α β : Type}

/-- From a state in `P` the computation returns a value with a state in `Q`, or fails in a state
in `F`. -/
def Leads (P : s → Prop) (x : Run s α) (Q : α → s → Prop) (F : s → Prop) : Prop :=
  ∀ state, P state → match x state with
    | .ok a later => Q a later
    | .error _ later => F later

variable {P : s → Prop} {Q : α → s → Prop} {R : β → s → Prop} {F : s → Prop}

theorem leads_pure {a : α} (h : ∀ state, P state → Q a state) : Leads P (pure a) Q F := h

theorem leads_throw {e : Error} (h : ∀ state, P state → F state) :
    Leads P (throw e : Run s α) Q F := h

/-- The second computation starts where the first one leads to. -/
theorem leads_bind {x : Run s α} {f : α → Run s β} (hx : Leads P x Q F)
    (hf : ∀ a, Leads (Q a) (f a) R F) : Leads P (x >>= f) R F := by
  intro state hstate
  have h := hx state hstate
  rw [bind_apply]
  cases hstep : x state with
  | ok a later =>
    rw [hstep] at h
    exact hf a later h
  | error e later =>
    rw [hstep] at h
    exact h

/-- A computation that can return one value only is followed by what goes with that value. -/
theorem leads_bind_value {x : Run s α} {f : α → Run s β} {a : α} {S : s → Prop}
    (hx : Leads P x (fun b state => b = a ∧ S state) F) (hf : Leads S (f a) R F) :
    Leads P (x >>= f) R F := by
  refine leads_bind hx fun b => ?_
  rintro state ⟨rfl, hstate⟩
  exact hf state hstate

/-- What follows a look at the state is done in the state that was seen. -/
theorem leads_get {f : s → Run s β} (hf : ∀ seen, P seen → Leads (· = seen) (f seen) R F) :
    Leads P (get >>= f) R F := by
  intro state hstate
  rw [bind_of_ok (get_apply state)]
  exact hf state hstate state rfl

theorem leads_modify {f : s → s} {Q : Unit → s → Prop} (h : ∀ state, P state → Q () (f state)) :
    Leads P (modify f) Q F := h

theorem leads_relay {x : Except Error α} (hok : ∀ a, x = .ok a → ∀ state, P state → Q a state)
    (herror : ∀ e, x = .error e → ∀ state, P state → F state) : Leads P (relay x) Q F := by
  cases x with
  | ok a => exact leads_pure (hok a rfl)
  | error e => exact leads_throw (herror e rfl)

/-- An attempt does not fail. -/
theorem leads_attempt {x : Run s α} (hx : Leads P x Q F) :
    Leads P (attempt x) (fun outcome state => match outcome with
      | .ok a => Q a state
      | .error _ => F state) (fun _ => False) := by
  intro state hstate
  have h := hx state hstate
  unfold attempt
  cases hstep : x state with
  | ok a later =>
    rw [hstep] at h
    exact h
  | error e later =>
    rw [hstep] at h
    exact h

theorem Leads.weaken {x : Run s α} {P' : s → Prop} {Q' : α → s → Prop} {F' : s → Prop}
    (h : Leads P x Q F) (hP : ∀ state, P' state → P state)
    (hQ : ∀ a state, Q a state → Q' a state) (hF : ∀ state, F state → F' state) :
    Leads P' x Q' F' := by
  intro state hstate
  have hx := h state (hP state hstate)
  cases hstep : x state with
  | ok a later =>
    rw [hstep] at hx
    exact hQ a later hx
  | error e later =>
    rw [hstep] at hx
    exact hF later hx

/-- The state in which a computation ends, failed or not. -/
theorem Leads.final {x : Run s α} (h : Leads P x Q F) {state : s} (hstate : P state) :
    (∃ a, x.outcome state = .ok a ∧ Q a (x.final state)) ∨
      (∃ e, x.outcome state = .error e) ∧ F (x.final state) := by
  have hx := h state hstate
  rw [Run.outcome, Run.final]
  cases hstep : x state with
  | ok a later =>
    rw [hstep] at hx
    exact Or.inl ⟨a, rfl, hx⟩
  | error e later =>
    rw [hstep] at hx
    exact Or.inr ⟨⟨e, rfl⟩, hx⟩

/-- What holds however a computation ends holds of the state in which it ends. -/
theorem Leads.final_of_both {x : Run s α} {Q : s → Prop} (h : Leads P x (fun _ => Q) Q) {state : s}
    (hstate : P state) : Q (x.final state) := by
  rcases h.final hstate with ⟨a, -, hfinal⟩ | ⟨-, hfinal⟩
  · exact hfinal
  · exact hfinal

end SelectEngine.Run
