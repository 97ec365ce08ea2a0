import SelectEngine.Source

/-!
# Outcomes of computations

A computation of `Run s` applied to a state gives an outcome and a state. The equations below say
what the operations of the monad give (`Run.bind_apply` and its neighbours), and `Run.outcome`
forgets the state. `Run.Returns` says that every value a computation can return has a property, and
`Run.Meets` says so of values, failures and states for the states in which an invariant holds.
-/

set_option autoImplicit false

namespace SelectEngine

variable {s ρ α β : Type}

namespace Outcome

@[simp] theorem ok_bind (a : α) (f : α → Except Error β) : (Except.ok a >>= f) = f a := rfl

@[simp] theorem error_bind (e : Error) (f : α → Except Error β) :
    (Except.error e >>= f) = .error e := rfl

theorem relay_eq (x : Except Error α) : (relay x : Except Error α) = x := by
  cases x <;> rfl

/-- A sequence that succeeds is made of two parts that do. -/
theorem bind_eq_ok {x : Except Error α} {f : α → Except Error β} {b : β}
    (h : (x >>= f) = .ok b) : ∃ a, x = .ok a ∧ f a = .ok b := by
  cases x with
  | ok a => exact ⟨a, rfl, h⟩
  | error e => cases h

theorem map_eq_ok {x : Except Error α} {f : α → β} {b : β} (h : x.map f = .ok b) :
    ∃ a, x = .ok a ∧ f a = b := by
  cases x with
  | error e => cases h
  | ok a => exact ⟨a, rfl, Except.ok.inj h⟩

end Outcome

namespace Run

@[simp] theorem pure_apply (a : α) (state : s) : (pure a : Run s α) state = .ok a state := rfl

@[simp] theorem throw_apply (e : Error) (state : s) :
    (throw e : Run s α) state = .error e state := rfl

@[simp] theorem get_apply (state : s) : (get : Run s s) state = .ok state state := rfl

@[simp] theorem modify_apply (f : s → s) (state : s) :
    (modify f : Run s Unit) state = .ok () (f state) := rfl

theorem bind_apply (x : Run s α) (f : α → Run s β) (state : s) :
    (x >>= f) state = match x state with
      | .ok a later => f a later
      | .error e later => .error e later := by
  cases h : x state <;> simp [bind, EStateM.bind, h]

theorem bind_of_ok {x : Run s α} {f : α → Run s β} {state later : s} {a : α}
    (h : x state = .ok a later) : (x >>= f) state = f a later := by
  rw [bind_apply, h]

theorem bind_of_error {x : Run s α} {f : α → Run s β} {state later : s} {e : Error}
    (h : x state = .error e later) : (x >>= f) state = .error e later := by
  rw [bind_apply, h]

/-- A sequence that succeeds is made of two computations that do. -/
theorem bind_eq_ok {x : Run s α} {f : α → Run s β} {state last : s} {b : β}
    (h : (x >>= f) state = .ok b last) :
    ∃ a later, x state = .ok a later ∧ f a later = .ok b last := by
  rw [bind_apply] at h
  cases hx : x state with
  | ok a later =>
    rw [hx] at h
    exact ⟨a, later, rfl, h⟩
  | error e later =>
    rw [hx] at h
    cases h

@[simp] theorem relay_ok (a : α) (state : s) :
    (relay (.ok a) : Run s α) state = .ok a state := rfl

@[simp] theorem relay_error (e : Error) (state : s) :
    (relay (.error e) : Run s α) state = .error e state := rfl

/-- What a computation gives, without the state in which it ends. -/
def outcome (x : Run s α) (state : s) : Except Error α :=
  match x state with
  | .ok a _ => .ok a
  | .error e _ => .error e

theorem outcome_of_error {x : Run s α} {state later : s} {e : Error}
    (h : x state = .error e later) : x.outcome state = .error e := by
  rw [outcome, h]

theorem outcome_relay {x : Run s α} {state later : s} {y : Except Error α}
    (h : x state = (relay y : Run s α) later) : x.outcome state = y := by
  rw [outcome, h]
  cases y <;> rfl

theorem outcome_bind_of_ok {x : Run s α} {f : α → Run s β} {state later : s} {a : α}
    (h : x state = .ok a later) : (x >>= f).outcome state = (f a).outcome later := by
  rw [outcome, bind_of_ok h, outcome]

theorem outcome_bind_of_error {x : Run s α} {f : α → Run s β} {state later : s} {e : Error}
    (h : x state = .error e later) : (x >>= f).outcome state = .error e :=
  outcome_of_error (bind_of_error h)

theorem outcome_bind_pure (x : Run s α) (f : α → β) (state : s) :
    (x >>= fun a => pure (f a)).outcome state = (x.outcome state).map f := by
  rw [outcome, outcome, bind_apply]
  cases x state <;> rfl

/-- The state in which a computation ends, failed or not. -/
def final (x : Run s α) (state : s) : s :=
  match x state with
  | .ok _ later | .error _ later => later

theorem final_of_error {x : Run s α} {state later : s} {e : Error}
    (h : x state = .error e later) : x.final state = later := by
  rw [final, h]

theorem final_relay {x : Run s α} {state later : s} {y : Except Error α}
    (h : x state = (relay y : Run s α) later) : x.final state = later := by
  rw [final, h]
  cases y <;> rfl

theorem final_bind_of_ok {x : Run s α} {f : α → Run s β} {state later : s} {a : α}
    (h : x state = .ok a later) : (x >>= f).final state = (f a).final later := by
  rw [final, bind_of_ok h, final]

theorem final_bind_of_error {x : Run s α} {f : α → Run s β} {state later : s} {e : Error}
    (h : x state = .error e later) : (x >>= f).final state = later :=
  final_of_error (bind_of_error h)

theorem attempt_apply (x : Run s α) (state : s) :
    attempt x state = .ok (x.outcome state) (x.final state) := by
  rw [attempt, outcome, final]
  cases x state <;> rfl

/-- Every value that a computation returns has the property `Q`. -/
def Returns (x : Run s α) (Q : α → Prop) : Prop :=
  ∀ state a later, x state = .ok a later → Q a

theorem returns_pure {a : α} {Q : α → Prop} (h : Q a) : Returns (pure a : Run s α) Q := by
  intro state b later hb
  cases hb
  exact h

theorem returns_throw (e : Error) (Q : α → Prop) : Returns (throw e : Run s α) Q := by
  intro state b later hb
  cases hb

theorem returns_bind {x : Run s α} {f : α → Run s β} {P : α → Prop} {Q : β → Prop}
    (hx : Returns x P) (hf : ∀ a, P a → Returns (f a) Q) : Returns (x >>= f) Q := by
  intro state b last h
  obtain ⟨a, later, ha, hb⟩ := bind_eq_ok h
  exact hf a (hx state a later ha) later b last hb

theorem returns_relay {x : Except Error α} {Q : α → Prop} (h : ∀ a, x = .ok a → Q a) :
    Returns (relay x : Run s α) Q := by
  cases x with
  | ok a => exact returns_pure (h a rfl)
  | error e => exact returns_throw e Q

theorem returns_any (x : Run s α) : Returns x fun _ => True := fun _ _ _ _ => trivial

/-- Every value that a computation with a state of its own returns has the property `Q`. -/
def ReturnsWith (x : StateT ρ (Run s) α) (Q : α → Prop) : Prop :=
  ∀ found, Returns (x.run found) fun result => Q result.1

theorem returnsWith_pure {a : α} {Q : α → Prop} (h : Q a) :
    ReturnsWith (pure a : StateT ρ (Run s) α) Q :=
  fun _ => returns_pure h

theorem returnsWith_lift {x : Run s α} {Q : α → Prop} (h : Returns x Q) :
    ReturnsWith (liftM x : StateT ρ (Run s) α) Q :=
  fun _ => returns_bind h fun _ ha => returns_pure ha

theorem returnsWith_bind {x : StateT ρ (Run s) α} {f : α → StateT ρ (Run s) β} {P : α → Prop}
    {Q : β → Prop} (hx : ReturnsWith x P) (hf : ∀ a, P a → ReturnsWith (f a) Q) :
    ReturnsWith (x >>= f) Q :=
  fun found => returns_bind (hx found) fun result hresult => hf result.1 hresult result.2

theorem returnsWith_relay {x : Except Error α} {Q : α → Prop} (h : ∀ a, x = .ok a → Q a) :
    ReturnsWith (relay x : StateT ρ (Run s) α) Q := by
  cases x with
  | ok a => exact returnsWith_pure (h a rfl)
  | error e =>
    intro found state a later ha
    cases ha

theorem ReturnsWith.mono {x : StateT ρ (Run s) α} {P Q : α → Prop} (h : ReturnsWith x P)
    (himp : ∀ a, P a → Q a) : ReturnsWith x Q :=
  fun found state result later hresult => himp result.1 (h found state result later hresult)

theorem returnsWith_any (x : StateT ρ (Run s) α) : ReturnsWith x fun _ => True :=
  fun _ => returns_any _

/-! ## Computations from a set of states -/

/-- From a state in which `holds` the computation returns a value with the property `Q` in a state
in which `holds` again, or fails with an error that has the property `E`. -/
def Meets (holds : s → Prop) (E : Error → Prop) (x : Run s α) (Q : α → Prop) : Prop :=
  ∀ state, holds state → match x state with
    | .ok a later => Q a ∧ holds later
    | .error e _ => E e

variable {holds : s → Prop} {E : Error → Prop}

theorem meets_pure {a : α} {Q : α → Prop} (h : Q a) : Meets holds E (pure a) Q :=
  fun _ hstate => ⟨h, hstate⟩

theorem meets_throw {e : Error} {Q : α → Prop} (h : E e) : Meets holds E (throw e) Q :=
  fun _ _ => h

theorem meets_relay {x : Except Error α} {Q : α → Prop} (herror : ∀ e, x = .error e → E e)
    (hok : ∀ a, x = .ok a → Q a) : Meets holds E (relay x) Q := by
  cases x with
  | ok a => exact meets_pure (hok a rfl)
  | error e => exact meets_throw (herror e rfl)

theorem meets_bind {x : Run s α} {f : α → Run s β} {P : α → Prop} {Q : β → Prop}
    (hx : Meets holds E x P) (hf : ∀ a, P a → Meets holds E (f a) Q) :
    Meets holds E (x >>= f) Q := by
  intro state hstate
  have h := hx state hstate
  rw [bind_apply]
  cases hstep : x state with
  | ok a later =>
    rw [hstep] at h
    exact hf a h.1 later h.2
  | error e later =>
    rw [hstep] at h
    exact h

theorem Meets.weaken {x : Run s α} {Q : α → Prop} {E' : Error → Prop} (h : Meets holds E x Q)
    (herror : ∀ e, E e → E' e) : Meets holds E' x Q := by
  intro state hstate
  have hx := h state hstate
  cases hstep : x state with
  | ok a later =>
    rw [hstep] at hx
    exact hx
  | error e later =>
    rw [hstep] at hx
    exact herror e hx

end Run

end SelectEngine
