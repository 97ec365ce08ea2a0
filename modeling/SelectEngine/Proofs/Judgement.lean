import SelectEngine.Proofs.Ordinary.Basic

/-!
# Judgements of what computations return

Binding asks for columns in any monad that can fail, and what is shown of its steps is shown in the
same way over live sources and over tables at rest. A `Judgement` says of the computations of a
monad that the values they return have a property, and of their failures that they are admitted;
sequences keep it. Facts about steps of binding are stated over any judgement where more than one is
wanted.
-/

set_option autoImplicit false

namespace SelectEngine

/-- What is said of the values that computations return, and of their failures, and holds of a
sequence when it holds of its parts. -/
structure Judgement (m : Type → Type) [Monad m] [MonadExceptOf Error m] where
  /-- Every value that the computation returns has the property, and its failures are admitted. -/
  holds : {α : Type} → m α → (α → Prop) → Prop
  admits : Error → Prop
  returning : ∀ {α : Type} {a : α} {Q : α → Prop}, Q a → holds (pure a) Q
  sequencing : ∀ {α β : Type} {x : m α} {f : α → m β} {P : α → Prop} {Q : β → Prop},
    holds x P → (∀ a, P a → holds (f a) Q) → holds (x >>= f) Q
  failing : ∀ {α : Type} {e : Error} {Q : α → Prop}, admits e → holds (throw e) Q
  weaken : ∀ {α : Type} {x : m α} {P Q : α → Prop}, holds x P → (∀ a, P a → Q a) → holds x Q

namespace Judgement

variable {S ρ α : Type} {m : Type → Type} [Monad m] [MonadExceptOf Error m]

/-- Every value that is returned has the property; any failure is admitted. -/
def returns (S : Type) : Judgement (Run S) where
  holds := Run.Returns
  admits _ := True
  returning := Run.returns_pure
  sequencing := Run.returns_bind
  failing _ := Run.returns_throw _ _
  weaken hx h state a later ha := h a (hx state a later ha)

/-- The outcome is a value with the property, or an ordinary failure. -/
def ordinary : Judgement (Except Error) where
  holds := Ordinarily
  admits := Error.Ordinary
  returning := ordinarily_ok
  sequencing := ordinarily_bind
  failing := ordinarily_error
  weaken := Ordinarily.mono

/-- The outcome is a value with the property, or any failure. -/
def succeeds : Judgement (Except Error) where
  holds x Q := ∀ a, x = .ok a → Q a
  admits _ := True
  returning h _ ha := Except.ok.inj ha ▸ h
  sequencing hx hf _ hb :=
    let ⟨a, ha, hb⟩ := Outcome.bind_eq_ok hb
    hf a (hx a ha) _ hb
  failing _ _ ha := nomatch ha
  weaken hx h a ha := h a (hx a ha)

/-- The same of computations with a state of their own, from any state. -/
def withState (J : Judgement m) (ρ : Type) : Judgement (StateT ρ m) where
  holds x Q := ∀ state, J.holds (x.run state) fun found => Q found.1
  admits := J.admits
  returning h _ := J.returning h
  sequencing hx hf state := J.sequencing (hx state) fun found hfound => hf found.1 hfound found.2
  failing h _ := J.sequencing (J.failing h) fun _ (ha : False) => ha.elim
  weaken hx h state := J.weaken (hx state) fun found => h found.1

/-- The same of computations with a state of their own, from the states in which `keeps` and to
states in which it does. -/
def keeping (J : Judgement m) (keeps : ρ → Prop) : Judgement (StateT ρ m) where
  holds x Q := ∀ state, keeps state → J.holds (x.run state) fun found => Q found.1 ∧ keeps found.2
  admits := J.admits
  returning h _ hstate := J.returning ⟨h, hstate⟩
  sequencing hx hf state hstate :=
    J.sequencing (hx state hstate) fun found hfound => hf found.1 hfound.1 found.2 hfound.2
  failing h _ _ := J.sequencing (J.failing h) fun _ (ha : False) => ha.elim
  weaken hx h state hstate := J.weaken (hx state hstate) fun found hfound =>
    ⟨h found.1 hfound.1, hfound.2⟩

/-- Nothing is said of a computation that fails, nor of one of which nothing is known. -/
structure Partial (J : Judgement m) : Prop where
  admits : ∀ e, J.admits e
  any : ∀ {α : Type} (x : m α), J.holds x fun _ => True
  /-- To do something to the values that leaves those alone that may be returned is to do nothing.
  -/
  fixing : ∀ {α : Type} {x : m α} {f : α → α}, J.holds x (fun a => f a = a) →
    (x >>= fun a => pure (f a)) = x

theorem partial_returns (S : Type) : (returns S).Partial where
  admits _ := trivial
  any := Run.returns_any
  fixing {_ x f} h := by
    funext state
    rw [Run.bind_apply]
    cases hx : x state with
    | ok a later => exact congrArg (fun a => EStateM.Result.ok a later) (h state a later hx)
    | error e later => rfl

theorem partial_succeeds : succeeds.Partial where
  admits _ := trivial
  any _ _ _ := trivial
  fixing {_ x f} h := by
    cases x with
    | ok a => exact congrArg Except.ok (h a rfl)
    | error e => rfl

variable {J : Judgement m}

theorem relay {x : Except Error α} {Q : α → Prop} (hok : ∀ a, x = .ok a → Q a)
    (herror : ∀ e, x = .error e → J.admits e) : J.holds (SelectEngine.relay x) Q := by
  cases x with
  | ok a => exact J.returning (hok a rfl)
  | error e => exact J.failing (herror e rfl)

/-! ## From a given state -/

section

variable {β : Type} {state : ρ} {f : α → StateT ρ m β} {Q : β × ρ → Prop}

theorem run_bind {x : StateT ρ m α} {P : α × ρ → Prop} (hx : J.holds (x.run state) P)
    (hf : ∀ found, P found → J.holds ((f found.1).run found.2) Q) :
    J.holds ((x >>= f).run state) Q :=
  J.sequencing hx hf

theorem run_lift_bind {x : m α} {P : α → Prop} (hx : J.holds x P)
    (hf : ∀ a, P a → J.holds ((f a).run state) Q) : J.holds ((liftM x >>= f).run state) Q := by
  refine run_bind (P := fun found => P found.1 ∧ found.2 = state)
    (J.sequencing hx fun a ha => J.returning ⟨ha, rfl⟩) ?_
  rintro ⟨a, _⟩ ⟨ha, rfl⟩
  exact hf a ha

theorem run_relay_bind {x : Except Error α} (hadmits : ∀ e, J.admits e)
    (hf : ∀ a, x = .ok a → J.holds ((f a).run state) Q) :
    J.holds ((SelectEngine.relay x >>= f).run state) Q := by
  refine run_bind (P := fun found => x = .ok found.1 ∧ found.2 = state) ?_ ?_
  · cases x with
    | ok a => exact J.returning ⟨rfl, rfl⟩
    | error e => exact J.sequencing (J.failing (hadmits e)) fun _ (ha : False) => ha.elim
  · rintro ⟨a, _⟩ ⟨ha, rfl⟩
    exact hf a ha

theorem run_modify_bind {g : ρ → ρ} {f : Unit → StateT ρ m β}
    (hf : J.holds ((f ()).run (g state)) Q) : J.holds ((modify g >>= f).run state) Q := by
  refine run_bind (P := fun found => found = ((), g state)) (J.returning rfl) ?_
  rintro _ rfl
  exact hf

end

end Judgement

end SelectEngine
