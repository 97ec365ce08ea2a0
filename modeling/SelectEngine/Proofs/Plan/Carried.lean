import SelectEngine.Proofs.Ordinary.Operation
import SelectEngine.Proofs.Plan.Mirrors
import SelectEngine.Proofs.Plan.Resolved

/-!
# What the expressions of a statement are bound to

Whatever its sources are, an expression is bound to one of its own form: the operators are its
operators, a literal is what its word reads as, and a call means some function of the registry
(`Expr.BindsTo`). Binding refuses an operator or a call that has as many others around it as the
limit allows, so the nesting of an expression that is bound (`Expr.nesting`) is within the limit,
and an expression is refused as too deep only if its nesting is not (`Resolver.resolve_ends`). A
plan carries the expressions of its statement in this sense (`Plan.Carries`), over any backend
(`Cursor.exists_carries_of_prepare`).
-/

set_option autoImplicit false

namespace SelectEngine

variable {S ρ α β : Type}

/-! ## Nesting -/

mutual

/-- The largest number of operators and calls on a path from the root of an expression to a leaf. -/
def Expr.nesting {τ : Type} : Expr τ → Nat
  | .text _ | .number _ | .null _ | .param _ | .name _ => 0
  | .call _ args => Expr.nestingAll args + 1
  | .unary _ operand => operand.nesting + 1
  | .binary _ left right => max left.nesting right.nesting + 1

def Expr.nestingAll {τ : Type} : List (Expr τ) → Nat
  | [] => 0
  | e :: es => max e.nesting (Expr.nestingAll es)

end

/-- The expressions of the SELECT list that are no stars, and the condition. -/
def Statement.expressions {τ : Type} (s : Statement τ) : List (Expr τ) :=
  (s.attributes.filterMap fun a => match a with
    | .value e _ => some e
    | .star _ | .starOf _ _ => none) ++ s.restriction.toList.map Restriction.condition

/-! ## How computations end -/

/-- The failure does not refuse an expression as nested too deep. -/
def Error.Shallow : Error → Prop
  | .tooDeep _ => False
  | _ => True

theorem Error.OfValues.shallow {e : Error} (h : e.OfValues) : e.Shallow := by
  cases e <;> trivial

namespace Run

/-- From every state the computation returns a value with the property `Q`, or fails with an error
that has the property `E`. -/
abbrev Ends (E : Error → Prop) (x : Run S α) (Q : α → Prop) : Prop := Meets (fun _ => True) E x Q

/-- The same of a computation with a state of its own. -/
def EndsWith (E : Error → Prop) (x : StateT ρ (Run S) α) (Q : α → Prop) : Prop :=
  ∀ found, Ends E (x.run found) fun result => Q result.1

variable {E : Error → Prop} {P Q : α → Prop} {R : β → Prop}

theorem Ends.mono {x : Run S α} (h : Ends E x P) (himp : ∀ a, P a → Q a) : Ends E x Q := by
  intro state hstate
  have hx := h state hstate
  cases hstep : x state with
  | ok a later =>
    rw [hstep] at hx
    exact ⟨himp a hx.1, trivial⟩
  | error e later =>
    rw [hstep] at hx
    exact hx

theorem Ends.returns {x : Run S α} (h : Ends E x Q) : Returns x Q := by
  intro state a later hx
  have hstate := h state trivial
  rw [hx] at hstate
  exact hstate.1

theorem Ends.of_error {x : Run S α} (h : Ends E x Q) {state later : S} {e : Error}
    (hx : x state = .error e later) : E e := by
  have hstate := h state trivial
  rw [hx] at hstate
  exact hstate

theorem ends_get : Ends E (get : Run S S) fun _ => True := fun _ _ => ⟨trivial, trivial⟩

theorem ends_modify (f : S → S) : Ends E (modify f) fun _ => True := fun _ _ => ⟨trivial, trivial⟩

theorem endsWith_pure {a : α} (h : Q a) : EndsWith E (pure a : StateT ρ (Run S) α) Q :=
  fun _ => meets_pure h

theorem endsWith_throw {e : Error} (h : E e) : EndsWith E (throw e : StateT ρ (Run S) α) Q :=
  fun _ => meets_throw h

theorem endsWith_lift {x : Run S α} (h : Ends E x Q) :
    EndsWith E (liftM x : StateT ρ (Run S) α) Q :=
  fun _ => meets_bind h fun _ ha => meets_pure ha

theorem endsWith_bind {x : StateT ρ (Run S) α} {f : α → StateT ρ (Run S) β} (hx : EndsWith E x P)
    (hf : ∀ a, P a → EndsWith E (f a) R) : EndsWith E (x >>= f) R :=
  fun found => meets_bind (hx found) fun result hresult => hf result.1 hresult result.2

theorem endsWith_relay {x : Except Error α} (herror : ∀ e, x = .error e → E e)
    (hok : ∀ a, x = .ok a → Q a) : EndsWith E (relay x : StateT ρ (Run S) α) Q := by
  cases x with
  | ok a => exact endsWith_pure (hok a rfl)
  | error e => exact endsWith_throw (herror e rfl)

theorem endsWith_modify (g : ρ → ρ) :
    EndsWith E (modify g : StateT ρ (Run S) Unit) fun _ => True :=
  fun _ => meets_pure trivial

theorem EndsWith.returnsWith {x : StateT ρ (Run S) α} (h : EndsWith E x Q) : ReturnsWith x Q :=
  fun found => (h found).returns

end Run

/-- Every value that is returned has the property, and every failure is one of the given. -/
def Judgement.ends (S : Type) (E : Error → Prop) : Judgement (Run S) where
  holds := Run.Ends E
  admits := E
  returning := Run.meets_pure
  sequencing := Run.meets_bind
  failing := Run.meets_throw
  weaken := Run.Ends.mono

/-! ## Expressions -/

section

variable (word : TokenId → String) (registry : Registry)

mutual

/-- What an expression may be bound to over one source or another. -/
def Expr.BindsTo : Expr TokenId → Bound → Prop
  | .text leaf, b => b = .literal (.ok (.text (word leaf)))
  | .number leaf, b => b = .literal (Value.ofNumeral (word leaf))
  | .null _, b => b = .literal (.ok .null)
  | .param _, b => ∃ ordinal, b = .param ordinal
  | .name _, b => ∃ ref, b = .column ref
  | .call _ args, b => ∃ f ∈ registry.functions, ∃ bs, b = .call f bs ∧ Expr.AllBindTo args bs
  | .unary op operand, b => ∃ operand', b = .operation op [operand'] ∧ operand.BindsTo operand'
  | .binary op left right, b => ∃ left' right', b = .operation op [left', right'] ∧
      left.BindsTo left' ∧ right.BindsTo right'

def Expr.AllBindTo : List (Expr TokenId) → List Bound → Prop
  | [], bs => bs = []
  | e :: es, bs => ∃ first rest, bs = first :: rest ∧ e.BindsTo first ∧ Expr.AllBindTo es rest

end

end

/-! ## Failures that are no matter of depth -/

theorem Operator.shallow_resultType (op : Operator) (types : List DataType) :
    FailsIn Error.Shallow (op.resultType types) := by
  have hrequire : ∀ (test : DataType → Bool) (expected : String) (ts : List DataType) (t : DataType),
      FailsIn Error.Shallow (do op.requireAll test expected ts; .ok t) := fun test expected ts _ =>
    failsIn_bind ((op.onValues_requireAll test expected ts).mono fun _ => Error.OfValues.shallow)
      fun _ => trivial
  unfold resultType
  split
  case h_14 =>
    split
    · exact (op.onValues_comparisonType _ _).mono fun _ => Error.OfValues.shallow
    · exact (op.onValues_arithmeticType _ _).mono fun _ => Error.OfValues.shallow
  all_goals first
    | trivial
    | exact hrequire _ _ _ _

variable {word : TokenId → String} {registry : Registry}

mutual

/-- The type of what an expression is bound to. -/
theorem Expr.BindsTo.shallow_type : ∀ (e : Expr TokenId) (b : Bound), e.BindsTo word registry b →
    FailsIn Error.Shallow b.type
  | .text _, _, h | .null _, _, h => by
    cases h
    trivial
  | .number leaf, _, h => by
    cases h
    have hread := Value.onValues_ofNumeral (word leaf)
    rw [Bound.type]
    cases hvalue : Value.ofNumeral (word leaf) with
    | ok v => trivial
    | error e => exact (hread.of_error hvalue).shallow
  | .param _, _, h | .name _, _, h => by
    obtain ⟨_, rfl⟩ := h
    trivial
  | .call _ args, _, h => by
    obtain ⟨f, -, bs, rfl, hargs⟩ := h
    exact failsIn_bind (Expr.AllBindTo.shallow_types args bs hargs) fun _ => trivial
  | .unary op operand, _, h => by
    obtain ⟨operand', rfl, hoperand⟩ := h
    rw [Bound.type, Bound.types, Bound.types]
    apply failsIn_bind
    · exact failsIn_bind (Expr.BindsTo.shallow_type operand operand' hoperand) fun _ => trivial
    · exact fun ts => op.shallow_resultType ts
  | .binary op left right, _, h => by
    obtain ⟨left', right', rfl, hleft, hright⟩ := h
    rw [Bound.type, Bound.types, Bound.types, Bound.types]
    apply failsIn_bind
    · apply failsIn_bind (Expr.BindsTo.shallow_type left left' hleft)
      intro _
      apply failsIn_bind
      · exact failsIn_bind (Expr.BindsTo.shallow_type right right' hright) fun _ => trivial
      · exact fun _ => trivial
    · exact fun ts => op.shallow_resultType ts

theorem Expr.AllBindTo.shallow_types : ∀ (es : List (Expr TokenId)) (bs : List Bound),
    Expr.AllBindTo word registry es bs → FailsIn Error.Shallow (Bound.types bs)
  | [], _, h => by
    cases h
    trivial
  | e :: es, _, h => by
    obtain ⟨first, rest, rfl, hfirst, hrest⟩ := h
    rw [Bound.types]
    apply failsIn_bind (Expr.BindsTo.shallow_type e first hfirst)
    intro _
    exact failsIn_bind (Expr.AllBindTo.shallow_types es rest hrest) fun _ => trivial

end

/-! ## Names in scope -/

/-- The failures include all that are no matter of depth, and those with which the sources answer.
-/
structure Scope.Admits (scope : Scope (Run S)) (E : Error → Prop) : Prop where
  shallow : ∀ e : Error, e.Shallow → E e
  columnCount : ∀ source, Run.Ends E (scope.columnCount source) fun _ => True
  columnId : ∀ source name, Run.Ends E (scope.columnId? source name) fun _ => True
  describe : ∀ source position, Run.Ends E (scope.describe source position) fun _ => True

namespace Scope.Admits

variable {scope : Scope (Run S)} {E : Error → Prop}

theorem relay (h : scope.Admits E) {x : Except Error α} (hx : FailsIn Error.Shallow x) :
    Run.Ends E (SelectEngine.relay x : Run S α) fun _ => True :=
  Run.meets_relay (fun e he => h.shallow e (hx.of_error he)) fun _ _ => trivial

theorem relayWith (h : scope.Admits E) {x : Except Error α} (hx : FailsIn Error.Shallow x) :
    Run.EndsWith E (SelectEngine.relay x : StateT ρ (Run S) α) fun _ => True :=
  Run.endsWith_relay (fun e he => h.shallow e (hx.of_error he)) fun _ _ => trivial

theorem firstWith (h : scope.Admits E) (name : String) :
    ∀ sources, Run.Ends E (scope.firstWith name sources) fun _ => True
  | [] => Run.meets_pure trivial
  | i :: rest => by
    rw [Scope.firstWith]
    apply Run.meets_bind (h.columnId i name)
    intro found _
    cases found with
    | none => exact firstWith h name rest
    | some position => exact Run.meets_pure trivial

theorem sourceWith (h : scope.Admits E) (name : String) :
    Run.Ends E (scope.sourceWith name) fun _ => True := by
  apply Run.meets_bind (h.firstWith name _)
  intro found _
  rcases found with _ | ⟨i, rest⟩
  · exact Run.meets_throw (h.shallow _ trivial)
  · apply Run.meets_bind (h.firstWith name rest)
    intro second _
    cases second with
    | none => exact Run.meets_pure trivial
    | some other => exact Run.meets_throw (h.shallow _ trivial)

theorem shallow_find (sources : List SourceName) (qualifier : List String) :
    FailsIn Error.Shallow (SourceName.find sources qualifier) := by
  unfold SourceName.find
  dsimp only
  split <;> trivial

theorem column (h : scope.Admits E) (parts : List String) :
    Run.Ends E (scope.column parts) fun _ => True := by
  unfold Scope.column
  dsimp only
  split
  · exact Run.meets_throw (h.shallow _ trivial)
  · next name _ =>
    have hcolumn (source : Nat) :
        Run.Ends E (scope.columnIn source name (".".intercalate parts)) fun _ => True := by
      apply Run.meets_bind (h.columnId source name)
      intro found _
      cases found with
      | none => exact Run.meets_throw (h.shallow _ trivial)
      | some position =>
        exact Run.meets_bind (h.describe source position) fun _ _ => Run.meets_pure trivial
    split
    · exact Run.meets_bind (h.sourceWith name) fun source _ => hcolumn source
    · split
      · exact Run.meets_bind (Run.meets_throw (Q := fun _ => True) (h.shallow _ trivial))
          fun source _ => hcolumn source
      · exact Run.meets_bind (h.relay (shallow_find _ _)) fun source _ => hcolumn source

theorem columnsAt (h : scope.Admits E) (source : Nat) :
    ∀ positions, Run.Ends E (scope.columnsAt source positions) fun _ => True
  | [] => Run.meets_pure trivial
  | position :: rest =>
    Run.meets_bind (h.describe source position) fun _ _ =>
      Run.meets_bind (columnsAt h source rest) fun _ _ => Run.meets_pure trivial

theorem columnsOf (h : scope.Admits E) (source : Nat) :
    Run.Ends E (scope.columnsOf source) fun _ => True :=
  Run.meets_bind (h.columnCount source) fun count _ => h.columnsAt source (List.range count)

theorem columnsOfAll (h : scope.Admits E) :
    ∀ sources, Run.Ends E (scope.columnsOfAll sources) fun _ => True
  | [] => Run.meets_pure trivial
  | source :: rest =>
    Run.meets_bind (h.columnsOf source) fun _ _ =>
      Run.meets_bind (columnsOfAll h rest) fun _ _ => Run.meets_pure trivial

end Scope.Admits

/-! ## Expressions of a tree -/

namespace Resolver

variable {r : Resolver (Run S)} {E : Error → Prop}

/-- An operator or a call has room for itself, and else is refused. -/
theorem guardDepth_ends {depth nesting : Nat}
    (hdeep : r.maxDepth < depth + (nesting + 1) → E (.tooDeep r.maxDepth)) :
    Run.Ends E (r.guardDepth depth) fun _ => depth + 1 ≤ r.maxDepth := by
  unfold guardDepth
  split
  · exact Run.meets_throw (hdeep (by omega))
  · exact Run.meets_pure (by omega)

theorem function_ends (h : r.scope.Admits E) (children : List Branch) :
    Run.Ends E (r.function children) fun f => f ∈ r.registry.functions := by
  unfold function
  split
  · exact Run.meets_throw (h.shallow _ trivial)
  · dsimp only
    split
    · next hfound =>
      exact Run.meets_pure (Registry.mem_of_find? (Registry.find?_of_forCall? hfound))
    · exact Run.meets_throw (h.shallow _ trivial)

theorem resolveAll_nil_ends (depth : Nat) :
    Run.EndsWith E (r.resolveAll depth []) fun bs => bs = [] :=
  resolveAll_nil_holds (r := r) ((Judgement.ends S E).withState Resolution) depth

theorem resolveAll_cons_ends {depth : Nat} {b : Branch} {bs : List Branch} {P : Bound → Prop}
    {Q : List Bound → Prop} (hfirst : Run.EndsWith E (r.resolve depth b) P)
    (hrest : Run.EndsWith E (r.resolveAll depth bs) Q) :
    Run.EndsWith E (r.resolveAll depth (b :: bs)) fun es =>
      ∃ first rest, es = first :: rest ∧ P first ∧ Q rest :=
  resolveAll_cons_holds (r := r) ((Judgement.ends S E).withState Resolution) hfirst hrest

/-- The name of a function is walked over like an expression. -/
theorem functionName_ends (depth n : Nat) (function : TokenId) :
    Run.EndsWith E (r.resolve depth (.node n (.id function) [])) fun _ => True := by
  simp only [resolve]
  apply Run.endsWith_bind (resolveAll_nil_ends depth)
  intro _ _
  exact Run.endsWith_pure trivial

mutual

/-- The induction is on the expression; every case follows the steps that its node takes, and hands
on what is left of the limit. -/
theorem resolve_ends (h : r.scope.Admits E) (depth : Nat) (hdepth : depth ≤ r.maxDepth) :
    ∀ (n : Nat) (e : Expr TokenId), r.tree.Has (e.branch n) →
      (r.maxDepth < depth + e.nesting → E (.tooDeep r.maxDepth)) →
      Run.EndsWith E (r.resolve depth (e.branch n)) fun b =>
        e.BindsTo r.tree.word r.registry b ∧ depth + e.nesting ≤ r.maxDepth
  | n, .text leaf, hhas, _ => by
    rw [Expr.branch, resolve, Tree.Has.constant?_text hhas]
    apply Run.endsWith_bind (resolveAll_nil_ends depth)
    intro _ _
    exact Run.endsWith_pure ⟨rfl, hdepth⟩
  | n, .number leaf, hhas, _ => by
    rw [Expr.branch, resolve, Tree.Has.constant?_number hhas]
    apply Run.endsWith_bind (resolveAll_nil_ends depth)
    intro _ _
    refine Run.endsWith_pure ⟨?_, hdepth⟩
    cases hread : Value.ofNumeral (r.tree.word leaf) <;> rw [Expr.BindsTo, hread] <;> rfl
  | n, .null leaf, hhas, _ => by
    rw [Expr.branch, resolve, Tree.Has.constant?_null hhas]
    apply Run.endsWith_bind (resolveAll_nil_ends depth)
    intro _ _
    exact Run.endsWith_pure ⟨rfl, hdepth⟩
  | n, .param leaf, _, _ => by
    rw [Expr.branch, resolve]
    apply Run.endsWith_bind (resolveAll_nil_ends depth)
    intro _ _
    exact Run.endsWith_pure ⟨⟨_, rfl⟩, hdepth⟩
  | n, .name parts, _, _ => by
    rw [Expr.branch, resolve]
    apply Run.endsWith_bind (Run.endsWith_lift (h.column _))
    intro ref _
    apply Run.endsWith_bind (Run.endsWith_modify _)
    intro _ _
    exact Run.endsWith_pure ⟨⟨ref, rfl⟩, hdepth⟩
  | n, .call function args, hhas, hdeep => by
    rw [Expr.nesting] at hdeep
    rw [Expr.branch] at hhas ⊢
    rw [resolve]
    apply Run.endsWith_bind (Run.endsWith_lift (function_ends h _))
    intro f hf
    apply Run.endsWith_bind (Run.endsWith_modify _)
    intro _ _
    apply Run.endsWith_bind (Run.endsWith_lift (guardDepth_ends hdeep))
    intro _ hroom
    have hargs := resolveAll_ends h (depth + 1) hroom (n + 1) args
      (fun b hb => hhas.below (List.mem_cons_of_mem _ hb)) fun hlt => hdeep (by omega)
    apply Run.endsWith_bind (resolveAll_cons_ends (functionName_ends (depth + 1) n function) hargs)
    -- The name of the function is the first branch, and is dropped.
    rintro _ ⟨_, bs, rfl, -, hbs, hnesting⟩
    refine Run.endsWith_pure ⟨⟨f, hf, bs, rfl, hbs⟩, ?_⟩
    rw [Expr.nesting]
    omega
  | n, .unary op operand, hhas, hdeep => by
    rw [Expr.nesting] at hdeep
    rw [Expr.branch] at hhas ⊢
    rw [resolve]
    apply Run.endsWith_bind (Run.endsWith_lift (guardDepth_ends hdeep))
    intro _ hroom
    have hoperand := resolve_ends h (depth + 1) hroom n operand (hhas.below List.mem_cons_self)
      fun hlt => hdeep (by omega)
    apply Run.endsWith_bind (resolveAll_cons_ends hoperand (resolveAll_nil_ends _))
    rintro _ ⟨bound, _, rfl, ⟨hbound, hnesting⟩, rfl⟩
    refine Run.endsWith_pure ⟨⟨bound, rfl, hbound⟩, ?_⟩
    rw [Expr.nesting]
    omega
  | n, .binary op left right, hhas, hdeep => by
    rw [Expr.nesting] at hdeep
    rw [Expr.branch] at hhas ⊢
    rw [resolve]
    apply Run.endsWith_bind (Run.endsWith_lift (guardDepth_ends hdeep))
    intro _ hroom
    have hleft := resolve_ends h (depth + 1) hroom n left (hhas.below List.mem_cons_self)
      fun hlt => hdeep (by omega)
    have hright := resolve_ends h (depth + 1) hroom (n + left.size) right
      (hhas.below (List.mem_cons_of_mem _ List.mem_cons_self)) fun hlt => hdeep (by omega)
    apply Run.endsWith_bind
      (resolveAll_cons_ends hleft (resolveAll_cons_ends hright (resolveAll_nil_ends _)))
    rintro _ ⟨bound, _, rfl, ⟨hbound, hnesting⟩, other, _, rfl, ⟨hother, hnesting'⟩, rfl⟩
    refine Run.endsWith_pure ⟨⟨bound, other, rfl, hbound, hother⟩, ?_⟩
    rw [Expr.nesting]
    omega

theorem resolveAll_ends (h : r.scope.Admits E) (depth : Nat) (hdepth : depth ≤ r.maxDepth) :
    ∀ (n : Nat) (es : List (Expr TokenId)), (∀ b ∈ Expr.branches n es, r.tree.Has b) →
      (r.maxDepth < depth + Expr.nestingAll es → E (.tooDeep r.maxDepth)) →
      Run.EndsWith E (r.resolveAll depth (Expr.branches n es)) fun bs =>
        Expr.AllBindTo r.tree.word r.registry es bs ∧ depth + Expr.nestingAll es ≤ r.maxDepth
  | _, [], _, _ => by
    rw [Expr.branches, resolveAll]
    exact Run.endsWith_pure ⟨rfl, hdepth⟩
  | n, e :: es, hhas, hdeep => by
    rw [Expr.nestingAll] at hdeep
    rw [Expr.branches] at hhas ⊢
    obtain ⟨hfirst, hrest⟩ := List.forall_mem_cons.mp hhas
    have hbound := resolve_ends h depth hdepth n e hfirst fun hlt => hdeep (by omega)
    have hothers := resolveAll_ends h depth hdepth (n + e.size) es hrest fun hlt =>
      hdeep (by omega)
    intro found
    refine ((resolveAll_cons_ends hbound hothers) found).mono ?_
    rintro ⟨_, _⟩ ⟨first, rest, rfl, ⟨hb, hnesting⟩, hbs, hnesting'⟩
    refine ⟨⟨first, rest, rfl, hb, hbs⟩, ?_⟩
    rw [Expr.nestingAll]
    omega

end

/-- A whole expression has a type, or fails in a way that is no matter of depth. -/
theorem typed_ends (h : r.scope.Admits E) {e : Expr TokenId} {n : Nat}
    (hhas : r.tree.Has (e.branch n)) (hdeep : r.maxDepth < e.nesting → E (.tooDeep r.maxDepth)) :
    Run.EndsWith E (r.typed (e.branch n)) fun found =>
      e.BindsTo r.tree.word r.registry found.1 ∧ e.nesting ≤ r.maxDepth := by
  have hresolve := resolve_ends h 0 (Nat.zero_le _) n e hhas (by rwa [Nat.zero_add])
  apply Run.endsWith_bind hresolve
  rintro b ⟨hb, hnesting⟩
  rw [Nat.zero_add] at hnesting
  apply Run.endsWith_bind (h.relayWith (Expr.BindsTo.shallow_type e b hb))
  exact fun _ _ => Run.endsWith_pure ⟨hb, hnesting⟩

end Resolver

/-! ## Plans -/

section

variable (word : TokenId → String) (registry : Registry) (limit : Nat)

/-- What the expression is bound to, which is nested within the limit. -/
def Expr.Carried (e : Expr TokenId) (b : Bound) : Prop :=
  e.BindsTo word registry b ∧ e.nesting ≤ limit

/-- The fields of an attribute: columns for a star, and else the one of its expression. -/
def Attribute.Carried : Attribute TokenId → List Field → Prop
  | .star _, fields | .starOf _ _, fields => ∀ f ∈ fields, ∃ ref, f.kind = .data ref
  | .value e _, fields => ∃ f, fields = [f] ∧ e.Carried word registry limit f.expression

/-- The fields and the condition of a plan are those of a statement. -/
structure Plan.Carries (p : Plan) (s : Statement TokenId) : Prop where
  attributes : ∃ groups, p.fields = groups.flatten ∧
    List.Forall₂ (Attribute.Carried word registry limit) s.attributes groups
  unrestricted : s.restriction = none → p.predicate = none
  condition : ∀ restriction, s.restriction = some restriction → ∃ found, p.predicate = some found ∧
    restriction.condition.Carried word registry limit found.2

end

theorem Scope.admits_any (scope : Scope (Run S)) : scope.Admits fun _ => True := by
  have hany : ∀ {α : Type} (x : Run S α), Run.Ends (fun _ => True) x fun _ => True := by
    intro α x state _
    cases x state
    · exact ⟨trivial, trivial⟩
    · trivial
  exact ⟨fun _ _ => trivial, fun _ => hany _, fun _ _ => hany _, fun _ _ => hany _⟩

namespace Resolver

variable {r : Resolver (Run S)}

theorem resolve_carried {e : Expr TokenId} {n : Nat} (h : r.tree.Has (e.branch n)) :
    Run.ReturnsWith (r.resolve 0 (e.branch n)) (e.Carried r.tree.word r.registry r.maxDepth) := by
  have hends := resolve_ends r.scope.admits_any 0 (Nat.zero_le _) n e h fun _ => trivial
  rw [Nat.zero_add] at hends
  exact hends.returnsWith

end Resolver

/-- Carrying a statement is one way to mirror it. -/
theorem Plan.carries_iff {word : TokenId → String} {registry : Registry} {limit : Nat} {p : Plan}
    {s : Statement TokenId} :
    p.Carries word registry limit s ↔ p.Mirrors (Expr.Carried word registry limit) s := by
  have hattribute : Attribute.Carried word registry limit =
      Attribute.Mirrors (Expr.Carried word registry limit) := by
    funext a fields
    cases a <;> rfl
  constructor
  · rintro ⟨hattributes, hnone, hsome⟩
    exact ⟨hattribute ▸ hattributes, hnone, hsome⟩
  · rintro ⟨hattributes, hnone, hsome⟩
    exact ⟨hattribute ▸ hattributes, hnone, hsome⟩

namespace Cursor

variable {σ γ : Type} {B : Backend σ γ} {registry : Registry} {settings : Settings} {world : γ}
variable {c : Cursor σ γ}

theorem carries_of_ofTree {tree : Tree} {s : Statement (Fin tree.tokens.size)} (h : tree.Holds s)
    (hc : ofTree B registry settings tree world = .ok c) :
    ∃ plan, c.plan = some plan ∧
      plan.Carries tree.word registry settings.maxDepth (s.map Fin.val) := by
  have hmirror (scope : Scope (Run (Session σ γ))) (params : List NodeId) :
      Resolver.Mirrors (Expr.Carried tree.word registry settings.maxDepth)
        ⟨tree, scope, registry, params, settings.maxDepth⟩ :=
    fun _ _ hhas => Resolver.resolve_carried hhas
  obtain ⟨plan, hplan, hmirrors⟩ := mirrors_of_ofTree hmirror h hc
  exact ⟨plan, hplan, Plan.carries_iff.mpr hmirrors⟩

/-- The plan of a prepared cursor carries the expressions of the statement that its text was read
as. -/
theorem exists_carries_of_prepare {text : String}
    (h : prepare B registry settings text world = .ok c) :
    ∃ (tree : Tree) (plan : Plan) (ts : List Token) (s : Statement (Fin tree.tokens.size)),
      tree.ReadAs settings.reading text ts s ∧ c.plan = some plan ∧
        plan.Carries tree.word registry settings.maxDepth (s.map Fin.val) := by
  unfold prepare at h
  split at h
  · next tree htree =>
    obtain ⟨ts, s, hread⟩ := Tree.exists_readAs_of_parse htree
    obtain ⟨plan, hplan, hcarries⟩ := carries_of_ofTree hread.holds h
    exact ⟨tree, plan, ts, s, hread, hplan, hcarries⟩
  · cases h

end Cursor

end SelectEngine
