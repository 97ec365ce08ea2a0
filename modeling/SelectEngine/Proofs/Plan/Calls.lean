import SelectEngine.Proofs.Function.Declared
import SelectEngine.Proofs.Plan.Operand
import SelectEngine.Proofs.Plan.Resolved

/-!
# What the calls of an expression are bound to

Every call of an expression is bound to the function that the registry finds for its name and the
number of its arguments, and with as many arguments (`Resolver.resolve_findsCalls`). The calls of
the two stand at the same paths (`Expr.FindsCalls.rel_at?`). When a call is evaluated, it is with
the values of all its arguments: no expression can tell a function from one that does something else
for any other number of arguments (`Bound.eval_elsewhere`).
-/

set_option autoImplicit false

namespace SelectEngine

/-- The expression has neither operands nor arguments and is no call. -/
def Bound.IsLeaf : Bound → Prop
  | .literal _ | .param _ | .column _ => True
  | .call _ _ | .operation _ _ | .unbound _ _ | .other _ => False

section

variable (word : TokenId → String) (registry : Registry)

mutual

/-- What an expression is bound to as far as its calls go: each means the function that the registry
finds for its name and the number of its arguments. -/
def Expr.FindsCalls : Expr TokenId → Bound → Prop
  | .text _, b | .number _, b | .null _, b | .param _, b | .name _, b => b.IsLeaf
  | .call function args, b => ∃ f, registry.find? (word function) args.length = some f ∧
      ∃ bs, b = .call f bs ∧ Expr.AllFindCalls args bs
  | .unary op operand, b => ∃ operand', b = .operation op [operand'] ∧ operand.FindsCalls operand'
  | .binary op left right, b => ∃ left' right', b = .operation op [left', right'] ∧
      left.FindsCalls left' ∧ right.FindsCalls right'

def Expr.AllFindCalls : List (Expr TokenId) → List Bound → Prop
  | [], bs => bs = []
  | e :: es, bs => ∃ first rest, bs = first :: rest ∧ e.FindsCalls first ∧ Expr.AllFindCalls es rest

end

end

/-! ## Resolving -/

namespace Resolver

variable {S : Type} {r : Resolver (Run S)}

/-- The function of a call is what the registry finds for it. -/
theorem function_returns {function : TokenId} {n : Nat}
    (hhas : r.tree.Has (.node n (.id function) [])) (bs : List Branch) :
    Run.Returns (r.function (.node n (.id function) [] :: bs)) fun f =>
      r.registry.find? (r.tree.word function) bs.length = some f := by
  have hname : r.tree.tokenText? n = r.tree.textOf function := by
    rw [Tree.tokenText?, hhas.kind]
    rfl
  unfold Resolver.function
  split
  · exact Run.returns_throw _ _
  · next name hfirst =>
    have hword : r.tree.word function = name := by
      rw [Tree.word, ← hname]
      exact congrArg (·.getD "") hfirst
    dsimp only
    split
    · next f hfound =>
      rw [hword]
      exact Run.returns_pure (Registry.find?_of_forCall? hfound)
    · exact Run.returns_throw _ _

/-- A leaf is bound to a leaf, after what is below it has been walked over. -/
theorem leaf_returns {depth : Nat} {b : Bound} {bs : List Branch} (h : b.IsLeaf) :
    Run.ReturnsWith (do let _ ← r.resolveAll depth bs; pure b) Bound.IsLeaf := by
  apply Run.returnsWith_bind (Run.returnsWith_any _)
  intro _ _
  exact Run.returnsWith_pure h

mutual

/-- The induction is on the expression; every case follows the steps that its node takes. -/
theorem resolve_findsCalls (depth : Nat) : ∀ (n : Nat) (e : Expr TokenId),
    r.tree.Has (e.branch n) →
      Run.ReturnsWith (r.resolve depth (e.branch n)) (e.FindsCalls r.tree.word r.registry)
  | n, .text _, _ | n, .number _, _ | n, .null _, _ | n, .param _, _ => by
    rw [Expr.branch, resolve]
    exact leaf_returns trivial
  | n, .name parts, _ => by
    rw [Expr.branch, resolve]
    apply Run.returnsWith_bind (Run.returnsWith_any _)
    intro ref _
    apply Run.returnsWith_bind (Run.returnsWith_any _)
    intro _ _
    exact Run.returnsWith_pure trivial
  | n, .call function args, hhas => by
    rw [Expr.branch] at hhas ⊢
    rw [resolve]
    have hfunction :=
      function_returns (hhas.below List.mem_cons_self) (Expr.branches (n + 1) args)
    rw [length_branches] at hfunction
    apply Run.returnsWith_bind (Run.returnsWith_lift hfunction)
    intro f hf
    apply Run.returnsWith_bind (Run.returnsWith_any _)
    intro _ _
    apply Run.returnsWith_bind (Run.returnsWith_any _)
    intro _ _
    have hargs := resolveAll_findsCalls (depth + 1) (n + 1) args
      fun b hb => hhas.below (List.mem_cons_of_mem _ hb)
    apply Run.returnsWith_bind (resolveAll_cons_returns (Run.returnsWith_any _) hargs)
    -- The name of the function is the first branch, and is dropped.
    rintro _ ⟨_, bs, rfl, -, hbs⟩
    exact Run.returnsWith_pure ⟨f, hf, bs, rfl, hbs⟩
  | n, .unary op operand, hhas => by
    rw [Expr.branch] at hhas ⊢
    rw [resolve]
    apply Run.returnsWith_bind (Run.returnsWith_any _)
    intro _ _
    have hoperand := resolve_findsCalls (depth + 1) n operand (hhas.below List.mem_cons_self)
    apply Run.returnsWith_bind (resolveAll_cons_returns hoperand (resolveAll_nil_returns _))
    rintro _ ⟨bound, _, rfl, hbound, rfl⟩
    exact Run.returnsWith_pure ⟨bound, rfl, hbound⟩
  | n, .binary op left right, hhas => by
    rw [Expr.branch] at hhas ⊢
    rw [resolve]
    apply Run.returnsWith_bind (Run.returnsWith_any _)
    intro _ _
    have hleft := resolve_findsCalls (depth + 1) n left (hhas.below List.mem_cons_self)
    have hright := resolve_findsCalls (depth + 1) (n + left.size) right
      (hhas.below (List.mem_cons_of_mem _ List.mem_cons_self))
    apply Run.returnsWith_bind
      (resolveAll_cons_returns hleft (resolveAll_cons_returns hright (resolveAll_nil_returns _)))
    rintro _ ⟨bound, _, rfl, hbound, other, _, rfl, hother, rfl⟩
    exact Run.returnsWith_pure ⟨bound, other, rfl, hbound, hother⟩

theorem resolveAll_findsCalls (depth : Nat) : ∀ (n : Nat) (es : List (Expr TokenId)),
    (∀ b ∈ Expr.branches n es, r.tree.Has b) →
      Run.ReturnsWith (r.resolveAll depth (Expr.branches n es))
        (Expr.AllFindCalls r.tree.word r.registry es)
  | _, [], _ => by
    rw [Expr.branches]
    exact resolveAll_nil_returns depth
  | n, e :: es, hhas => by
    rw [Expr.branches] at hhas ⊢
    obtain ⟨hfirst, hrest⟩ := List.forall_mem_cons.mp hhas
    exact resolveAll_cons_returns (resolve_findsCalls depth n e hfirst)
      (resolveAll_findsCalls depth (n + e.size) es hrest)

end

end Resolver

/-! ## Paths -/

section

variable {word : TokenId → String} {registry : Registry}

theorem Expr.AllFindCalls.forall₂ {es : List (Expr TokenId)} {bs : List Bound}
    (h : Expr.AllFindCalls word registry es bs) :
    List.Forall₂ (Expr.FindsCalls word registry) es bs := by
  induction es generalizing bs with
  | nil =>
    cases h
    exact .nil
  | cons e es ih =>
    obtain ⟨first, rest, rfl, hfirst, hrest⟩ := h
    exact .cons hfirst (ih hrest)

theorem Expr.FindsCalls.operands {e : Expr TokenId} {b : Bound}
    (h : e.FindsCalls word registry b) :
    List.Forall₂ (Expr.FindsCalls word registry) e.operands b.operands := by
  cases e with
  | text | number | null | param | name =>
    cases b with
    | literal | param | column => exact .nil
    | call | operation | unbound | other => cases h
  | call function args =>
    obtain ⟨f, -, bs, rfl, hargs⟩ := h
    exact AllFindCalls.forall₂ hargs
  | unary op operand =>
    obtain ⟨operand', rfl, hoperand⟩ := h
    exact .cons hoperand .nil
  | binary op left right =>
    obtain ⟨left', right', rfl, hleft, hright⟩ := h
    exact .cons hleft (.cons hright .nil)

theorem rel_getElem? {α β : Type} {R : α → β → Prop} {as : List α} {bs : List β}
    (h : List.Forall₂ R as bs) (i : Nat) : Option.Rel R as[i]? bs[i]? := by
  induction h generalizing i with
  | nil => exact .none
  | cons hab _ ih =>
    cases i with
    | zero => exact .some hab
    | succ i => exact ih i

/-- At every path there is an operand of both or of neither, and the one is bound to the other. -/
theorem Expr.FindsCalls.rel_at? {e : Expr TokenId} {b : Bound} (h : e.FindsCalls word registry b)
    (path : List Nat) :
    Option.Rel (Expr.FindsCalls word registry) (e.at? path) (b.at? path) := by
  induction path generalizing e b with
  | nil => exact .some h
  | cons i path ih =>
    -- The operands are as many on both sides, so a path leads on in both or in neither.
    have hoperand := rel_getElem? h.operands i
    rw [Expr.at?, Bound.at?]
    cases he : e.operands[i]? with
    | none =>
      cases hb : b.operands[i]? with
      | none => exact .none
      | some b' =>
        rw [he, hb] at hoperand
        cases hoperand
    | some e' =>
      cases hb : b.operands[i]? with
      | none =>
        rw [he, hb] at hoperand
        cases hoperand
      | some b' =>
        rw [he, hb] at hoperand
        cases hoperand with
        | some hfinds => exact ih hfinds

end

/-! ## Evaluating -/

/-- The function that does something else for any other number of arguments. -/
def Function.elsewhere (other : Function → List Value → Except Error Value) (args : Nat)
    (f : Function) : Function :=
  { f with
    invoke := fun values => if values.length = args then f.invoke values else other f values }

namespace Bound

variable (other : Function → List Value → Except Error Value)

mutual

/-- The expression in which the function of every call does something else for any number of
arguments but that of the call. -/
def elsewhere : Bound → Bound
  | call f args => call (f.elsewhere other args.length) (elsewhereAll args)
  | operation op operands => operation op (elsewhereAll operands)
  | literal reading => literal reading
  | param ordinal => param ordinal
  | column ref => column ref
  | unbound missing args => unbound missing args
  | .other kind => .other kind

def elsewhereAll : List Bound → List Bound
  | [] => []
  | b :: bs => b.elsewhere :: elsewhereAll bs

end

theorem length_elsewhereAll (bs : List Bound) : (elsewhereAll other bs).length = bs.length := by
  induction bs with
  | nil => rfl
  | cons b bs ih => rw [elsewhereAll, List.length_cons, List.length_cons, ih]

variable {other}

/-- What is done with the values of operands need only be looked at for so many values. -/
theorem evalAll_bind_congr {m : Type → Type} [Monad m] [LawfulMonad m] [MonadExceptOf Error m]
    {β : Type} {env : Environment m} {depth : Nat} {bs : List Bound} {f g : List Value → m β}
    (h : ∀ values, values.length = bs.length → f values = g values) :
    evalAll env depth bs >>= f = evalAll env depth bs >>= g := by
  induction bs generalizing f g with
  | nil =>
    rw [evalAll, pure_bind, pure_bind]
    exact h [] rfl
  | cons b bs ih =>
    have hrest (v : Value) : (evalAll env depth bs >>= fun vs => f (v :: vs)) =
        evalAll env depth bs >>= fun vs => g (v :: vs) :=
      ih fun vs hvs => h (v :: vs) (congrArg (· + 1) hvs)
    rw [evalAll]
    split
    · simp only [bind_assoc, pure_bind, hrest]
    · simp only [bind_assoc, pure_bind, hrest]

mutual

/-- A call is evaluated with as many values as it has arguments: it goes unseen what the functions
do for other numbers of arguments. -/
theorem eval_elsewhere {m : Type → Type} [Monad m] [LawfulMonad m] [MonadExceptOf Error m]
    {env : Environment m} (depth : Nat) : ∀ b : Bound,
    (b.elsewhere other).eval env depth = b.eval env depth
  | literal _ | param _ | column _ | unbound _ _ | .other _ => rfl
  | call f args => by
    rw [elsewhere, eval, eval, evalAll_elsewhere depth args]
    -- There are as many values as arguments, so the function is asked for its own number.
    refine evalAll_bind_congr fun values hvalues => ?_
    rw [Function.elsewhere]
    simp only [hvalues, if_true]
  | operation op operands => by
    rw [elsewhere, eval, eval, evalAll_elsewhere depth operands, length_elsewhereAll]

theorem evalAll_elsewhere {m : Type → Type} [Monad m] [LawfulMonad m] [MonadExceptOf Error m]
    {env : Environment m} (depth : Nat) : ∀ bs : List Bound,
    evalAll env depth (elsewhereAll other bs) = evalAll env depth bs
  | [] => rfl
  | b :: bs => by
    rw [elsewhereAll, evalAll, evalAll, eval_elsewhere (depth + 1) b, evalAll_elsewhere depth bs]

end

end Bound

end SelectEngine
