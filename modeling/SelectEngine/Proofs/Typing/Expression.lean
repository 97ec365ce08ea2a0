import SelectEngine.Proofs.Plan.Resolved
import SelectEngine.Proofs.Tree.Saturated
import SelectEngine.Proofs.Typing.Operator

/-!
# Expressions evaluate to values of their types

An expression of literals, columns and operators that binding has given a type evaluates to a value
of that type on every row whose columns have theirs, or fails in a way that depends on the values
alone (`Resolver.eval_safe`). The induction follows the branch that was bound: at every operator the
types of the operands are those that binding has found, and so `Operator.apply_safe` applies.
-/

set_option autoImplicit false

namespace SelectEngine

mutual

/-- The columns that an expression reads. -/
def Bound.columns : Bound → List ColumnRef
  | .column ref => [ref]
  | .call _ args => Bound.columnsOfAll args
  | .operation _ operands => Bound.columnsOfAll operands
  | .literal _ | .param _ | .unbound _ _ | .other _ => []

/-- The columns that several expressions read. -/
def Bound.columnsOfAll : List Bound → List ColumnRef
  | [] => []
  | e :: es => e.columns ++ Bound.columnsOfAll es

end

variable {S S' : Type}

/-- Where `holds`, reading the column gives a value that fits its type, and `holds` still. -/
def Environment.Reads (env : Environment (Run S)) (holds : S → Prop) (ref : ColumnRef) : Prop :=
  Run.Meets holds (fun _ => False) (env.column ref.source ref.position) fun v =>
    v.Fits ref.column.type

/-- A safe outcome is met when it is relayed. -/
theorem Safe.meets {holds : S → Prop} {nulls : NullMode} {t : DataType} {x : Except Error Value}
    (h : Safe nulls t x) :
    Run.Meets holds (Permitted nulls) (relay x) fun v => v.Fits t := by
  cases x with
  | ok v => exact Run.meets_pure h
  | error e => exact Run.meets_throw h

/-- What a computation meets from a state is a safe outcome there. -/
theorem Run.Meets.safe {holds : S → Prop} {nulls : NullMode} {t : DataType} {x : Run S Value}
    (h : Run.Meets holds (Permitted nulls) x fun v => v.Fits t) {state : S} (hstate : holds state) :
    Safe nulls t (x.outcome state) := by
  have hx := h state hstate
  rw [Run.outcome]
  cases hstep : x state with
  | ok a later =>
    rw [hstep] at hx
    exact hx.1
  | error e later =>
    rw [hstep] at hx
    exact hx

/-- As many types as expressions. -/
theorem Bound.length_types {es : List Bound} {ts : List DataType} (h : Bound.types es = .ok ts) :
    ts.length = es.length := by
  induction es generalizing ts with
  | nil =>
    cases h
    rfl
  | cons e es ih =>
    rw [Bound.types] at h
    obtain ⟨t, -, h⟩ := Outcome.bind_eq_ok h
    obtain ⟨rest, hrest, h⟩ := Outcome.bind_eq_ok h
    cases h
    rw [List.length_cons, List.length_cons, ih hrest]

namespace Resolver

variable {r : Resolver (Run S)} {env : Environment (Run S')} {holds : S' → Prop}

/-- As many expressions as branches. -/
theorem MatchesAll.length_eq {depth : Nat} {bs : List Branch} {es : List Bound}
    (h : r.MatchesAll depth bs es) : es.length = bs.length := by
  induction bs generalizing es with
  | nil =>
    cases h
    rfl
  | cons b bs ih =>
    obtain ⟨e, rest, rfl, -, hrest⟩ := h
    rw [List.length_cons, List.length_cons, ih hrest]

mutual

/-- What a saturated branch of literals, columns and operators resolves to evaluates safely. -/
theorem eval_matches (hlimit : r.maxDepth ≤ env.maxDepth) (depth : Nat) :
    ∀ (b : Branch) (e : Bound) (t : DataType), r.Matches depth b e → b.All NodeKind.Filled →
      b.All NodeKind.Plain → e.type = .ok t → (∀ ref ∈ e.columns, env.Reads holds ref) →
      Run.Meets holds (Permitted env.nulls) (e.eval env depth) fun v => v.Fits t
  | .node id kind children, e, t, hmatch, hfilled, hplain, ht, hrow => by
    cases kind with
    | name =>
      obtain ⟨ref, rfl⟩ := hmatch
      cases ht
      have hread := hrow ref (List.mem_singleton.mpr rfl)
      rw [Bound.eval]
      apply hread.weaken
      intro _ h
      exact h.elim
    | operation op =>
      -- The guard of the resolver is what the evaluation of the operands needs to start.
      obtain ⟨hdepth, operands, hoperands, rfl⟩ := hmatch
      rw [Bound.type] at ht
      obtain ⟨types, htypes, hresult⟩ := Outcome.bind_eq_ok ht
      have hcount : operands.length = op.arity := hoperands.length_eq.trans (hfilled.1 op rfl)
      have hvalues := evalAll_matches hlimit depth (Nat.lt_of_lt_of_le hdepth hlimit) children
        operands types hoperands hfilled.2 hplain.2 htypes hrow
      rw [Bound.eval, if_pos hcount]
      apply Run.meets_bind hvalues
      intro values hfits
      have hvaluesCount : values.length = op.arity :=
        hfits.length_eq.trans ((Bound.length_types htypes).trans hcount)
      exact (Operator.apply_safe hvaluesCount hfits hresult).meets
    | text | number | null =>
      cases hmatch
      rw [Bound.type] at ht
      rw [Bound.eval]
      apply Run.meets_relay
      · -- A literal that reads as no value has no type.
        intro e he
        rw [he] at ht
        cases ht
      · intro v hv
        rw [hv] at ht
        cases ht
        exact v.fits_type
    | param => exact absurd rfl hplain.1.1
    | call => exact absurd rfl hplain.1.2
    | _ =>
      cases hmatch
      cases ht

theorem evalAll_matches (hlimit : r.maxDepth ≤ env.maxDepth) (depth : Nat)
    (hdepth : depth < env.maxDepth) :
    ∀ (bs : List Branch) (es : List Bound) (ts : List DataType), r.MatchesAll (depth + 1) bs es →
      Branch.AllIn NodeKind.Filled bs → Branch.AllIn NodeKind.Plain bs → Bound.types es = .ok ts →
      (∀ ref ∈ Bound.columnsOfAll es, env.Reads holds ref) →
      Run.Meets holds (Permitted env.nulls) (Bound.evalAll env depth es) fun vs =>
        List.Forall₂ Value.Fits vs ts
  | [], es, ts, hmatch, _, _, hts, _ => by
    cases hmatch
    cases hts
    rw [Bound.evalAll]
    exact Run.meets_pure .nil
  | b :: bs, es, ts, hmatch, hfilled, hplain, hts, hrow => by
    obtain ⟨e, rest, rfl, he, hrest⟩ := hmatch
    rw [Bound.types] at hts
    obtain ⟨t, ht, hts⟩ := Outcome.bind_eq_ok hts
    obtain ⟨restTypes, hrestTypes, hts⟩ := Outcome.bind_eq_ok hts
    cases hts
    rw [Bound.columnsOfAll] at hrow
    have hfirst := eval_matches hlimit (depth + 1) b e t he hfilled.1 hplain.1 ht fun ref href =>
      hrow ref (List.mem_append_left _ href)
    have hothers := evalAll_matches hlimit depth hdepth bs rest restTypes hrest hfilled.2 hplain.2
      hrestTypes fun ref href => hrow ref (List.mem_append_right _ href)
    -- The guard against deep nesting lets the operand pass.
    rw [Bound.evalAll, if_neg (Nat.not_le_of_lt hdepth)]
    apply Run.meets_bind hfirst
    intro v hv
    apply Run.meets_bind hothers
    intro vs hvs
    exact Run.meets_pure (.cons hv hvs)

end

/-- An expression without parameters and calls that binding gives the type `t` is null, of type `t`,
or fails in a permitted way, on every row whose columns are null or of their types. The expression
belongs to a parsed statement, or to any tree in which operators have the operands that they take;
it is evaluated under a depth limit no less than that of binding. -/
theorem eval_safe {b : Branch} {e : Bound} {t : DataType} {found later : Resolution}
    {state last : S} {row : S'} (hlayout : b.Saturated ∨ b.Parsed r.tree) (hplain : b.Plain)
    (hbound : (r.typed b).run found state = .ok ((e, t), later) last)
    (hlimit : r.maxDepth ≤ env.maxDepth) (hcolumns : ∀ ref ∈ e.columns, env.Reads holds ref)
    (hrow : holds row) :
    Safe env.nulls t ((e.eval env 0).outcome row) := by
  have hsaturated : b.Saturated := by
    rcases hlayout with h | h
    · exact h
    · exact h.saturated
  obtain ⟨hmatch, ht⟩ := typed_matches b found state ((e, t), later) last hbound
  exact (eval_matches hlimit 0 b e t hmatch hsaturated hplain ht hcolumns).safe hrow

end Resolver

/-- `SELECT x || 'a' FROM t`. -/
def joinedStatement : Statement TokenId where
  select := 0
  attributes := [.value (.binary .concat (.name [1]) (.text 3)) none]
  from_ := 4
  sources := [⟨[5], none⟩]
  restriction := none

/-- Binds it where the table has one column of text. -/
def joinedResolver : Resolver (Run Unit) where
  tree := Tree.ofStatement "<sql>"
    #[⟨.kwSelect, "SELECT", .empty⟩, ⟨.ident, "x", .empty⟩, ⟨.concat, "||", .empty⟩,
      ⟨.string, "a", .empty⟩, ⟨.kwFrom, "FROM", .empty⟩, ⟨.ident, "t", .empty⟩] joinedStatement
  scope :=
    { sources := [⟨"t", ⟨none, none, "t"⟩⟩]
      columnCount := fun _ => pure 1
      columnId? := fun _ name => pure (if name = "x" then some 0 else none)
      describe := fun _ _ => pure (Column.ofType "x" .text) }
  registry := .empty
  params := []
  maxDepth := 256

/-- The row on which the column is null. -/
def joinedRow (nulls : NullMode) : Environment (Run Unit) where
  column _ _ := pure .null
  params := .empty
  nulls := nulls
  maxDepth := 256

theorem eval_safe_joined :
    ∃ e later, (joinedResolver.typed (Expr.branch 1 (.binary .concat (.name [1]) (.text 3)))).run
        .empty () = .ok ((e, .text), later) () ∧
      Safe .strict .text ((e.eval (joinedRow .strict) 0).outcome ()) := by
  have hbound : (((joinedResolver.typed
      (Expr.branch 1 (.binary .concat (.name [1]) (.text 3)))).run .empty).outcome
        ()).toOption.map (fun bound => bound.1.2) = some .text := by
    decide +kernel
  rw [Run.outcome] at hbound
  cases h : (joinedResolver.typed
      (Expr.branch 1 (.binary .concat (.name [1]) (.text 3)))).run .empty () with
  | error error last =>
    rw [h] at hbound
    cases hbound
  | ok bound last =>
    rw [h] at hbound
    obtain ⟨⟨e, t⟩, later⟩ := bound
    obtain rfl : t = .text := Option.some.inj hbound
    have hsaturated : (Expr.branch 1 (.binary .concat (.name [1]) (.text 3))).Saturated :=
      Expr.saturated_branch _ 1 ⟨rfl, List.cons_ne_nil _ _, trivial⟩
    have hplain : (Expr.branch 1 (.binary .concat (.name [1]) (.text 3))).Plain := by
      simp [Expr.branch, partBranches, branchesFrom, Branch.Plain, Branch.All, Branch.AllIn,
        NodeKind.Plain, NodeKind.type]
    have hcolumns : ∀ ref ∈ e.columns, (joinedRow .strict).Reads (fun _ => True) ref :=
      fun _ _ _ _ => ⟨Value.fits_null _, trivial⟩
    exact ⟨e, later, rfl,
      Resolver.eval_safe (Or.inl hsaturated) hplain h (le_refl 256) hcolumns trivial⟩

end SelectEngine
