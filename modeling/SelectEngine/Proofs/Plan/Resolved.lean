import SelectEngine.Plan.Resolve
import SelectEngine.Proofs.Judgement

/-!
# What expressions resolve to

The bound expression of a branch has the form of the branch: resolving only fills in the columns,
the functions and the values of literals, and it has refused the branch if an operator or a call has
too many others around it (`Resolver.resolve_matches`).
-/

set_option autoImplicit false

namespace SelectEngine.Resolver

mutual

/-- A branch with `depth` operators and calls around it may resolve to the expression. -/
def Matches {m : Type → Type} (r : Resolver m) (depth : Nat) : Branch → Bound → Prop
  | .node id kind children, e =>
    match kind with
    | .name => ∃ ref, e = .column ref
    | .call => depth < r.maxDepth ∧ ∃ function parts,
        MatchesAll r (depth + 1) children parts ∧ e = .call function parts.tail
    | .operation op => depth < r.maxDepth ∧ ∃ operands,
        MatchesAll r (depth + 1) children operands ∧ e = .operation op operands
    | .param _ => e = .param (r.ordinal id)
    | .text _ | .number _ | .null _ =>
      e = .literal ((r.tree.constant? id).map fun v => v.getD .null)
    | _ => e = .other kind

/-- Several branches may resolve to the expressions, one by one. -/
def MatchesAll {m : Type → Type} (r : Resolver m) (depth : Nat) :
    List Branch → List Bound → Prop
  | [], es => es = []
  | b :: bs, es => ∃ e rest, es = e :: rest ∧ Matches r depth b e ∧ MatchesAll r depth bs rest

end

/-! ## Several branches -/

section

variable {m : Type → Type} [Monad m] [MonadExceptOf Error m] {r : Resolver m}
variable (J : Judgement (StateT Resolution m))

theorem resolveAll_nil_holds (depth : Nat) : J.holds (r.resolveAll depth []) fun es => es = [] := by
  rw [resolveAll]
  exact J.returning rfl

/-- Whatever is said of what branches resolve to is said of them one by one. -/
theorem resolveAll_cons_holds {depth : Nat} {b : Branch} {bs : List Branch} {P : Bound → Prop}
    {Q : List Bound → Prop} (hfirst : J.holds (r.resolve depth b) P)
    (hrest : J.holds (r.resolveAll depth bs) Q) :
    J.holds (r.resolveAll depth (b :: bs)) fun es => ∃ e rest, es = e :: rest ∧ P e ∧ Q rest := by
  rw [resolveAll]
  apply J.sequencing hfirst
  intro e he
  apply J.sequencing hrest
  intro rest hrest
  exact J.returning ⟨e, rest, rfl, he, hrest⟩

end

variable {S : Type} {r : Resolver (Run S)}

theorem resolveAll_nil_returns (depth : Nat) :
    Run.ReturnsWith (r.resolveAll depth []) fun bs => bs = [] :=
  resolveAll_nil_holds (r := r) ((Judgement.returns S).withState Resolution) depth

theorem resolveAll_cons_returns {depth : Nat} {b : Branch} {bs : List Branch} {P : Bound → Prop}
    {Q : List Bound → Prop} (hfirst : Run.ReturnsWith (r.resolve depth b) P)
    (hrest : Run.ReturnsWith (r.resolveAll depth bs) Q) :
    Run.ReturnsWith (r.resolveAll depth (b :: bs)) fun es =>
      ∃ first rest, es = first :: rest ∧ P first ∧ Q rest :=
  resolveAll_cons_holds (r := r) ((Judgement.returns S).withState Resolution) hfirst hrest

/-! ## Branches -/

theorem returns_guardDepth (depth : Nat) :
    Run.Returns (r.guardDepth depth) fun _ => depth < r.maxDepth := by
  unfold guardDepth
  split
  · exact Run.returns_throw _ _
  · next h => exact Run.returns_pure (Nat.lt_of_not_le h)

mutual

/-- The induction is on the branch, and every case follows the steps that the node takes. -/
theorem resolve_matches (depth : Nat) :
    ∀ b : Branch, Run.ReturnsWith (r.resolve depth b) fun e => r.Matches depth b e
  | .node id kind children => by
    -- What stands below a node that is no operator and no call leaves no trace in its expression.
    have walked (e : Bound) (he : r.Matches depth (.node id kind children) e) : Run.ReturnsWith
        (do let _ ← r.resolveAll depth children; pure e)
        fun e => r.Matches depth (.node id kind children) e := by
      apply Run.returnsWith_bind (Run.returnsWith_any _)
      intro _ _
      exact Run.returnsWith_pure he
    cases kind with
    | name =>
      simp only [resolve]
      apply Run.returnsWith_bind (Run.returnsWith_any _)
      intro ref _
      apply Run.returnsWith_bind (Run.returnsWith_any _)
      intro _ _
      exact Run.returnsWith_pure ⟨ref, rfl⟩
    | call =>
      simp only [resolve]
      apply Run.returnsWith_bind (Run.returnsWith_any _)
      intro function _
      apply Run.returnsWith_bind (Run.returnsWith_any _)
      intro _ _
      apply Run.returnsWith_bind (Run.returnsWith_lift (returns_guardDepth depth))
      intro _ hdepth
      apply Run.returnsWith_bind (resolveAll_matches (depth + 1) children)
      intro parts hparts
      exact Run.returnsWith_pure ⟨hdepth, function, parts, hparts, rfl⟩
    | operation op =>
      simp only [resolve]
      apply Run.returnsWith_bind (Run.returnsWith_lift (returns_guardDepth depth))
      intro _ hdepth
      apply Run.returnsWith_bind (resolveAll_matches (depth + 1) children)
      intro operands hoperands
      exact Run.returnsWith_pure ⟨hdepth, operands, hoperands, rfl⟩
    | param | text | number | null | root | select | attributes | star | from_ | where_ | renamed
    | id | token =>
      simp only [resolve]
      exact walked _ rfl

theorem resolveAll_matches (depth : Nat) :
    ∀ bs : List Branch, Run.ReturnsWith (r.resolveAll depth bs) fun es => r.MatchesAll depth bs es
  | [] => Run.returnsWith_pure rfl
  | b :: bs => resolveAll_cons_returns (resolve_matches depth b) (resolveAll_matches depth bs)

end

/-- A typed expression is what its branch resolves to, with its type. -/
theorem typed_matches (b : Branch) :
    Run.ReturnsWith (r.typed b) fun typed =>
      r.Matches 0 b typed.1 ∧ typed.1.type = .ok typed.2 := by
  apply Run.returnsWith_bind (resolve_matches 0 b)
  intro e he
  apply Run.returnsWith_bind (Run.returnsWith_relay fun _ ht => ht)
  intro t ht
  exact Run.returnsWith_pure ⟨he, ht⟩

end SelectEngine.Resolver
