import SelectEngine.Cursor
import SelectEngine.Proofs.Plan.Agreement
import SelectEngine.Proofs.Run

/-!
# What a plan is given

`Resolver.Gives x F` says that the computation adds fields behind those found so far, and that `F`
holds of the fields that it adds. The rules follow the steps by which an attribute is bound. A plan
has the fields that the SELECT list gives it and the condition of the WHERE clause
(`Plan.returns_ofScope_of_gives`), whatever the providers of its sources are
(`Session.bind_eq_ok`).
-/

set_option autoImplicit false

namespace SelectEngine

namespace Resolver

variable {S α : Type} {x y : StateT Selection (Run S) Unit} {F G : List Field → Prop}

/-- The computation adds fields with the property behind those found so far. -/
def Gives (x : StateT Selection (Run S) Unit) (F : List Field → Prop) : Prop :=
  ∀ s : Selection, Run.Returns (x.run s) fun result =>
    ∃ fields, result.2.fields = s.fields ++ fields ∧ F fields

theorem Gives.mono (h : Gives x F) (himp : ∀ fields, F fields → G fields) : Gives x G := by
  intro s state result later hresult
  obtain ⟨fields, hfields, hF⟩ := h s state result later hresult
  exact ⟨fields, hfields, himp fields hF⟩

/-- What comes before a computation and leaves the fields alone may fail, and adds nothing. -/
theorem gives_lift {z : Run S α} {Q : α → Prop} {f : α → StateT Selection (Run S) Unit}
    (hz : Run.Returns z Q) (hf : ∀ a, Q a → Gives (f a) F) : Gives (liftM z >>= f) F := by
  intro s
  have hrun : (liftM z >>= f).run s = z >>= fun a => (f a).run s := by simp
  rw [hrun]
  exact Run.returns_bind hz fun a ha => hf a ha s

theorem gives_relay {z : Except Error α} {f : α → StateT Selection (Run S) Unit}
    (hf : ∀ a, z = .ok a → Gives (f a) F) : Gives (relay z >>= f) F := by
  cases z with
  | ok a => exact hf a rfl
  | error e =>
    intro s state result later h
    cases h

theorem gives_modify {g : Selection → Selection}
    (h : ∀ s : Selection, ∃ fields, (g s).fields = s.fields ++ fields ∧ F fields) :
    Gives (modify g : StateT Selection (Run S) Unit) F :=
  fun s => Run.returns_pure (h s)

/-- What is done to the name that is due leaves the fields alone. -/
theorem gives_renamed {name : String} (hx : Gives x F) :
    Gives (do
      modify fun s => { s with pending := some name }
      x
      modify fun s => { s with pending := none }) F := by
  intro s
  exact Run.returns_bind (hx { s with pending := some name }) fun result h => Run.returns_pure h

/-- Only what is started from some state is to be looked at. -/
theorem gives_of_state (h : S → Gives x F) : Gives x F :=
  fun s state => h state s state

theorem gives_append (hx : Gives x F) (hy : Gives y G) :
    Gives (x >>= fun _ => y) fun fields =>
      ∃ front back, fields = front ++ back ∧ F front ∧ G back := by
  intro s
  refine Run.returns_bind (hx s) fun result hresult => ?_
  obtain ⟨front, hfront, hF⟩ := hresult
  intro state last later hlast
  obtain ⟨back, hback, hG⟩ := hy result.2 state last later hlast
  exact ⟨front ++ back, by rw [hback, hfront, List.append_assoc], front, back, rfl, hF, hG⟩

/-- The field that is added under the name that is its turn. -/
theorem gives_named (settings : Settings) {field : String → Field} (h : ∀ name, F [field name]) :
    Gives (modify (Selection.addNamed settings field) : StateT Selection (Run S) Unit) F := by
  refine gives_modify fun s => ?_
  obtain ⟨fields, _ | name, generated, resolution⟩ := s
  · exact ⟨_, rfl, h _⟩
  · exact ⟨_, rfl, h _⟩

/-- The column of a source that is added, under its own name or another. -/
theorem gives_column (ref : ColumnRef) (h : ∀ f : Field, f.kind = .data ref → F [f]) :
    Gives (modify (Selection.addColumn ref) : StateT Selection (Run S) Unit) F := by
  refine gives_modify fun s => ?_
  obtain ⟨fields, _ | name, generated, resolution⟩ := s
  · exact ⟨_, rfl, h _ rfl⟩
  · exact ⟨_, rfl, h _ rfl⟩

theorem gives_columns (refs : List ColumnRef) (h : F (refs.map Field.data)) :
    Gives (modify fun s => s.add (refs.map Field.data) : StateT Selection (Run S) Unit) F :=
  gives_modify fun _ => ⟨_, rfl, h⟩

/-- An expression is typed over the names and calls found so far, and its field is added. -/
theorem selectComputed_run (r : Resolver (Run S)) (settings : Settings) (b : Branch)
    (s : Selection) : (r.selectComputed settings b).run s =
      ((r.typed b).run s.resolution >>= fun found =>
        (modify (Selection.addNamed settings fun name =>
          Field.computed name found.1.2 b.id found.1.1) :
            StateT Selection (Run S) Unit).run { s with resolution := found.2 }) := by
  simp [selectComputed]

/-- The field of an expression, by what is known of the expression and its type. -/
theorem gives_computed (r : Resolver (Run S)) (settings : Settings) {b : Branch}
    {Q : Bound × DataType → Prop} (hb : Run.ReturnsWith (r.typed b) Q)
    (h : ∀ found, Q found → ∀ name, F [Field.computed name found.2 b.id found.1]) :
    Gives (r.selectComputed settings b) F := by
  intro s
  rw [selectComputed_run]
  refine Run.returns_bind (hb s.resolution) fun found hfound => ?_
  exact gives_named settings (h found.1 hfound) { s with resolution := found.2 }

/-! ## Attributes -/

section

variable {r : Resolver (Run S)} {settings : Settings} {Q : Bound → Prop}

/-- A whole expression is what its branch is bound to. -/
theorem typed_returns {b : Branch} (h : Run.ReturnsWith (r.resolve 0 b) Q) :
    Run.ReturnsWith (r.typed b) fun found => Q found.1 := by
  refine Run.returnsWith_bind h fun bound hbound => ?_
  exact Run.returnsWith_bind (Run.returnsWith_any _) fun _ _ => Run.returnsWith_pure hbound

/-- An expression of the SELECT list gives one field, of what the expression may be bound to. A
constant, a parameter and a column are not resolved there, but their fields have the expressions to
which they would be. -/
theorem gives_expression {e : Expr TokenId} {n : Nat}
    (h : Run.ReturnsWith (r.resolve 0 (e.branch n)) Q) :
    Gives (r.select settings (e.branch n)) fun fields => ∃ f, fields = [f] ∧ Q f.expression ∧
      ∀ id bound, f.kind = .computed id bound → id = (e.branch n).id := by
  have hcomputed : Gives (r.selectComputed settings (e.branch n)) fun fields =>
      ∃ f, fields = [f] ∧ Q f.expression ∧
        ∀ id bound, f.kind = .computed id bound → id = (e.branch n).id := by
    refine gives_computed r settings (typed_returns h) fun found hfound name => ?_
    refine ⟨_, rfl, hfound, fun id bound hkind => ?_⟩
    cases hkind
    rfl
  cases e with
  | text leaf | number leaf | null leaf =>
    rw [Expr.branch, resolve, resolveAll] at h
    rw [Expr.branch, select]
    refine gives_relay fun v hv => gives_of_state fun state => ?_
    rw [hv] at h
    refine gives_named settings fun name => ⟨_, rfl, h .empty state _ state rfl, ?_⟩
    intro id bound hkind
    cases hkind
  | param leaf =>
    rw [Expr.branch, resolve, resolveAll] at h
    rw [Expr.branch, select]
    refine gives_lift (numbered_holds (Judgement.partial_returns S) n) fun ordinal hordinal =>
      gives_of_state fun state => ?_
    subst hordinal
    refine gives_named settings fun name => ⟨_, rfl, h .empty state _ state rfl, ?_⟩
    intro id bound hkind
    cases hkind
  | name parts =>
    rw [Expr.branch, resolve] at h
    rw [Expr.branch, select]
    -- The column is asked for here as the resolver would ask for it.
    have hcolumn : Run.Returns (r.scope.column (r.tree.nameParts (n + parts.length)))
        fun ref => Q (.column ref) := by
      intro state ref later href
      have hfound : (liftM (r.scope.column (r.tree.nameParts (n + parts.length))) :
          StateT Resolution (Run S) ColumnRef).run .empty state = .ok (ref, .empty) later :=
        Run.bind_of_ok href
      exact h .empty state (.column ref, _) later (Run.bind_of_ok hfound)
    refine gives_lift hcolumn fun ref href => gives_column ref fun f hkind => ?_
    refine ⟨f, rfl, by rwa [Field.expression, hkind], fun id bound hcomputed => ?_⟩
    cases hkind.symm.trans hcomputed
  | call function args | unary op operand | binary op left right => exact hcomputed

/-- The induction is on the attributes, which add their fields one behind the other. -/
theorem gives_attributes {ι : Type} {g : ι → Attribute TokenId} {P : ι → List Field → Prop}
    (hselect : ∀ (a : ι) (n : Nat), r.tree.Has ((g a).branch n) →
      Gives (r.select settings ((g a).branch n)) (P a)) (as : List ι) (n : Nat)
    (h : ∀ b ∈ branchesFrom Attribute.size Attribute.branch n (as.map g), r.tree.Has b) :
    Gives (r.selectAll settings (branchesFrom Attribute.size Attribute.branch n (as.map g)))
      fun fields => ∃ groups, fields = groups.flatten ∧ List.Forall₂ P as groups := by
  induction as generalizing n with
  | nil =>
    intro s
    exact Run.returns_pure ⟨[], (List.append_nil _).symm, [], rfl, .nil⟩
  | cons a as ih =>
    rw [List.map_cons, branchesFrom] at h ⊢
    obtain ⟨hfirst, hrest⟩ := List.forall_mem_cons.mp h
    rw [selectAll]
    refine (gives_append (hselect a n hfirst) (ih _ hrest)).mono ?_
    rintro _ ⟨front, _, rfl, hfront, groups, rfl, hgroups⟩
    exact ⟨front :: groups, rfl, .cons hfront hgroups⟩

end

end Resolver

/-! ## Plans -/

/-- The condition of a plan is what its branch is bound to, under the number of its node. -/
theorem Plan.predicateOf_returns {S : Type} {r : Resolver (Run S)} {b : Branch} {Q : Bound → Prop}
    (h : Run.ReturnsWith (r.resolve 0 b) Q) :
    Run.ReturnsWith (predicateOf r b) fun found => found.1 = b.id ∧ Q found.2 := by
  refine Run.returnsWith_bind (Resolver.typed_returns h) fun typed htyped => ?_
  dsimp only
  split
  · exact Run.returnsWith_pure ⟨rfl, htyped⟩
  · exact fun found => Run.returns_throw _ _

/-- The fields of a plan are given by the SELECT list of the statement and its condition, if there
is one, by the WHERE clause. -/
theorem Plan.returns_ofScope_of_gives {S : Type} {tree : Tree} {s : Statement TokenId}
    {scope : Scope (Run S)} {registry : Registry} {settings : Settings} {r : Resolver (Run S)}
    {F : List Field → Prop} {Q : Restriction TokenId → NodeId × Bound → Prop}
    (h : tree.Has (s.branch 0))
    (hr : r = ⟨tree, scope, registry, paramNodes tree (s.branch 0), settings.maxDepth⟩)
    (hselect : Resolver.Gives (r.select settings (s.listBranch (0 + 1))) F)
    (hcondition : ∀ restriction, s.restriction = some restriction →
      Run.ReturnsWith (predicateOf r (restriction.condition.branch (whereStart s + 1)))
        (Q restriction)) :
    Run.Returns (ofScope tree (s.branch 0) scope registry settings) fun plan =>
      plan.tree = tree ∧ plan.sources = scope.sources ∧
        plan.params = paramNodes tree (s.branch 0) ∧ F plan.fields ∧
        (s.restriction = none → plan.predicate = none) ∧
        ∀ restriction, s.restriction = some restriction →
          ∃ found, plan.predicate = some found ∧ Q restriction found := by
  have hclause : clause (s.branch 0) .attributes "SELECT without attribute list" =
      .ok (s.listBranch (0 + 1)) := rfl
  subst hr
  rw [ofScope_eq (Judgement.partial_returns S) h]
  unfold resolved
  dsimp only
  rw [hclause, relay, pure_bind, condition_branch]
  refine Run.returns_bind (hselect .empty) fun selected hselected => ?_
  obtain ⟨fields, hfields, hF⟩ := hselected
  cases hfields
  cases hrestriction : s.restriction with
  | none =>
    refine Run.returns_bind (Run.returns_pure rfl) fun found (hfound : _ = found) => ?_
    cases hfound
    refine Run.returns_pure ⟨rfl, rfl, rfl, hF, fun _ => rfl, fun other hother => ?_⟩
    cases hother
  | some restriction =>
    refine Run.returns_bind (hcondition restriction hrestriction _) fun found hfound => ?_
    refine Run.returns_bind (Run.returns_pure rfl) fun bound (hbound : _ = bound) => ?_
    cases hbound
    refine Run.returns_pure ⟨rfl, rfl, rfl, hF, fun hnone => ?_, fun other hother => ?_⟩
    · cases hnone
    · cases hother
      exact ⟨found.1, rfl, hfound⟩

/-- What a tree is bound to is the plan of its statement over the sources that it lists. -/
theorem Session.bind_eq_ok {σ γ : Type} {B : Backend σ γ} {registry : Registry}
    {settings : Settings} {tree : Tree} {s : Statement (Fin tree.tokens.size)} {plan : Plan}
    {session later : Session σ γ} (h : tree.Holds s)
    (hbind : bind B registry settings tree session = .ok plan later) :
    ∃ (scope : Scope (Run (Session σ γ))) (opened : Session σ γ),
      (s.map Fin.val).sources.foldlM (FromItem.register tree.word) [] = .ok scope.sources ∧
      Plan.ofScope tree ((s.map Fin.val).branch 0) scope registry settings opened =
        .ok plan later := by
  rw [bind, Plan.statement_of_holds h] at hbind
  obtain ⟨select, _, hselect, hbind⟩ := Run.bind_eq_ok hbind
  cases hselect
  rw [Plan.sourceNames_of_holds h] at hbind
  obtain ⟨names, before, hnames, hbind⟩ := Run.bind_eq_ok hbind
  obtain ⟨_, opened, -, hplan⟩ := Run.bind_eq_ok hbind
  refine ⟨scope B names, opened, ?_, hplan⟩
  exact Run.returns_relay (fun _ hfound => hfound) _ _ _ hnames

end SelectEngine
