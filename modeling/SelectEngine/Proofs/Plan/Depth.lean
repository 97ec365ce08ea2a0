import SelectEngine.Proofs.Memory.Fetch
import SelectEngine.Proofs.Plan.Carried

/-!
# The two guards of depth

Binding counts the operators and calls around an operator or a call, and evaluation those around an
operand. They agree (`Cursor.depth_guards_agree`): the expressions of a statement that is bound are
nested within the limit, no evaluation of them is refused as too deep, and a statement that is
refused as too deep has an expression nested beyond the limit. The only other source of such a
refusal is a provider or a function that answers with one of its own (`Backend.Fails`,
`Registry.Fails`); tables in memory and the builtin functions do not
(`Memory.evaluate_ne_tooDeep`).
-/

set_option autoImplicit false

namespace SelectEngine

variable {S σ γ α : Type}

/-! ## Failures from outside -/

/-- Creating a provider, opening it, or asking it for a column or its descriptor fails with the
error. -/
inductive Backend.Fails (B : Backend σ γ) (e : Error) : Prop
  | created {name : TableName} {world : γ} (h : (B.create name world).1 = .error e)
  | opened {mode : OpenMode} {name : TableName} {provider : σ} {world : γ}
    (h : (B.answer (.openTable mode name) provider world).1 = Except.error e)
  | read {position : Nat} {provider : σ} {world : γ}
    (h : (B.answer (.column position) provider world).1 = Except.error e)
  | described {position : Nat} {provider : σ} {world : γ}
    (h : (B.answer (.describe position) provider world).1 = Except.error e)

/-- A function of the registry fails with the error on some arguments. -/
def Registry.Fails (registry : Registry) (e : Error) : Prop :=
  ∃ f ∈ registry.functions, ∃ args, f.invoke args = .error e

namespace Session

variable {B : Backend σ γ} {E : Error → Prop}

/-- What runs on one source of a session fails as it does there, or there is no such source. -/
theorem ends_at (hshallow : ∀ e : Error, e.Shallow → E e) {i : Nat} {x : Run (Source σ × γ) α}
    (hx : Run.Ends E x fun _ => True) : Run.Ends E (at_ i x) fun _ => True := by
  intro session _
  cases hsource : session.sources[i]? with
  | none =>
    rw [at_apply_none hsource]
    exact hshallow _ trivial
  | some source =>
    cases hrun : x (source, session.world) with
    | ok a later =>
      rw [at_apply_ok hsource hrun]
      exact ⟨trivial, trivial⟩
    | error e later =>
      rw [at_apply_error hsource hrun]
      exact hx.of_error hrun

/-- An answer is one that the provider of the source gives. -/
theorem ends_ask (call : Call) : Run.Ends E (Source.ask B call) fun answer =>
    ∃ provider world, (B.answer call provider world).1 = answer :=
  fun (source, world) _ => ⟨⟨source.provider, world, rfl⟩, trivial⟩

theorem ends_column (hB : ∀ e, B.Fails e → E e) (position : Nat) :
    Run.Ends E (Source.column B position) fun _ => True := by
  apply Run.meets_bind (ends_ask (.column position))
  rintro outcome ⟨provider, world, hanswer⟩
  exact Run.meets_relay (fun e he => hB e (.read (hanswer.trans he))) fun _ _ => trivial

theorem ends_describe (hB : ∀ e, B.Fails e → E e) (position : Nat) :
    Run.Ends E (Source.describe B position) fun _ => True := by
  apply Run.meets_bind (ends_ask (.describe position))
  rintro outcome ⟨provider, world, hanswer⟩
  exact Run.meets_relay (fun e he => hB e (.described (hanswer.trans he))) fun _ _ => trivial

theorem ends_openTable (hB : ∀ e, B.Fails e → E e) :
    Run.Ends E (Source.openTable B) fun _ => True := by
  apply Run.meets_bind Run.ends_get
  intro (source, world) _
  apply Run.meets_bind (ends_ask (.openTable .read source.name))
  rintro outcome ⟨provider, world, hanswer⟩
  apply Run.meets_bind (P := fun _ => True)
  · exact Run.meets_relay (fun e he => hB e (.opened (hanswer.trans he))) fun _ _ => trivial
  · exact fun _ _ => Run.ends_modify _

theorem ends_openSource (hB : ∀ e, B.Fails e → E e) (name : SourceName) :
    Run.Ends E (openSource B name) fun _ => True := by
  intro session _
  unfold openSource
  cases hcreate : B.create name.table session.world with
  | mk created world =>
    cases created with
    | error e => exact hB e (.created (congrArg Prod.fst hcreate))
    | ok provider =>
      dsimp only
      cases hopen : Source.openTable B (Source.closed name.aliasName name.table provider, world) with
      | ok _ later => exact ⟨trivial, trivial⟩
      | error e later => exact (ends_openTable hB).of_error hopen

theorem ends_openAll (hB : ∀ e, B.Fails e → E e) :
    ∀ names : List SourceName, Run.Ends E (openAll B names) fun _ => True
  | [] => Run.meets_pure trivial
  | name :: rest => Run.meets_bind (ends_openSource hB name) fun _ _ => ends_openAll hB rest

theorem admits_scope (hshallow : ∀ e : Error, e.Shallow → E e) (hB : ∀ e, B.Fails e → E e)
    (names : List SourceName) : (scope B names).Admits E where
  shallow := hshallow
  columnCount _ := ends_at hshallow ((ends_ask .columnCount).mono fun _ _ => trivial)
  columnId _ name := ends_at hshallow ((ends_ask (.columnId name)).mono fun _ _ => trivial)
  describe _ position := ends_at hshallow (ends_describe hB position)

end Session

/-! ## Binding -/

namespace Resolver

variable {r : Resolver (Run S)} {E : Error → Prop}

theorem selectComputed_ends (h : r.scope.Admits E) (settings : Settings) {e : Expr TokenId} {n : Nat}
    (hhas : r.tree.Has (e.branch n)) (hdeep : r.maxDepth < e.nesting → E (.tooDeep r.maxDepth)) :
    Run.EndsWith E (r.selectComputed settings (e.branch n)) fun _ => True := by
  intro s
  rw [selectComputed_run]
  apply Run.meets_bind ((typed_ends h hhas hdeep) s.resolution)
  exact fun _ _ => Run.meets_pure trivial

/-- A parameter has a number or fails, whatever the depth. -/
theorem numbered_ends (h : r.scope.Admits E) (id : NodeId) :
    Run.Ends E (r.numbered id) fun _ => True := by
  unfold numbered
  split
  · exact Run.meets_pure trivial
  · exact Run.meets_throw (h.shallow _ trivial)

/-- An attribute that is a literal is read, and one that is a name is looked for. -/
theorem select_expr_ends (h : r.scope.Admits E) (settings : Settings) (e : Expr TokenId) (n : Nat)
    (hhas : r.tree.Has (e.branch n)) (hdeep : r.maxDepth < e.nesting → E (.tooDeep r.maxDepth)) :
    Run.EndsWith E (r.select settings (e.branch n)) fun _ => True := by
  have hcomputed := selectComputed_ends h settings hhas hdeep
  have hadded : ∀ g : Selection → Selection, Run.EndsWith E
      (modify g : StateT Selection (Run S) Unit) fun _ => True := Run.endsWith_modify
  cases e with
  | text leaf =>
    rw [Expr.branch, select, Tree.Has.constant?_text hhas]
    exact hadded _
  | number leaf =>
    rw [Expr.branch, select, Tree.Has.constant?_number hhas]
    have hread := Value.onValues_ofNumeral (r.tree.word leaf)
    cases hvalue : Value.ofNumeral (r.tree.word leaf) with
    | ok v => exact hadded _
    | error e => exact Run.endsWith_throw (h.shallow e (hread.of_error hvalue).shallow)
  | null leaf =>
    rw [Expr.branch, select, Tree.Has.constant?_null hhas]
    exact hadded _
  | param leaf =>
    rw [Expr.branch, select]
    exact Run.endsWith_bind (Run.endsWith_lift (numbered_ends h n)) fun _ _ => hadded _
  | name parts =>
    rw [Expr.branch, select]
    exact Run.endsWith_bind (Run.endsWith_lift (h.column _)) fun _ _ => hadded _
  | call function args | unary op operand | binary op left right => exact hcomputed

theorem selectStar_ends (h : r.scope.Admits E) (b : Branch) :
    Run.EndsWith E (r.selectStar b) fun _ => True := by
  unfold selectStar
  split
  · apply Run.endsWith_bind (h.relayWith (Scope.Admits.shallow_find _ _))
    intro source _
    exact Run.endsWith_bind (Run.endsWith_lift (h.columnsOf source)) fun _ _ =>
      Run.endsWith_modify _
  · exact Run.endsWith_bind (Run.endsWith_lift (h.columnsOfAll _)) fun _ _ => Run.endsWith_modify _

theorem shallow_renamedParts (tree : Tree) (children : List Branch) :
    FailsIn Error.Shallow (Branch.renamedParts tree children) := by
  unfold Branch.renamedParts
  split
  · split
    · trivial
    · split <;> trivial
  · trivial

theorem select_ends (h : r.scope.Admits E) (settings : Settings) (a : Attribute TokenId) (n : Nat)
    (hhas : r.tree.Has (a.branch n))
    (hdeep : ∀ e naming, a = .value e naming → r.maxDepth < e.nesting → E (.tooDeep r.maxDepth)) :
    Run.EndsWith E (r.select settings (a.branch n)) fun _ => True := by
  rcases a with leaf | ⟨parts, leaf⟩ | ⟨e, _ | naming⟩
  · rw [Attribute.branch, select]
    exact selectStar_ends h _
  · rw [Attribute.branch, select]
    exact selectStar_ends h _
  · exact select_expr_ends h settings e n hhas (hdeep e none rfl)
  · rw [Attribute.branch] at hhas ⊢
    rw [select]
    have hvalue := select_expr_ends h settings e n (hhas.below List.mem_cons_self)
      (hdeep e (some naming) rfl)
    apply Run.endsWith_bind (h.relayWith (shallow_renamedParts _ _))
    intro named _
    apply Run.endsWith_bind (Run.endsWith_modify _)
    intro _ _
    exact Run.endsWith_bind hvalue fun _ _ => Run.endsWith_modify _

theorem selectAll_ends (h : r.scope.Admits E) (settings : Settings) (as : List (Attribute TokenId))
    (n : Nat) (hhas : ∀ b ∈ branchesFrom Attribute.size Attribute.branch n as, r.tree.Has b)
    (hdeep : ∀ e naming, .value e naming ∈ as → r.maxDepth < e.nesting → E (.tooDeep r.maxDepth)) :
    Run.EndsWith E (r.selectAll settings (branchesFrom Attribute.size Attribute.branch n as))
      fun _ => True := by
  induction as generalizing n with
  | nil =>
    rw [branchesFrom, selectAll]
    exact Run.endsWith_pure trivial
  | cons a as ih =>
    rw [branchesFrom] at hhas ⊢
    obtain ⟨hfirst, hrest⟩ := List.forall_mem_cons.mp hhas
    rw [selectAll]
    apply Run.endsWith_bind (select_ends h settings a n hfirst fun e naming ha =>
      hdeep e naming (ha ▸ List.mem_cons_self))
    exact fun _ _ => ih _ hrest fun e naming ha => hdeep e naming (List.mem_cons_of_mem _ ha)

end Resolver

section

variable {E : Error → Prop} {tree : Tree} {s : Statement (Fin tree.tokens.size)}

theorem Statement.mem_expressions_of_value {τ : Type} {s : Statement τ} {e : Expr τ}
    {naming : Option (Naming τ)} (h : .value e naming ∈ s.attributes) : e ∈ s.expressions :=
  List.mem_append_left _ (List.mem_filterMap.mpr ⟨.value e naming, h, rfl⟩)

theorem Statement.mem_expressions_of_restriction {τ : Type} {s : Statement τ} {r : Restriction τ}
    (h : s.restriction = some r) : r.condition ∈ s.expressions := by
  apply List.mem_append_right
  rw [h]
  exact List.mem_singleton.mpr rfl

theorem Plan.predicateOf_ends {r : Resolver (Run S)} (h : r.scope.Admits E) {e : Expr TokenId}
    {n : Nat} (hhas : r.tree.Has (e.branch n))
    (hdeep : r.maxDepth < e.nesting → E (.tooDeep r.maxDepth)) :
    Run.EndsWith E (predicateOf r (e.branch n)) fun _ => True := by
  apply Run.endsWith_bind (Resolver.typed_ends h hhas hdeep)
  intro found _
  dsimp only
  split
  · exact Run.endsWith_pure trivial
  · exact Run.endsWith_throw (h.shallow _ trivial)

theorem Plan.ofScope_ends (h : tree.Has ((s.map Fin.val).branch 0)) {scope : Scope (Run S)}
    (hscope : scope.Admits E) (registry : Registry) (settings : Settings)
    (hdeep : ∀ e ∈ (s.map Fin.val).expressions, settings.maxDepth < e.nesting →
      E (.tooDeep settings.maxDepth)) :
    Run.Ends E (ofScope tree ((s.map Fin.val).branch 0) scope registry settings) fun _ => True := by
  have hclause : clause ((s.map Fin.val).branch 0) .attributes "SELECT without attribute list" =
      .ok ((s.map Fin.val).listBranch (0 + 1)) := rfl
  have hlist := h.below (List.mem_cons_of_mem _ List.mem_cons_self)
  rw [ofScope_eq (Judgement.partial_returns S) h]
  unfold resolved
  dsimp only
  rw [hclause, relay, pure_bind, condition_branch]
  refine Run.meets_bind (Resolver.selectAll_ends (r := ⟨tree, scope, registry, _, _⟩) hscope
    settings (s.map Fin.val).attributes (0 + 1) (fun b hb => hlist.below hb)
    (fun e naming ha => hdeep e (Statement.mem_expressions_of_value ha)) .empty) fun _ _ => ?_
  cases hrestriction : (s.map Fin.val).restriction with
  | none =>
    exact Run.meets_bind (Run.meets_pure (Q := fun _ => True) trivial) fun _ _ =>
      Run.meets_pure trivial
  | some restriction =>
    refine Run.meets_bind (Plan.predicateOf_ends (r := ⟨tree, scope, registry, _, _⟩) hscope
      (has_condition h hrestriction)
      (hdeep _ (Statement.mem_expressions_of_restriction hrestriction)) _) fun _ _ => ?_
    exact Run.meets_bind (Run.meets_pure (Q := fun _ => True) trivial) fun _ _ =>
      Run.meets_pure trivial

theorem SourceName.shallow_register (sources : List SourceName) (parts : List String)
    (given : Option String) : FailsIn Error.Shallow (register sources parts given) := by
  unfold register
  split
  · trivial
  · dsimp only
    split <;> trivial

theorem FromItem.shallow_registerAll {τ : Type} (word : τ → String) (items : List (FromItem τ))
    (sources : List SourceName) :
    FailsIn Error.Shallow (items.foldlM (FromItem.register word) sources) := by
  induction items generalizing sources with
  | nil => trivial
  | cons item items ih =>
    rw [List.foldlM_cons]
    exact failsIn_bind (SourceName.shallow_register _ _ _) ih

/-- Binding a statement fails as its sources do, in a way that is no matter of depth, or because an
expression is nested beyond the limit. -/
theorem Session.bind_ends {B : Backend σ γ} (h : tree.Holds s)
    (hshallow : ∀ e : Error, e.Shallow → E e) (hB : ∀ e, B.Fails e → E e) (registry : Registry)
    (settings : Settings)
    (hdeep : ∀ e ∈ (s.map Fin.val).expressions, settings.maxDepth < e.nesting →
      E (.tooDeep settings.maxDepth)) :
    Run.Ends E (bind B registry settings tree) fun _ => True := by
  rw [bind, Plan.statement_of_holds h, relay, pure_bind, Plan.sourceNames_of_holds h]
  have hnames := FromItem.shallow_registerAll tree.word (s.map Fin.val).sources []
  apply Run.meets_bind (P := fun _ => True)
  · exact Run.meets_relay (fun e he => hshallow e (hnames.of_error he)) fun _ _ => trivial
  · intro names _
    apply Run.meets_bind (ends_openAll hB names)
    exact fun _ _ => Plan.ofScope_ends h.has (admits_scope hshallow hB names) registry settings hdeep

end

/-! ## Evaluation -/

section

variable {word : TokenId → String} {registry : Registry} {E : Error → Prop}
variable {env : Environment (Run S)}

theorem Bound.ends_operation (hshallow : ∀ e : Error, e.Shallow → E e) {op : Operator}
    {operands : List Bound} {depth : Nat}
    (h : Run.Ends E (evalAll env depth operands) fun vs => vs.length = operands.length) :
    Run.Ends E ((operation op operands).eval env depth) fun _ => True := by
  rw [eval]
  split
  · next harity =>
    apply Run.meets_bind h
    intro vs hlength
    have hresult := Operator.onValues_apply env.nulls (hlength.trans harity)
    exact Run.meets_relay (fun e he => hshallow e (hresult.of_error he).shallow) fun _ _ => trivial
  · exact Run.meets_throw (hshallow _ trivial)

theorem Bound.ends_evalAll_nil (depth : Nat) :
    Run.Ends E (evalAll env depth []) fun vs => vs.length = [].length (α := Bound) := by
  rw [evalAll]
  exact Run.meets_pure rfl

/-- An operand of an expression that is nested within the limit has room. -/
theorem Bound.ends_evalAll_cons {b : Bound} {bs : List Bound} {depth : Nat}
    (hroom : depth + 1 ≤ env.maxDepth) (hfirst : Run.Ends E (b.eval env (depth + 1)) fun _ => True)
    (hrest : Run.Ends E (evalAll env depth bs) fun vs => vs.length = bs.length) :
    Run.Ends E (evalAll env depth (b :: bs)) fun vs => vs.length = (b :: bs).length := by
  rw [evalAll, if_neg (by omega)]
  apply Run.meets_bind hfirst
  intro v _
  apply Run.meets_bind hrest
  intro vs hlength
  exact Run.meets_pure (congrArg Nat.succ hlength)

mutual

/-- The guard of evaluation lets everything pass that the guard of binding has let pass. -/
theorem Expr.BindsTo.ends_eval (hshallow : ∀ e : Error, e.Shallow → E e)
    (hcolumn : ∀ source position, Run.Ends E (env.column source position) fun _ => True)
    (hcalls : ∀ e, registry.Fails e → E e) :
    ∀ (e : Expr TokenId) (b : Bound) (depth : Nat), e.BindsTo word registry b →
      depth + e.nesting ≤ env.maxDepth → Run.Ends E (b.eval env depth) fun _ => True
  | .text _, _, _, h, _ | .null _, _, _, h, _ => by
    cases h
    exact Run.meets_pure trivial
  | .number leaf, _, _, h, _ => by
    cases h
    have hread := Value.onValues_ofNumeral (word leaf)
    exact Run.meets_relay (fun e he => hshallow e (hread.of_error he).shallow) fun _ _ => trivial
  | .param _, _, _, h, _ => by
    obtain ⟨ordinal, rfl⟩ := h
    exact Run.meets_pure trivial
  | .name _, _, _, h, _ => by
    obtain ⟨ref, rfl⟩ := h
    exact hcolumn ref.source ref.position
  | .call _ args, _, depth, h, hroom => by
    obtain ⟨f, hf, bs, rfl, hargs⟩ := h
    rw [Expr.nesting] at hroom
    rw [Bound.eval]
    apply Run.meets_bind
      (Expr.AllBindTo.ends_evalAll hshallow hcolumn hcalls args bs depth hargs hroom)
    intro vs _
    exact Run.meets_relay (fun e he => hcalls e ⟨f, hf, vs, he⟩) fun _ _ => trivial
  | .unary op operand, _, depth, h, hroom => by
    obtain ⟨operand', rfl, hoperand⟩ := h
    rw [Expr.nesting] at hroom
    have heval := Expr.BindsTo.ends_eval hshallow hcolumn hcalls operand operand' (depth + 1)
      hoperand (by omega)
    exact Bound.ends_operation hshallow
      (Bound.ends_evalAll_cons (by omega) heval (Bound.ends_evalAll_nil depth))
  | .binary op left right, _, depth, h, hroom => by
    obtain ⟨left', right', rfl, hleft, hright⟩ := h
    rw [Expr.nesting] at hroom
    have hevalLeft := Expr.BindsTo.ends_eval hshallow hcolumn hcalls left left' (depth + 1)
      hleft (by omega)
    have hevalRight := Expr.BindsTo.ends_eval hshallow hcolumn hcalls right right' (depth + 1)
      hright (by omega)
    apply Bound.ends_operation hshallow
    apply Bound.ends_evalAll_cons (by omega) hevalLeft
    exact Bound.ends_evalAll_cons (by omega) hevalRight (Bound.ends_evalAll_nil depth)

theorem Expr.AllBindTo.ends_evalAll (hshallow : ∀ e : Error, e.Shallow → E e)
    (hcolumn : ∀ source position, Run.Ends E (env.column source position) fun _ => True)
    (hcalls : ∀ e, registry.Fails e → E e) :
    ∀ (es : List (Expr TokenId)) (bs : List Bound) (depth : Nat),
      Expr.AllBindTo word registry es bs → depth + (Expr.nestingAll es + 1) ≤ env.maxDepth →
      Run.Ends E (Bound.evalAll env depth bs) fun vs => vs.length = bs.length
  | [], _, depth, h, _ => by
    cases h
    exact Bound.ends_evalAll_nil depth
  | e :: es, _, depth, h, hroom => by
    obtain ⟨first, rest, rfl, hfirst, hrest⟩ := h
    rw [Expr.nestingAll] at hroom
    apply Bound.ends_evalAll_cons (by omega)
    · exact Expr.BindsTo.ends_eval hshallow hcolumn hcalls e first (depth + 1) hfirst (by omega)
    · exact Expr.AllBindTo.ends_evalAll hshallow hcolumn hcalls es rest depth hrest (by omega)

end

end

/-! ## The expressions of a plan -/

namespace Plan

/-- Whatever is evaluated on a row: the expressions of the fields and the condition. -/
def evaluated (p : Plan) : List Bound :=
  p.fields.map Field.expression ++ p.predicate.toList.map Prod.snd

variable {word : TokenId → String} {registry : Registry} {limit : Nat}
variable {P : Expr TokenId → Bound → Prop} {p : Plan} {s : Statement TokenId}

theorem exists_attribute_of_mem {as : List (Attribute TokenId)} {groups : List (List Field)}
    (h : List.Forall₂ (Attribute.Mirrors P) as groups) {f : Field} (hf : f ∈ groups.flatten) :
    ∃ a ∈ as, ∃ group, f ∈ group ∧ a.Mirrors P group := by
  induction h with
  | nil => cases hf
  | @cons a group as groups hfirst _ ih =>
    rw [List.flatten_cons] at hf
    rcases List.mem_append.mp hf with hf | hf
    · exact ⟨a, List.mem_cons_self, group, hf, hfirst⟩
    · obtain ⟨other, hother, found⟩ := ih hf
      exact ⟨other, List.mem_cons_of_mem _ hother, found⟩

theorem exists_group_of_mem {as : List (Attribute TokenId)} {groups : List (List Field)}
    (h : List.Forall₂ (Attribute.Mirrors P) as groups) {a : Attribute TokenId} (ha : a ∈ as) :
    ∃ group ∈ groups, a.Mirrors P group := by
  induction h with
  | nil => cases ha
  | @cons first group as groups hfirst _ ih =>
    rcases List.mem_cons.mp ha with rfl | ha
    · exact ⟨group, List.mem_cons_self, hfirst⟩
    · obtain ⟨other, hother, hmirrors⟩ := ih ha
      exact ⟨other, List.mem_cons_of_mem _ hother, hmirrors⟩

/-- An expression of a plan is bound from one of the statement's, or is a column for a star. -/
theorem Mirrors.of_mem_evaluated (h : p.Mirrors P s) {b : Bound} (hb : b ∈ p.evaluated) :
    (∃ e ∈ s.expressions, P e b) ∨ ∃ ref, b = .column ref := by
  rcases List.mem_append.mp hb with hb | hb
  · obtain ⟨f, hf, rfl⟩ := List.mem_map.mp hb
    obtain ⟨groups, hfields, hgroups⟩ := h.attributes
    rw [hfields] at hf
    obtain ⟨a, ha, group, hfgroup, hmirrors⟩ := exists_attribute_of_mem hgroups hf
    cases a with
    | star leaf | starOf parts leaf =>
      obtain ⟨ref, hkind⟩ := hmirrors f hfgroup
      exact Or.inr ⟨ref, by rw [Field.expression, hkind]⟩
    | value e naming =>
      obtain ⟨g, rfl, hg⟩ := hmirrors
      cases List.mem_singleton.mp hfgroup
      exact Or.inl ⟨e, Statement.mem_expressions_of_value ha, hg⟩
  · obtain ⟨found, hfound, rfl⟩ := List.mem_map.mp hb
    cases hrestriction : s.restriction with
    | none =>
      rw [h.unrestricted hrestriction] at hfound
      cases hfound
    | some restriction =>
      obtain ⟨other, hother, hmirrors⟩ := h.condition restriction hrestriction
      rw [hother] at hfound
      cases List.mem_singleton.mp hfound
      exact Or.inl ⟨_, Statement.mem_expressions_of_restriction hrestriction, hmirrors⟩

/-- Every expression of the statement is evaluated. -/
theorem Mirrors.exists_evaluated (h : p.Mirrors P s) {e : Expr TokenId} (he : e ∈ s.expressions) :
    ∃ b ∈ p.evaluated, P e b := by
  rcases List.mem_append.mp he with he | he
  · obtain ⟨a, ha, hvalue⟩ := List.mem_filterMap.mp he
    obtain ⟨groups, hfields, hgroups⟩ := h.attributes
    obtain ⟨group, hgroup, hmirrors⟩ := exists_group_of_mem hgroups ha
    cases a with
    | star leaf | starOf parts leaf => cases hvalue
    | value value naming =>
      cases hvalue
      obtain ⟨f, rfl, hf⟩ := hmirrors
      have hfield : f ∈ p.fields := by
        rw [hfields]
        exact List.mem_flatten.mpr ⟨[f], hgroup, List.mem_cons_self⟩
      exact ⟨f.expression, List.mem_append_left _ (List.mem_map_of_mem hfield), hf⟩
  · obtain ⟨restriction, hrestriction, rfl⟩ := List.mem_map.mp he
    obtain ⟨found, hfound, hmirrors⟩ := h.condition restriction (Option.mem_toList.mp hrestriction)
    have hpredicate : found ∈ p.predicate.toList := Option.mem_toList.mpr hfound
    exact ⟨found.2, List.mem_append_right _ (List.mem_map_of_mem hpredicate), hmirrors⟩

theorem Carries.of_mem_evaluated (h : p.Carries word registry limit s) {b : Bound}
    (hb : b ∈ p.evaluated) :
    (∃ e ∈ s.expressions, e.Carried word registry limit b) ∨ ∃ ref, b = .column ref :=
  (carries_iff.mp h).of_mem_evaluated hb

theorem Carries.exists_evaluated (h : p.Carries word registry limit s) {e : Expr TokenId}
    (he : e ∈ s.expressions) : ∃ b ∈ p.evaluated, e.Carried word registry limit b :=
  (carries_iff.mp h).exists_evaluated he

end Plan

namespace Cursor

variable {B : Backend σ γ} {registry : Registry} {settings : Settings} {tree : Tree} {world : γ}
variable {E : Error → Prop}

/-- On any row of any sources, what a plan carries fails as a column or a function does, or in a way
that is no matter of depth. -/
theorem evaluate_failure {plan : Plan} {word : TokenId → String} {s : Statement TokenId}
    {later : Cursor σ γ} {b : Bound} {e : Error}
    (h : plan.Carries word registry settings.maxDepth s) (hb : b ∈ plan.evaluated)
    (hlater : later.settings = settings) (hshallow : ∀ e : Error, e.Shallow → E e)
    (hB : ∀ e, B.Fails e → E e) (hcalls : ∀ e, registry.Fails e → E e)
    (he : (evaluate B b).outcome later = .error e) : E e := by
  have hcolumn : ∀ source position,
      Run.Ends E ((later.environment B).column source position) fun _ => True :=
    fun _ position => Session.ends_at hshallow (Session.ends_column hB position)
  have heval : Run.Ends E (b.eval (later.environment B) 0) fun _ => True := by
    rcases h.of_mem_evaluated hb with ⟨expression, -, hbinds, hnesting⟩ | ⟨ref, rfl⟩
    · apply Expr.BindsTo.ends_eval hshallow hcolumn hcalls expression b 0 hbinds
      show 0 + expression.nesting ≤ later.settings.maxDepth
      rw [hlater, Nat.zero_add]
      exact hnesting
    · exact hcolumn ref.source ref.position
  rw [evaluate_eq, Run.outcome_bind_of_ok (Run.get_apply later), outcome_onSession] at he
  cases hrun : b.eval (later.environment B) 0 later.session with
  | ok v session =>
    rw [Run.outcome, hrun] at he
    cases he
  | error error session =>
    rw [Run.outcome, hrun] at he
    cases he
    exact heval.of_error hrun

/-- The guards of binding and of evaluation agree on the expressions of a statement. -/
structure GuardsAgree (B : Backend σ γ) (registry : Registry) (settings : Settings) (tree : Tree)
    (world : γ) (s : Statement TokenId) : Prop where
  /-- What is bound is nested within the limit, and is never refused as too deep on any row, unless
  a provider or a function answers so. -/
  bound : ∀ c, ofTree B registry settings tree world = .ok c →
    (∀ e ∈ s.expressions, e.nesting ≤ settings.maxDepth) ∧
      ∃ plan, c.plan = some plan ∧ plan.Carries tree.word registry settings.maxDepth s ∧
        ∀ b ∈ plan.evaluated, ∀ later : Cursor σ γ, later.settings = settings →
          ∀ k, (evaluate B b).outcome later = .error (.tooDeep k) →
            B.Fails (.tooDeep k) ∨ registry.Fails (.tooDeep k)
  /-- What binding refuses as too deep has an expression nested beyond the limit, unless a provider
  answers so. -/
  refused : ∀ k last, ofTree B registry settings tree world = .error (.tooDeep k, last) →
    (∃ e ∈ s.expressions, settings.maxDepth < e.nesting) ∨ B.Fails (.tooDeep k)

/-- Binding fails as a provider does, or in a way that is no matter of depth, or because an
expression is nested beyond the limit. -/
theorem ofTree_failure {s : Statement (Fin tree.tokens.size)} (h : tree.Holds s)
    (hshallow : ∀ e : Error, e.Shallow → E e) (hB : ∀ e, B.Fails e → E e)
    (hdeep : ∀ e ∈ (s.map Fin.val).expressions, settings.maxDepth < e.nesting →
      E (.tooDeep settings.maxDepth)) {e : Error} {last : γ}
    (he : ofTree B registry settings tree world = .error (e, last)) : E e := by
  unfold ofTree at he
  split at he
  · cases he
  · next error session hbind =>
    cases he
    exact (Session.bind_ends h hshallow hB registry settings hdeep).of_error hbind

/-- Over any backend and under any limit, binding and evaluation agree on how deep an expression may
be nested. -/
theorem depth_guards_agree {text : String} (h : parse settings.reading text = .ok tree)
    (B : Backend σ γ) (registry : Registry) (world : γ) :
    ∃ (ts : List Token) (s : Statement (Fin tree.tokens.size)),
      tree.ReadAs settings.reading text ts s ∧
        GuardsAgree B registry settings tree world (s.map Fin.val) := by
  obtain ⟨ts, s, hread⟩ := Tree.exists_readAs_of_parse h
  refine ⟨ts, s, hread, ?_, ?_⟩
  · intro c hc
    obtain ⟨plan, hplan, hcarries⟩ := carries_of_ofTree hread.holds hc
    have hnesting : ∀ e ∈ (s.map Fin.val).expressions, e.nesting ≤ settings.maxDepth := by
      intro e he
      obtain ⟨b, -, hcarried⟩ := hcarries.exists_evaluated he
      exact hcarried.2
    refine ⟨hnesting, plan, hplan, hcarries, ?_⟩
    intro b hb later hlater k hk
    have hfailure := evaluate_failure
      (E := fun e => e.Shallow ∨ B.Fails e ∨ registry.Fails e) hcarries hb hlater
      (fun _ => Or.inl) (fun _ h => Or.inr (Or.inl h)) (fun _ h => Or.inr (Or.inr h)) hk
    exact hfailure.resolve_left id
  · intro k last hrefused
    have hfailure := ofTree_failure
      (E := fun e => e.Shallow ∨ B.Fails e ∨
        ∃ deep ∈ (s.map Fin.val).expressions, settings.maxDepth < deep.nesting) hread.holds
      (fun _ => Or.inl) (fun _ h => Or.inr (Or.inl h))
      (fun e he hlt => Or.inr (Or.inr ⟨e, he, hlt⟩)) hrefused
    rcases hfailure with hshallow | hfails | hdeep
    · exact hshallow.elim
    · exact Or.inr hfails
    · exact Or.inl hdeep

/-- Two signs are within a limit of two, and beyond a limit of one. -/
theorem depth_guards_agree_signs : ∃ tree, parse .default "SELECT - - a FROM t" = .ok tree ∧
    (ofTree (Memory.backend Memory.oneTable) .empty { Settings.default with maxDepth := 2 } tree
      ()).toOption.isSome = true ∧
    ((ofTree (Memory.backend Memory.oneTable) .empty { Settings.default with maxDepth := 1 } tree
      ()).mapError Prod.fst).map Cursor.columnCount = .error (.tooDeep 1) ∧
    ∀ limit, ∃ (ts : List Token) (s : Statement (Fin tree.tokens.size)),
      tree.ReadAs .default "SELECT - - a FROM t" ts s ∧
        GuardsAgree (Memory.backend Memory.oneTable) .empty
          { Settings.default with maxDepth := limit } tree () (s.map Fin.val) := by
  have hbound : ((parse .default "SELECT - - a FROM t").toOption.map fun tree =>
      ((ofTree (Memory.backend Memory.oneTable) .empty { Settings.default with maxDepth := 2 } tree
        ()).toOption.isSome,
        ((ofTree (Memory.backend Memory.oneTable) .empty { Settings.default with maxDepth := 1 }
          tree ()).mapError Prod.fst).map Cursor.columnCount)) =
      some (true, .error (.tooDeep 1)) := by
    decide +kernel
  cases h : parse .default "SELECT - - a FROM t" with
  | error e =>
    rw [h] at hbound
    cases hbound
  | ok tree =>
    rw [h] at hbound
    have hpair := Prod.mk.inj (Option.some.inj hbound)
    refine ⟨tree, rfl, hpair.1, hpair.2, fun limit => ?_⟩
    have hparse : parse { Settings.default with maxDepth := limit }.reading "SELECT - - a FROM t" =
        .ok tree := h
    exact depth_guards_agree hparse _ _ _

end Cursor

/-! ## Tables in memory -/

namespace Memory

theorem Scan.shallow_opened (scan : Scan) : FailsIn Error.Shallow scan.opened := by
  unfold Scan.opened
  split <;> trivial

/-- Tables in memory refuse nothing as too deep. -/
theorem shallow_of_fails {catalog : Catalog} {e : Error} (h : (backend catalog).Fails e) :
    e.Shallow := by
  cases h with
  | created h => cases h
  | @opened mode name scan _ h =>
    have hopen : FailsIn Error.Shallow (scan.openTable mode name).1 := by
      unfold Scan.openTable
      split
      · trivial
      · split <;> trivial
    exact hopen.of_error h
  | @read position scan _ h =>
    have hread : FailsIn Error.Shallow (scan.column position) := by
      apply failsIn_bind scan.shallow_opened
      intro table
      split
      · trivial
      · split <;> trivial
    exact hread.of_error h
  | @described position scan _ h =>
    have hdescribe : FailsIn Error.Shallow (scan.describe position) := by
      apply failsIn_bind scan.shallow_opened
      intro table
      split <;> trivial
    exact hdescribe.of_error h

/-- A builtin function fails because of its arguments. -/
theorem shallow_of_builtin_fails {e : Error} (h : Registry.withBuiltins.Fails e) : e.Shallow := by
  obtain ⟨f, hf, args, he⟩ := h
  exact ((Registry.withBuiltins_onValues f hf args).of_error he).shallow

/-- Over tables in memory and with the builtin functions, no expression of a prepared statement is
refused as too deep on any row. -/
theorem evaluate_ne_tooDeep {catalog : Catalog} {settings : Settings} {text : String}
    {c : Cursor Scan Unit}
    (h : Cursor.prepare (backend catalog) .withBuiltins settings text () = .ok c) :
    ∃ plan, c.plan = some plan ∧ ∀ b ∈ plan.evaluated, ∀ later : Cursor Scan Unit,
      later.settings = settings →
        ∀ k, (Cursor.evaluate (backend catalog) b).outcome later ≠ .error (.tooDeep k) := by
  obtain ⟨tree, plan, ts, s, -, hplan, hcarries⟩ := Cursor.exists_carries_of_prepare h
  refine ⟨plan, hplan, fun b hb later hlater k hk => ?_⟩
  exact Cursor.evaluate_failure (E := Error.Shallow) hcarries hb hlater (fun _ h => h)
    (fun _ => shallow_of_fails) (fun _ => shallow_of_builtin_fails) hk

end Memory

end SelectEngine
