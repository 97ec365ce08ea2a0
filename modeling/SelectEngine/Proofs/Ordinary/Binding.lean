import SelectEngine.Proofs.Ordinary.Basic
import SelectEngine.Proofs.Ordinary.Scope
import SelectEngine.Proofs.Ordinary.Sources
import SelectEngine.Proofs.Plan.Resolved
import SelectEngine.Proofs.Plan.Settled

/-!
# Binding fails ordinarily

The induction is on the statement that the tree holds, so that every branch that is bound is the
layout of an expression or an attribute. What an expression resolves to is sound over the tables
(`Resolver.resolve_sound`), every field is (`Resolver.select_sound`), and so the statement has a
plan that is sound, or a name, a call or a type in it does not fit (`Plan.ordinarily_ofText`).
-/

set_option autoImplicit false

namespace SelectEngine

open Memory

variable {r : Resolver (Except Error)} {tables : List Table}

/-- The resolver finds columns of the tables, and functions that fail ordinarily. -/
structure Resolver.FindsIn (r : Resolver (Except Error)) (tables : List Table) : Prop where
  scope : ∃ names : List SourceName, r.scope = .ofTables names tables ∧ names.length = tables.length
  registry : r.registry.Ordinary

namespace Resolver

/-! ## Names, calls and literals -/

theorem FindsIn.column (h : r.FindsIn tables) {parts : List String} (hparts : parts ≠ []) :
    Ordinarily (r.scope.column parts) fun ref => ref.Within tables := by
  obtain ⟨names, hscope, hlength⟩ := h.scope
  rw [hscope]
  exact Scope.ordinarily_column hlength hparts

/-- The parts of a name that stands in the tree mean a column. -/
theorem FindsIn.name (h : r.FindsIn tables) {parts : List (Fin r.tree.tokens.size)} {id n : Nat}
    (hparts : parts ≠ [])
    (hhas : r.tree.Has (.node id .name (partBranches n (parts.map Fin.val)))) :
    Ordinarily (r.scope.column (r.tree.nameParts id)) fun ref => ref.Within tables := by
  rw [hhas.nameParts]
  exact h.column (by simpa using hparts)

theorem FindsIn.function (h : r.FindsIn tables) {function : Fin r.tree.tokens.size} {n : Nat}
    (hhas : r.tree.Has (.node n (.id function) [])) (bs : List Branch) :
    Ordinarily (r.function (.node n (.id function) [] :: bs)) Function.Ordinary := by
  have hname : r.tree.tokenText? (Branch.node n (.id function) []).id =
      some (r.tree.spelling function) := hhas.tokenText?
  unfold Resolver.function
  rw [List.head?_cons, Option.bind_some, hname]
  dsimp only
  split
  · next f hf =>
    exact ordinarily_ok (h.registry f (Registry.mem_of_find? (Registry.find?_of_forCall? hf)))
  · exact ordinarily_error trivial

theorem ordinarily_guardDepth (r : Resolver (Except Error)) (depth : Nat) :
    Ordinarily (r.guardDepth depth) fun _ => True := by
  unfold guardDepth
  split <;> trivial

theorem ordinarily_constant? (t : Tree) (id : NodeId) :
    Ordinarily (t.constant? id) fun _ => True := by
  unfold Tree.constant?
  split
  · trivial
  · exact ordinarily_map (Value.onValues_ofNumeral _).ordinarily
  · trivial
  · trivial

/-! ## Expressions -/

/-- A computation that records what names and calls mean. -/
abbrev Resolves {α : Type} (x : StateT Resolution (Except Error) α) (Q : α → Prop) : Prop :=
  Keeps (fun _ => True) x Q

theorem resolves_nil (depth : Nat) : Resolves (r.resolveAll depth []) (· = []) :=
  resolveAll_nil_holds (r := r) (Judgement.ordinary.keeping fun _ => True) depth

theorem resolves_cons {depth : Nat} {b : Branch} {bs : List Branch} {P : Bound → Prop}
    {Q : List Bound → Prop} (hfirst : Resolves (r.resolve depth b) P)
    (hothers : Resolves (r.resolveAll depth bs) Q) :
    Resolves (r.resolveAll depth (b :: bs)) fun es => ∃ e rest, es = e :: rest ∧ P e ∧ Q rest :=
  resolveAll_cons_holds (r := r) (Judgement.ordinary.keeping fun _ => True) hfirst hothers

/-- The name of a function is walked over like an expression. -/
theorem resolves_functionName (depth n : Nat) (function : TokenId) :
    Resolves (r.resolve depth (.node n (.id function) [])) fun _ => True := by
  simp only [resolve]
  apply keeps_bind (resolves_nil depth)
  intro _ _
  exact keeps_pure trivial

mutual

/-- An expression of the tree resolves to a sound one. -/
theorem resolve_sound (h : r.FindsIn tables) (depth : Nat) :
    ∀ (e : Expr (Fin r.tree.tokens.size)) (n : Nat), e.WellFormed →
      r.tree.Has ((e.map Fin.val).branch n) →
      Resolves (r.resolve depth ((e.map Fin.val).branch n)) fun b => b.Sound tables
  | .text leaf, n, _, _ | .number leaf, n, _, _ | .null leaf, n, _, _ => by
    rw [Expr.map, Expr.branch, resolve]
    exact keeps_pure (ordinarily_map (ordinarily_constant? _ _))
  | .param leaf, n, _, _ => by
    rw [Expr.map, Expr.branch, resolve]
    exact keeps_pure trivial
  | .name parts, n, hwell, hhas => by
    rw [Expr.map, Expr.branch] at hhas ⊢
    rw [resolve]
    apply keeps_bind (keeps_lift (h.name hwell hhas))
    intro ref href
    apply keeps_bind (keeps_modify fun _ _ => trivial)
    intro _ _
    exact keeps_pure href
  | .call function args, n, hwell, hhas => by
    rw [Expr.map, Expr.branch] at hhas ⊢
    rw [resolve]
    apply keeps_bind (keeps_lift (h.function (hhas.below List.mem_cons_self) _))
    intro f hf
    apply keeps_bind (keeps_modify fun _ _ => trivial)
    intro _ _
    apply keeps_bind (keeps_lift (r.ordinarily_guardDepth depth))
    intro _ _
    -- The name of the function is the first branch, and is dropped.
    have hargs := resolveAll_sound h (depth + 1) args (n + 1) hwell fun b hb =>
      hhas.below (List.mem_cons_of_mem _ hb)
    apply keeps_bind (resolves_cons (resolves_functionName (depth + 1) n function) hargs)
    rintro _ ⟨e, rest, rfl, -, hrest⟩
    exact keeps_pure ⟨hf, hrest⟩
  | .unary op operand, n, hwell, hhas => by
    rw [Expr.map, Expr.branch] at hhas ⊢
    rw [resolve]
    apply keeps_bind (keeps_lift (r.ordinarily_guardDepth depth))
    intro _ _
    have hoperand := resolve_sound h (depth + 1) operand n hwell.2 (hhas.below List.mem_cons_self)
    apply keeps_bind (resolves_cons hoperand (resolves_nil (depth + 1)))
    rintro _ ⟨e, _, rfl, he, rfl⟩
    have harity : op.arity = 1 := by rw [Operator.arity, if_pos hwell.1]
    exact keeps_pure ⟨harity.symm, he, trivial⟩
  | .binary op left right, n, hwell, hhas => by
    rw [Expr.map, Expr.branch] at hhas ⊢
    rw [resolve]
    apply keeps_bind (keeps_lift (r.ordinarily_guardDepth depth))
    intro _ _
    have hleft := resolve_sound h (depth + 1) left n hwell.2.1 (hhas.below List.mem_cons_self)
    have hright := resolve_sound h (depth + 1) right (n + (left.map Fin.val).size) hwell.2.2
      (hhas.below (List.mem_cons_of_mem _ List.mem_cons_self))
    apply keeps_bind (resolves_cons hleft (resolves_cons hright (resolves_nil (depth + 1))))
    rintro _ ⟨e, _, rfl, he, e', _, rfl, he', rfl⟩
    have harity : op.arity = 2 := by
      rw [Operator.arity, hwell.1]
      rfl
    exact keeps_pure ⟨harity.symm, he, he', trivial⟩

theorem resolveAll_sound (h : r.FindsIn tables) (depth : Nat) :
    ∀ (es : List (Expr (Fin r.tree.tokens.size))) (n : Nat), Expr.AllWellFormed es →
      (∀ b ∈ Expr.branches n (Expr.mapAll Fin.val es), r.tree.Has b) →
      Resolves (r.resolveAll depth (Expr.branches n (Expr.mapAll Fin.val es))) fun bs =>
        Bound.AllSound tables bs
  | [], _, _, _ => by
    rw [Expr.mapAll, Expr.branches, resolveAll]
    exact keeps_pure trivial
  | e :: es, n, hwell, hhas => by
    rw [Expr.mapAll, Expr.branches] at hhas ⊢
    obtain ⟨hfirst, hothers⟩ := List.forall_mem_cons.mp hhas
    have hrest := resolveAll_sound h depth es (n + (e.map Fin.val).size) hwell.2 hothers
    apply (resolves_cons (resolve_sound h depth e n hwell.1 hfirst) hrest).mono
    rintro _ ⟨b, bs, rfl, hb, hbs⟩
    exact ⟨hb, hbs⟩

end

theorem typed_sound (h : r.FindsIn tables) {e : Expr (Fin r.tree.tokens.size)} {n : Nat}
    (hwell : e.WellFormed) (hhas : r.tree.Has ((e.map Fin.val).branch n)) :
    Resolves (r.typed ((e.map Fin.val).branch n)) fun typed => typed.1.Sound tables := by
  apply keeps_bind (resolve_sound h 0 e n hwell hhas)
  intro b hb
  apply keeps_bind (keeps_relay (Bound.Sound.type b hb))
  intro t _
  exact keeps_pure hb

end Resolver

/-! ## Fields -/

/-- The fields found so far are sound. -/
def Selection.Sound (tables : List Table) (s : Selection) : Prop :=
  ∀ f ∈ s.fields, f.Sound tables

namespace Selection

variable {s : Selection}

theorem sound_empty : Selection.empty.Sound tables := by
  intro f hf
  exact absurd hf List.not_mem_nil

theorem Sound.add (h : s.Sound tables) {fields : List Field}
    (hfields : ∀ f ∈ fields, f.Sound tables) : (s.add fields).Sound tables :=
  List.forall_mem_append.mpr ⟨h, hfields⟩

/-- A name is taken without touching the fields. -/
theorem fields_nextName (settings : Settings) (s : Selection) :
    (s.nextName settings).2.fields = s.fields := by
  unfold nextName
  split <;> rfl

theorem Sound.addNamed (h : s.Sound tables) (settings : Settings) {field : String → Field}
    (hfield : ∀ name, (field name).Sound tables) : (s.addNamed settings field).Sound tables := by
  have hnext : (s.nextName settings).2.Sound tables := by
    rw [Selection.Sound, fields_nextName]
    exact h
  exact hnext.add (List.forall_mem_singleton.mpr (hfield _))

theorem Sound.addColumn (h : s.Sound tables) {ref : ColumnRef} (href : ref.Within tables) :
    (s.addColumn ref).Sound tables := by
  unfold Selection.addColumn
  split
  · have htaken : { s with pending := none }.Sound tables := h
    exact htaken.add (List.forall_mem_singleton.mpr href)
  · exact h.add (List.forall_mem_singleton.mpr href)

end Selection

namespace Resolver

/-- A computation that adds fields. -/
abbrev Selects (tables : List Table) (x : StateT Selection (Except Error) Unit) : Prop :=
  Keeps (Selection.Sound tables) x fun _ => True

theorem selectComputed_sound (h : r.FindsIn tables) (settings : Settings)
    {e : Expr (Fin r.tree.tokens.size)} {n : Nat} (hwell : e.WellFormed)
    (hhas : r.tree.Has ((e.map Fin.val).branch n)) :
    Selects tables (r.selectComputed settings ((e.map Fin.val).branch n)) := by
  apply keeps_bind keeps_get
  intro s hs
  apply keeps_bind (keeps_lift (typed_sound h hwell hhas s.resolution trivial))
  rintro ⟨⟨b, t⟩, resolution⟩ ⟨hb, -⟩
  have hfound : { s with resolution }.Sound tables := hs
  exact keeps_set (hfound.addNamed settings fun _ => hb)

/-- A star stands for columns of the tables, whatever it names. -/
theorem selectStar_sound (h : r.FindsIn tables) (b : Branch) :
    Selects tables (r.selectStar b) := by
  obtain ⟨names, hscope, hlength⟩ := h.scope
  have hadd (refs : List ColumnRef) (hrefs : ∀ ref ∈ refs, ref.Within tables) :
      Selects tables (modify fun s => s.add (refs.map Field.data)) := by
    apply keeps_modify
    intro s hs
    exact hs.add (List.forall_mem_map.mpr hrefs)
  unfold selectStar
  rw [hscope]
  split
  · next name _ =>
    have hfind := SourceName.ordinarily_find names (r.tree.nameParts name.id)
    rw [hlength] at hfind
    apply keeps_bind (keeps_relay hfind)
    intro source hsource
    exact keeps_bind (keeps_lift (Scope.ordinarily_columnsOf hsource)) hadd
  · have hall : ∀ i ∈ List.range names.length, i < tables.length := by
      intro i hi
      rw [← hlength]
      exact List.mem_range.mp hi
    exact keeps_bind (keeps_lift (Scope.ordinarily_columnsOfAll hall)) hadd

/-- An expression that is an attribute: a literal, a parameter or a column is a field of its own
kind, and any other is computed. -/
theorem select_expr_sound (h : r.FindsIn tables) (settings : Settings)
    (e : Expr (Fin r.tree.tokens.size)) (n : Nat) (hwell : e.WellFormed)
    (hhas : r.tree.Has ((e.map Fin.val).branch n))
    (hlisted : r.ListsParams ((e.map Fin.val).branch n).preorder) :
    Selects tables (r.select settings ((e.map Fin.val).branch n)) := by
  have hcomputed := selectComputed_sound h settings hwell hhas
  cases e with
  | text leaf | number leaf | null leaf =>
    rw [Expr.map, Expr.branch, select]
    apply keeps_bind (keeps_relay (ordinarily_constant? _ _))
    intro v _
    exact keeps_modify fun s hs => hs.addNamed settings fun _ => trivial
  | param leaf =>
    rw [Expr.map, Expr.branch] at hhas hlisted ⊢
    have hmem := hlisted n List.mem_cons_self (congrArg NodeKind.type hhas.kind)
    rw [select, numbered_of_mem hmem]
    exact keeps_modify fun s hs => hs.addNamed settings fun _ => trivial
  | name parts =>
    rw [Expr.map, Expr.branch] at hhas ⊢
    rw [select]
    apply keeps_bind (keeps_lift (h.name hwell hhas))
    intro ref href
    exact keeps_modify fun s hs => hs.addColumn href
  | call function args | unary op operand | binary op left right => exact hcomputed

theorem select_sound (h : r.FindsIn tables) (settings : Settings)
    (a : Attribute (Fin r.tree.tokens.size)) (n : Nat) (hwell : a.WellFormed)
    (hhas : r.tree.Has ((a.map Fin.val).branch n))
    (hlisted : r.ListsParams ((a.map Fin.val).branch n).preorder) :
    Selects tables (r.select settings ((a.map Fin.val).branch n)) := by
  rcases a with leaf | ⟨parts, leaf⟩ | ⟨e, _ | naming⟩
  · rw [Attribute.map, Attribute.branch, select]
    exact selectStar_sound h _
  · rw [Attribute.map, Attribute.branch, select]
    exact selectStar_sound h _
  · exact select_expr_sound h settings e n hwell hhas hlisted
  · -- The name is pending while the value is bound, and no field changes with it.
    have hpending (name : Option String) :
        Selects tables (modify fun s => { s with pending := name }) :=
      keeps_modify fun _ hs => hs
    rw [Attribute.map, Option.map_some, Attribute.branch] at hhas hlisted ⊢
    have hvalue := hhas.below List.mem_cons_self
    have hnamed := hhas.renamedParts (Expr.type_branch_ne _ _)
    rw [select]
    dsimp only
    rw [hnamed, relay, pure_bind]
    apply keeps_bind (hpending (some _))
    intro _ _
    rw [selectFirst]
    apply keeps_bind (select_expr_sound h settings e n hwell hvalue fun id hid =>
      hlisted id (Branch.mem_preorder_of_child List.mem_cons_self hid))
    intro _ _
    exact hpending none

theorem selectAll_sound (h : r.FindsIn tables) (settings : Settings)
    (as : List (Attribute (Fin r.tree.tokens.size))) (n : Nat) (hwell : ∀ a ∈ as, a.WellFormed)
    (hhas : ∀ b ∈ branchesFrom Attribute.size Attribute.branch n (as.map (Attribute.map Fin.val)),
      r.tree.Has b)
    (hlisted : r.ListsParams (Branch.preorders
      (branchesFrom Attribute.size Attribute.branch n (as.map (Attribute.map Fin.val))))) :
    Selects tables (r.selectAll settings
      (branchesFrom Attribute.size Attribute.branch n (as.map (Attribute.map Fin.val)))) := by
  induction as generalizing n with
  | nil => exact keeps_pure trivial
  | cons a as ih =>
    obtain ⟨ha, has⟩ := List.forall_mem_cons.mp hwell
    rw [List.map_cons, branchesFrom] at hhas hlisted ⊢
    obtain ⟨hfirst, hothers⟩ := List.forall_mem_cons.mp hhas
    rw [selectAll]
    apply keeps_bind (select_sound h settings a n ha hfirst fun id hid =>
      hlisted id (List.mem_append_left _ hid))
    intro _ _
    exact ih _ has hothers fun id hid => hlisted id (List.mem_append_right _ hid)

/-- The SELECT list of a statement that the tree holds. -/
theorem select_list_sound (h : r.FindsIn tables) (settings : Settings)
    {s : Statement (Fin r.tree.tokens.size)} (hholds : r.tree.Holds s)
    (hlisted : r.ListsParams ((s.map Fin.val).branch 0).preorder) :
    Selects tables (r.select settings ((s.map Fin.val).listBranch (0 + 1))) := by
  have hmem : (s.map Fin.val).listBranch (0 + 1) ∈ ((s.map Fin.val).branch 0).children :=
    List.mem_cons_of_mem _ List.mem_cons_self
  have hlist : r.tree.Has ((s.map Fin.val).listBranch (0 + 1)) :=
    hholds.has.below hmem
  rw [Statement.listBranch] at hmem hlist ⊢
  rw [select]
  exact selectAll_sound h settings s.attributes (0 + 1) hholds.wellFormed.attributes
    (fun b hb => hlist.below hb)
    fun id hid => hlisted id (Branch.mem_preorder_of_child hmem (List.mem_cons_of_mem _ hid))

end Resolver

/-! ## Plans -/

namespace Plan

theorem predicateOf_sound (h : r.FindsIn tables) {e : Expr (Fin r.tree.tokens.size)} {n : Nat}
    (hwell : e.WellFormed) (hhas : r.tree.Has ((e.map Fin.val).branch n)) :
    Resolver.Resolves (predicateOf r ((e.map Fin.val).branch n)) fun found =>
      found.2.Sound tables := by
  apply keeps_bind (Resolver.typed_sound h hwell hhas)
  rintro ⟨b, t⟩ hb
  dsimp only
  split
  · exact keeps_pure hb
  · exact keeps_throw trivial

/-- The condition of the WHERE clause, if there is one, is an expression of the tree. -/
theorem condition_of_holds {tree : Tree} {s : Statement (Fin tree.tokens.size)}
    (h : tree.Holds s) :
    ((((s.map Fin.val).branch 0).child? .where_).bind fun w => w.children.getLast?) = none ∨
      ∃ (e : Expr (Fin tree.tokens.size)) (n : Nat), e.WellFormed ∧
        tree.Has ((e.map Fin.val).branch n) ∧
        ((((s.map Fin.val).branch 0).child? .where_).bind fun w => w.children.getLast?) =
          some ((e.map Fin.val).branch n) := by
  obtain ⟨hwell, hhas, -⟩ := h
  obtain ⟨select, attributes, from_, sources, _ | restriction⟩ := s
  · exact Or.inl rfl
  · have hwhere := hhas.below (List.mem_cons_of_mem _ (List.mem_cons_of_mem _
      (List.mem_cons_of_mem _ List.mem_cons_self)))
    have hcondition := hwhere.below (List.mem_cons_of_mem _ List.mem_cons_self)
    exact Or.inr ⟨restriction.condition, _, hwell.restriction restriction rfl, hcondition, rfl⟩

/-- The SELECT list and the WHERE clause of a statement that the tree holds. -/
theorem ordinarily_ofScope {tree : Tree} {s : Statement (Fin tree.tokens.size)} (h : tree.Holds s)
    {names : List SourceName} (hlength : names.length = tables.length) {registry : Registry}
    (hregistry : registry.Ordinary) (settings : Settings) :
    Ordinarily (ofScope tree ((s.map Fin.val).branch 0) (.ofTables names tables) registry settings)
      fun plan => plan.Sound tables ∧ plan.sources = names := by
  have hclause : clause ((s.map Fin.val).branch 0) .attributes "SELECT without attribute list" =
      .ok ((s.map Fin.val).listBranch (0 + 1)) := rfl
  rw [ofScope_eq Judgement.partial_succeeds h.has]
  unfold resolved
  dsimp only
  rw [hclause]
  have hfinds : Resolver.FindsIn
      { tree := tree
        scope := .ofTables names tables
        registry := registry
        params := paramNodes tree ((s.map Fin.val).branch 0)
        maxDepth := settings.maxDepth } tables :=
    ⟨⟨names, rfl, hlength⟩, hregistry⟩
  have hselect := Resolver.select_list_sound hfinds settings h
    (listsParams_paramNodes _ _ _ _ _ fun _ hid => hid) .empty Selection.sound_empty
  rw [relay, pure_bind]
  apply ordinarily_bind hselect
  rintro ⟨_, selection⟩ ⟨-, hselection⟩
  dsimp only
  rcases condition_of_holds h with hnone | ⟨e, n, hwell, hhas, hsome⟩
  · rw [hnone]
    simp only [pure_bind]
    apply ordinarily_ok
    exact ⟨⟨hselection, nofun⟩, rfl⟩
  · rw [hsome]
    apply ordinarily_bind (predicateOf_sound hfinds hwell hhas selection.resolution trivial)
    rintro ⟨found, resolution⟩ ⟨hfound, -⟩
    simp only [pure_bind]
    apply ordinarily_ok
    refine ⟨⟨hselection, ?_⟩, rfl⟩
    intro other hother
    cases hother
    exact hfound

/-- The tables that sources name. -/
theorem ordinarily_tablesNamed (catalog : Catalog) (names : List SourceName) :
    Ordinarily (tablesNamed catalog names) fun tables =>
      names.map (tableRows catalog) = tables.map Table.rows := by
  induction names with
  | nil => exact ordinarily_ok rfl
  | cons name rest ih =>
    rw [tablesNamed]
    cases htable : catalog.lookup name.table with
    | none => exact ordinarily_error trivial
    | some table =>
      apply ordinarily_bind ih
      intro tables htables
      have hrows : tableRows catalog name = table.rows := by rw [tableRows, htable]
      show (name :: rest).map (tableRows catalog) = (table :: tables).map Table.rows
      rw [List.map_cons, List.map_cons, hrows, htables]

/-- A text has a plan that is sound over the tables that it names. -/
theorem ordinarily_ofText (catalog : Catalog) {registry : Registry}
    (hregistry : registry.Ordinary) (settings : Settings) (text : String) :
    Ordinarily (ofText catalog registry settings text) fun plan => ∃ tables : List Table,
      plan.Sound tables ∧ plan.sources.map (tableRows catalog) = tables.map Table.rows := by
  apply ordinarily_bind (ordinarily_parse settings.reading text)
  rintro tree ⟨s, hholds⟩
  rw [ofTree, statement_of_holds hholds, Outcome.ok_bind]
  apply ordinarily_bind (ordinarily_sourceNames hholds)
  intro names _
  apply ordinarily_bind (ordinarily_tablesNamed catalog names)
  intro tables htables
  have hlength : names.length = tables.length := by
    simpa using congrArg List.length htables
  apply (ordinarily_ofScope hholds hlength hregistry settings).mono
  rintro plan ⟨hsound, rfl⟩
  exact ⟨tables, hsound, htables⟩

end Plan

end SelectEngine
