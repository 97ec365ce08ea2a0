import SelectEngine.Proofs.Plan.Meaning
import SelectEngine.Proofs.Plan.Settled
import SelectEngine.Proofs.Tree.Read
import SelectEngine.Proofs.Tree.Saturated

/-!
# Binding a tree is binding its statement

Walking over the layout of an expression finds what binding the expression finds
(`Resolver.resolve_yields`), the layout of an attribute gives the columns of the attribute
(`Resolver.select_adds`), and so the plan of a tree means what the statement means that the tree
holds, or both fail in the same way (`Plan.meaning_ofTree`).
-/

set_option autoImplicit false

namespace SelectEngine

open Memory

/-! ## Outcomes without states -/

/-- Outcomes with one image are the same failure, or values with one image. -/
theorem Outcome.map_eq_map {α β γ : Type} {x : Except Error α} {y : Except Error β} {g : α → γ}
    {h : β → γ} (heq : x.map g = y.map h) :
    (∃ e, x = .error e ∧ y = .error e) ∨ ∃ a b, x = .ok a ∧ y = .ok b ∧ g a = h b := by
  cases x with
  | error e =>
    cases y with
    | error e' =>
      cases heq
      exact Or.inl ⟨e, rfl, rfl⟩
    | ok b => cases heq
  | ok a =>
    cases y with
    | error e => cases heq
    | ok b => exact Or.inr ⟨a, b, rfl, rfl, Except.ok.inj heq⟩

/-- Whatever the state, this is the outcome of the computation but for the state that it leaves. -/
def Yields {ρ α : Type} (x : StateT ρ (Except Error) α) (y : Except Error α) : Prop :=
  ∀ state, (x.run state).map Prod.fst = y

/-- This is the outcome of the computation, and it leaves its state as it is. -/
def Asks {ρ α : Type} (x : StateT ρ (Except Error) α) (y : Except Error α) : Prop :=
  ∀ state, x.run state = y.map fun a => (a, state)

section

variable {ρ α β : Type} {x : StateT ρ (Except Error) α} {y : Except Error α}
variable {f : α → StateT ρ (Except Error) β} {g : α → Except Error β}

theorem yields_pure (a : α) : Yields (pure a : StateT ρ (Except Error) α) (.ok a) := fun _ => rfl

theorem yields_bind (hx : Yields x y) (hf : ∀ a, Yields (f a) (g a)) :
    Yields (x >>= f) (y >>= g) := by
  intro state
  rw [StateT.run_bind, ← hx state]
  cases x.run state with
  | error e => rfl
  | ok found => exact hf found.1 found.2

/-- The outcome may be said in another way. -/
theorem Yields.trans {z : Except Error α} (hx : Yields x y) (h : y = z) : Yields x z := h ▸ hx

theorem asks_lift (y : Except Error α) : Asks (liftM y : StateT ρ (Except Error) α) y := by
  intro state
  cases y <;> rfl

theorem asks_relay (y : Except Error α) : Asks (relay y : StateT ρ (Except Error) α) y := by
  intro state
  cases y <;> rfl

theorem Asks.yields (h : Asks x y) : Yields x y := by
  intro state
  rw [h]
  cases y <;> rfl

/-- What a computation does to its state alone goes unseen. -/
theorem yields_modify_bind {h : ρ → ρ} {f : Unit → StateT ρ (Except Error) β} {y : Except Error β}
    (hf : Yields (f ()) y) : Yields (modify h >>= f) y := fun state => hf (h state)

end

/-! ## Words -/

/-- The text of a token. -/
def Tree.word (t : Tree) (token : TokenId) : String := (t.textOf token).getD ""

theorem Tree.word_val {t : Tree} (token : Fin t.tokens.size) :
    t.word token.val = t.spelling token := by
  rw [word, textOf_val, Option.getD_some]

namespace Tree.Has

variable {t : Tree} {id n : Nat} {bs : List Branch}

theorem nameParts_eq {parts : List (Fin t.tokens.size)}
    (h : t.Has (.node id .name (partBranches n (parts.map Fin.val)))) :
    t.nameParts id = (parts.map Fin.val).map t.word := by
  rw [h.nameParts, List.map_map]
  exact List.map_congr_left fun part _ => (word_val part).symm

theorem tokenText?_eq {function : Fin t.tokens.size} (h : t.Has (.node id (.id function.val) bs)) :
    t.tokenText? id = some (t.word function.val) := by
  rw [h.tokenText?, word_val]

/-- The value of a literal is what its word reads as. -/
theorem constant?_text {leaf : TokenId} (h : t.Has (.node id (.text leaf) bs)) :
    t.constant? id = .ok (some (.text (t.word leaf))) := by
  rw [Tree.constant?, Tree.tokenText?, h.kind]
  rfl

theorem constant?_number {leaf : TokenId} (h : t.Has (.node id (.number leaf) bs)) :
    t.constant? id = (Value.ofNumeral (t.word leaf)).map some := by
  rw [Tree.constant?, Tree.tokenText?, h.kind]
  rfl

theorem constant?_null {leaf : TokenId} (h : t.Has (.node id (.null leaf) bs)) :
    t.constant? id = .ok (some .null) := by
  rw [Tree.constant?, h.kind]

end Tree.Has

/-! ## Expressions -/

/-- The resolver finds what the binder finds, and numbers the parameters among the nodes as the
binder numbers their leaves. -/
structure Resolver.Agrees (r : Resolver (Except Error)) (β : Binder TokenId) (nodes : List NodeId) :
    Prop where
  word : β.word = r.tree.word
  scope : β.scope = r.scope
  registry : β.registry = r.registry
  maxDepth : β.maxDepth = r.maxDepth
  listed : r.ListsParams nodes
  ordinal : ∀ id ∈ nodes, ∀ leaf, r.tree.kind id = .param leaf → r.ordinal id = β.ordinal leaf

namespace Resolver

variable {r : Resolver (Except Error)} {β : Binder TokenId} {nodes : List NodeId}

theorem Agrees.guardDepth (h : r.Agrees β nodes) (depth : Nat) :
    (r.guardDepth depth : Except Error Unit) = β.guardDepth depth := by
  rw [Resolver.guardDepth, Binder.guardDepth, h.maxDepth]
  rfl

theorem Agrees.column (h : r.Agrees β nodes) {parts : List (Fin r.tree.tokens.size)} {id n : Nat}
    (hhas : r.tree.Has (.node id .name (partBranches n (parts.map Fin.val)))) :
    r.scope.column (r.tree.nameParts id) = β.column (parts.map Fin.val) := by
  rw [hhas.nameParts_eq, Binder.column, h.scope, h.word]

theorem Agrees.function (h : r.Agrees β nodes) {function : Fin r.tree.tokens.size} {n : Nat}
    (hhas : r.tree.Has (.node n (.id function.val) [])) (bs : List Branch) :
    (r.function (.node n (.id function.val) [] :: bs) : Except Error Function) =
      β.function function.val bs.length := by
  have hname : r.tree.tokenText? (Branch.node n (.id function.val) []).id =
      some (r.tree.word function.val) := hhas.tokenText?_eq
  unfold Resolver.function Binder.function
  rw [List.head?_cons, Option.bind_some, hname, h.registry, h.word]
  rfl

/-- The name of a function is walked over like an expression. -/
theorem yields_functionName (r : Resolver (Except Error)) (depth n : Nat) (function : TokenId) :
    Yields (r.resolve depth (.node n (.id function) [])) (.ok (.other (.id function))) := by
  simp only [resolve, resolveAll]
  exact yields_pure _

theorem yields_nil (r : Resolver (Except Error)) (depth : Nat) :
    Yields (r.resolveAll depth []) (.ok []) := by
  rw [resolveAll]
  exact yields_pure _

theorem yields_cons {depth : Nat} {b : Branch} {bs : List Branch} {e : Except Error Bound}
    {es : Except Error (List Bound)} (hfirst : Yields (r.resolve depth b) e)
    (hrest : Yields (r.resolveAll depth bs) es) :
    Yields (r.resolveAll depth (b :: bs)) (do
      let first ← e
      let rest ← es
      .ok (first :: rest)) := by
  rw [resolveAll]
  exact yields_bind hfirst fun _ => yields_bind hrest fun _ => yields_pure _

theorem length_branches (n : Nat) (es : List (Expr TokenId)) :
    (Expr.branches n es).length = es.length := by
  induction es generalizing n with
  | nil => rfl
  | cons e es ih => rw [Expr.branches, List.length_cons, List.length_cons, ih]

mutual

theorem resolve_yields (h : r.Agrees β nodes) (depth : Nat) :
    ∀ (e : Expr (Fin r.tree.tokens.size)) (n : Nat), r.tree.Has ((e.map Fin.val).branch n) →
      (∀ id ∈ ((e.map Fin.val).branch n).preorder, id ∈ nodes) →
      Yields (r.resolve depth ((e.map Fin.val).branch n)) ((e.map Fin.val).bind β depth)
  | .text leaf, n, hhas, _ => by
    rw [Expr.map, Expr.branch] at hhas ⊢
    rw [resolve, resolveAll, hhas.constant?_text, ← h.word]
    exact yields_pure _
  | .number leaf, n, hhas, _ => by
    rw [Expr.map, Expr.branch] at hhas ⊢
    have hvalue : ((r.tree.constant? n).map fun v => v.getD Value.null) =
        Value.ofNumeral (β.word leaf.val) := by
      rw [hhas.constant?_number, ← h.word]
      cases Value.ofNumeral (β.word leaf.val) <;> rfl
    rw [resolve, resolveAll, Expr.bind, ← hvalue]
    exact yields_pure _
  | .null leaf, n, hhas, _ => by
    rw [Expr.map, Expr.branch] at hhas ⊢
    rw [resolve, resolveAll, hhas.constant?_null]
    exact yields_pure _
  | .param leaf, n, hhas, hnodes => by
    rw [Expr.map, Expr.branch] at hhas hnodes ⊢
    have hordinal := h.ordinal n (hnodes n List.mem_cons_self) leaf.val hhas.kind
    rw [resolve, resolveAll, Expr.bind, ← hordinal]
    exact yields_pure _
  | .name parts, n, hhas, _ => by
    rw [Expr.map, Expr.branch] at hhas ⊢
    rw [resolve, Expr.bind, h.column hhas]
    exact yields_bind (asks_lift _).yields fun _ => yields_modify_bind (yields_pure _)
  | .call function args, n, hhas, hnodes => by
    rw [Expr.map, Expr.branch] at hhas hnodes ⊢
    have hargs := resolveAll_yields h (depth + 1) args (n + 1)
      (fun b hb => hhas.below (List.mem_cons_of_mem _ hb))
      (fun id hid => hnodes id (List.mem_cons_of_mem _ (List.mem_cons_of_mem _ hid)))
    rw [resolve, Expr.bind, h.function (hhas.below List.mem_cons_self), length_branches]
    apply yields_bind (asks_lift _).yields
    intro f
    apply yields_modify_bind
    rw [h.guardDepth]
    apply yields_bind (asks_lift _).yields
    intro _
    -- The name of the function is the first branch, and is dropped.
    have hparts := yields_cons (yields_functionName r (depth + 1) n function.val) hargs
    have hcall := yields_bind hparts fun parts => yields_pure (Bound.call f parts.tail)
    apply hcall.trans
    cases Expr.bindAll β (depth + 1) (Expr.mapAll Fin.val args) <;> rfl
  | .unary op operand, n, hhas, hnodes => by
    rw [Expr.map, Expr.branch] at hhas hnodes ⊢
    have hoperand := resolve_yields h (depth + 1) operand n (hhas.below List.mem_cons_self)
      fun id hid => hnodes id (Branch.mem_preorder_of_child List.mem_cons_self hid)
    -- The depth is looked at before the operands are, in both.
    rw [resolve, Expr.bind, h.guardDepth]
    apply yields_bind (asks_lift _).yields
    intro _
    have hparts := yields_cons hoperand (yields_nil r (depth + 1))
    have hoperation := yields_bind hparts fun parts => yields_pure (Bound.operation op parts)
    apply hoperation.trans
    cases (operand.map Fin.val).bind β (depth + 1) <;> rfl
  | .binary op left right, n, hhas, hnodes => by
    rw [Expr.map, Expr.branch] at hhas hnodes ⊢
    have hleft := resolve_yields h (depth + 1) left n (hhas.below List.mem_cons_self)
      fun id hid => hnodes id (Branch.mem_preorder_of_child List.mem_cons_self hid)
    have hright := resolve_yields h (depth + 1) right (n + (left.map Fin.val).size)
      (hhas.below (List.mem_cons_of_mem _ List.mem_cons_self)) fun id hid =>
        hnodes id (Branch.mem_preorder_of_child (List.mem_cons_of_mem _ List.mem_cons_self) hid)
    rw [resolve, Expr.bind, h.guardDepth]
    apply yields_bind (asks_lift _).yields
    intro _
    have hparts := yields_cons hleft (yields_cons hright (yields_nil r (depth + 1)))
    have hoperation := yields_bind hparts fun parts => yields_pure (Bound.operation op parts)
    apply hoperation.trans
    cases (left.map Fin.val).bind β (depth + 1) with
    | error e => rfl
    | ok l => cases (right.map Fin.val).bind β (depth + 1) <;> rfl

theorem resolveAll_yields (h : r.Agrees β nodes) (depth : Nat) :
    ∀ (es : List (Expr (Fin r.tree.tokens.size))) (n : Nat),
      (∀ b ∈ Expr.branches n (Expr.mapAll Fin.val es), r.tree.Has b) →
      (∀ id ∈ Branch.preorders (Expr.branches n (Expr.mapAll Fin.val es)), id ∈ nodes) →
      Yields (r.resolveAll depth (Expr.branches n (Expr.mapAll Fin.val es)))
        (Expr.bindAll β depth (Expr.mapAll Fin.val es))
  | [], _, _, _ => by
    rw [Expr.mapAll, Expr.branches, resolveAll]
    exact yields_pure _
  | e :: es, n, hhas, hnodes => by
    rw [Expr.mapAll, Expr.branches] at hhas hnodes ⊢
    obtain ⟨hfirst, hothers⟩ := List.forall_mem_cons.mp hhas
    exact yields_cons
      (resolve_yields h depth e n hfirst fun id hid =>
        hnodes id (List.mem_append_left _ hid))
      (resolveAll_yields h depth es (n + (e.map Fin.val).size) hothers fun id hid =>
        hnodes id (List.mem_append_right _ hid))

end

theorem typed_yields (h : r.Agrees β nodes) {e : Expr (Fin r.tree.tokens.size)} {n : Nat}
    (hhas : r.tree.Has ((e.map Fin.val).branch n))
    (hnodes : ∀ id ∈ ((e.map Fin.val).branch n).preorder, id ∈ nodes) :
    Yields (r.typed ((e.map Fin.val).branch n)) ((e.map Fin.val).typed β) :=
  yields_bind (resolve_yields h 0 e n hhas hnodes) fun _ =>
    yields_bind (asks_relay _).yields fun _ => yields_pure _

end Resolver

/-! ## Columns of the result -/

namespace Selection

/-- What has been found of the result: its columns, the number of generated names and the name that
is due. -/
def view (s : Selection) : List Output × UInt32 × Option String :=
  (s.fields.map Field.output, s.generated, s.pending)

theorem view_add (s : Selection) (fields : List Field) :
    (s.add fields).view =
      (s.fields.map Field.output ++ fields.map Field.output, s.generated, s.pending) := by
  rw [view, add, List.map_append]

theorem view_addNamed (s : Selection) (settings : Settings) (field : String → Field)
    {generated : Nat} (h : s.generated = .ofNat generated) :
    (s.addNamed settings field).view =
      (s.fields.map Field.output ++ (Output.named settings s.pending generated
          fun name => (field name).output).1,
        .ofNat (Output.named settings s.pending generated fun name => (field name).output).2,
        none) := by
  have hnext : s.generated + 1 = .ofNat (generated + 1) := by
    rw [h, UInt32.ofNat_add]
    rfl
  have hname : settings.anonymousName (UInt32.ofNat (generated + 1)).toNat =
      settings.generatedName (generated + 1) := by
    rw [UInt32.toNat_ofNat', Settings.generatedName]
  obtain ⟨fields, _ | name, count, resolution⟩ := s
  · simp only [addNamed, nextName, view, add, Output.named, List.map_append, List.map_cons,
      List.map_nil, hnext, hname]
  · simp only [addNamed, nextName, view, add, Output.named, List.map_append, List.map_cons,
      List.map_nil, h]

theorem view_addColumn (s : Selection) (ref : ColumnRef) :
    (s.addColumn ref).view =
      (s.fields.map Field.output ++ [Output.data s.pending ref], s.generated, none) := by
  obtain ⟨fields, _ | name, generated, resolution⟩ := s <;>
    simp [addColumn, view, add, Output.data, Field.output, Field.rename, Field.data,
      Field.expression]

end Selection

/-- The computation adds these columns behind those found so far, under the name that is due, after
which none is. -/
def Adds (x : StateT Selection (Except Error) Unit) (pending : Option String)
    (found : Nat → Except Error (List Output × Nat)) : Prop :=
  ∀ (s : Selection) (generated : Nat), s.pending = pending → s.generated = .ofNat generated →
    (x.run s).map (fun r => r.2.view) =
      (found generated).map fun f => (s.fields.map Field.output ++ f.1, .ofNat f.2, none)

section

variable {x : StateT Selection (Except Error) Unit} {pending : Option String}

/-- A step that fails or does not touch what has been found comes before what adds columns. -/
theorem adds_bind {α : Type} {z : StateT Selection (Except Error) α} {y : Except Error α}
    {f : α → StateT Selection (Except Error) Unit}
    {found : α → Nat → Except Error (List Output × Nat)} (hz : Asks z y)
    (hf : ∀ a, Adds (f a) pending (found a)) :
    Adds (z >>= f) pending fun generated => y >>= fun a => found a generated := by
  intro s generated hs hgenerated
  rw [StateT.run_bind, hz]
  cases y with
  | error e => rfl
  | ok a => exact hf a s generated hs hgenerated

theorem adds_named (settings : Settings) (field : String → Field) :
    Adds (modify (Selection.addNamed settings field)) pending fun generated =>
      .ok (Output.named settings pending generated fun name => (field name).output) := by
  rintro s generated rfl hgenerated
  exact congrArg Except.ok (s.view_addNamed settings field hgenerated)

theorem adds_column (ref : ColumnRef) :
    Adds (modify (Selection.addColumn ref)) pending fun generated =>
      .ok ([Output.data pending ref], generated) := by
  rintro s generated rfl hgenerated
  have hview := s.view_addColumn ref
  rw [hgenerated] at hview
  exact congrArg Except.ok hview

/-- A star takes no name. -/
theorem adds_columns (refs : List ColumnRef) :
    Adds (modify fun s => s.add (refs.map Field.data)) none fun generated =>
      .ok (refs.map (Output.data none), generated) := by
  intro s generated hs hgenerated
  have hview : (s.add (refs.map Field.data)).view =
      (s.fields.map Field.output ++ refs.map (Output.data none), s.generated, none) := by
    rw [s.view_add, hs, List.map_map]
    rfl
  rw [hgenerated] at hview
  exact congrArg Except.ok hview

/-- A name that becomes due before columns are added is gone after them. -/
theorem adds_renamed {found : Nat → Except Error (List Output × Nat)} {name : String}
    (hx : Adds x (some name) found) :
    Adds (do
      modify fun s => { s with pending := some name }
      x
      modify fun s => { s with pending := none }) none found := by
  intro s generated _ hgenerated
  have hs := hx { s with pending := some name } generated rfl hgenerated
  show ((x.run { s with pending := some name } >>= fun r =>
    .ok ((), { r.2 with pending := none })).map fun r => r.2.view) = _
  rw [← hs]
  rcases Outcome.map_eq_map hs with ⟨e, hrun, -⟩ | ⟨r, f, hrun, -, hview⟩
  · rw [hrun]
    rfl
  · have hpending : r.2.pending = none := congrArg (fun v => v.2.2) hview
    rw [hrun]
    show Except.ok (Selection.view { r.2 with pending := none }) = .ok r.2.view
    rw [← hpending]

/-- Columns are added behind those that were added before. -/
theorem adds_append {y : StateT Selection (Except Error) Unit}
    {first second : Nat → Except Error (List Output × Nat)} (hx : Adds x none first)
    (hy : Adds y none second) :
    Adds (x >>= fun _ => y) none fun generated =>
      first generated >>= fun found => second found.2 >>= fun more =>
        .ok (found.1 ++ more.1, more.2) := by
  intro s generated hs hcount
  rw [StateT.run_bind]
  dsimp only
  rcases Outcome.map_eq_map (hx s generated hs hcount) with
    ⟨e, hrun, hfirst⟩ | ⟨r, f, hrun, hfirst, hview⟩
  · rw [hrun, hfirst]
    rfl
  · have hfields : r.2.fields.map Field.output = s.fields.map Field.output ++ f.1 :=
      congrArg Prod.fst hview
    have hgenerated : r.2.generated = .ofNat f.2 := congrArg (fun v => v.2.1) hview
    have hpending : r.2.pending = none := congrArg (fun v => v.2.2) hview
    have hrest := hy r.2 f.2 hpending hgenerated
    rw [hfields] at hrest
    rw [hrun, hfirst, Outcome.ok_bind, Outcome.ok_bind, hrest]
    cases second f.2 with
    | error e => rfl
    | ok g =>
      exact congrArg (fun outputs => Except.ok (outputs, UInt32.ofNat g.2, none))
        (List.append_assoc _ _ _)

end

namespace Resolver

variable {r : Resolver (Except Error)} {β : Binder TokenId} {nodes : List NodeId}

theorem selectComputed_adds {b : Branch} {typed : Except Error (Bound × DataType)}
    (h : Yields (r.typed b) typed) (settings : Settings) (pending : Option String) :
    Adds (r.selectComputed settings b) pending fun generated => typed >>= fun found =>
      .ok (Output.named settings pending generated fun name =>
        ⟨Column.ofType name found.2, found.1⟩) := by
  rintro s generated rfl hgenerated
  have hs := h s.resolution
  have hrun : (r.selectComputed settings b).run s =
      ((r.typed b).run s.resolution >>= fun found =>
        .ok ((), { s with resolution := found.2 }.addNamed settings fun name =>
          Field.computed name found.1.2 b.id found.1.1)) := by
    simp only [selectComputed, StateT.run_bind, StateT.run_get, pure_bind]
    cases (r.typed b).run s.resolution <;> rfl
  rw [hrun, ← hs]
  cases (r.typed b).run s.resolution with
  | error e => rfl
  | ok found => exact congrArg Except.ok (Selection.view_addNamed _ settings _ hgenerated)

/-- An expression that is an attribute: a literal, a parameter or a column is a column of its own
kind, and any other is computed. -/
theorem select_expr_adds (h : r.Agrees β nodes) (settings : Settings)
    (e : Expr (Fin r.tree.tokens.size)) (n : Nat) (pending : Option String)
    (hhas : r.tree.Has ((e.map Fin.val).branch n))
    (hnodes : ∀ id ∈ ((e.map Fin.val).branch n).preorder, id ∈ nodes) :
    Adds (r.select settings ((e.map Fin.val).branch n)) pending
      fun generated => (e.map Fin.val).outputs β settings pending generated := by
  have hcomputed := selectComputed_adds (typed_yields h hhas hnodes) settings pending
  have constant {id : NodeId} {y : Except Error Value} (hy : r.tree.constant? id = y.map some) :
      Adds (relay (r.tree.constant? id) >>= fun v =>
          modify (Selection.addNamed settings fun name => Field.static name (v.getD .null)))
        pending fun generated => y >>= fun v =>
          .ok (Output.named settings pending generated (Output.static v)) := by
    rw [hy]
    cases y with
    | error e => exact fun _ _ _ _ => rfl
    | ok v => exact adds_named settings fun name => Field.static name v
  cases e with
  | text leaf =>
    rw [Expr.map, Expr.branch] at hhas ⊢
    simp only [select, Expr.outputs, h.word]
    exact constant (y := .ok (.text (r.tree.word leaf))) hhas.constant?_text
  | number leaf =>
    rw [Expr.map, Expr.branch] at hhas ⊢
    simp only [select, Expr.outputs, h.word]
    exact constant hhas.constant?_number
  | null leaf =>
    rw [Expr.map, Expr.branch] at hhas ⊢
    simp only [select, Expr.outputs]
    exact constant (y := .ok .null) hhas.constant?_null
  | param leaf =>
    rw [Expr.map, Expr.branch] at hhas hnodes ⊢
    have hordinal := h.ordinal n (hnodes n List.mem_cons_self) leaf.val hhas.kind
    have hmem : n ∈ r.params :=
      h.listed n (hnodes n List.mem_cons_self) (congrArg NodeKind.type hhas.kind)
    rw [select, numbered_of_mem hmem]
    simp only [Expr.outputs, ← hordinal]
    exact adds_named settings fun name => Field.param name (r.ordinal n)
  | name parts =>
    rw [Expr.map, Expr.branch] at hhas ⊢
    rw [select, h.column hhas]
    exact adds_bind (asks_lift _) fun ref => adds_column ref
  | call function args | unary op operand | binary op left right => exact hcomputed

theorem select_adds (h : r.Agrees β nodes) (settings : Settings)
    (a : Attribute (Fin r.tree.tokens.size)) (n : Nat)
    (hhas : r.tree.Has ((a.map Fin.val).branch n))
    (hnodes : ∀ id ∈ ((a.map Fin.val).branch n).preorder, id ∈ nodes) :
    Adds (r.select settings ((a.map Fin.val).branch n)) none
      fun generated => (a.map Fin.val).outputs β settings generated := by
  rcases a with leaf | ⟨parts, leaf⟩ | ⟨e, _ | naming⟩
  · simp only [Attribute.map, Attribute.outputs, h.scope]
    rw [Attribute.branch, select]
    exact adds_bind (asks_lift _) fun refs => adds_columns refs
  · have hname := hhas.below List.mem_cons_self
    simp only [Attribute.map, Attribute.outputs, h.scope, h.word]
    have hchild : (((Attribute.starOf (parts.map Fin.val) leaf.val).branch n).child? .name) =
        some (.node (n + (parts.map Fin.val).length) .name (partBranches n (parts.map Fin.val))) :=
      rfl
    rw [Attribute.branch] at hchild ⊢
    rw [select, selectStar, hchild]
    simp only [Branch.id, hname.nameParts_eq]
    exact adds_bind (asks_relay _) fun source =>
      adds_bind (asks_lift _) fun refs => adds_columns refs
  · exact select_expr_adds h settings e n none hhas hnodes
  · -- The name is kept until the expression has its field, which takes it.
    rw [Attribute.map, Option.map_some, Attribute.branch] at hhas hnodes ⊢
    have hvalue := hhas.below List.mem_cons_self
    have hnamed := hhas.renamedParts (Expr.type_branch_ne _ _)
    have hexpr := select_expr_adds h settings e n (some (r.tree.spelling naming.name)) hvalue
      fun id hid => hnodes id (Branch.mem_preorder_of_child List.mem_cons_self hid)
    rw [select]
    dsimp only
    rw [hnamed, relay, pure_bind]
    have hname : r.tree.word (naming.map Fin.val).name = r.tree.spelling naming.name :=
      Tree.word_val naming.name
    simp only [Attribute.outputs, Option.map_some, h.word, hname, selectFirst]
    exact adds_renamed hexpr

theorem selectAll_adds (h : r.Agrees β nodes) (settings : Settings)
    (as : List (Attribute (Fin r.tree.tokens.size))) (n : Nat)
    (hhas : ∀ b ∈ branchesFrom Attribute.size Attribute.branch n (as.map (Attribute.map Fin.val)),
      r.tree.Has b)
    (hnodes : ∀ id ∈ Branch.preorders
      (branchesFrom Attribute.size Attribute.branch n (as.map (Attribute.map Fin.val))),
      id ∈ nodes) :
    Adds (r.selectAll settings
        (branchesFrom Attribute.size Attribute.branch n (as.map (Attribute.map Fin.val)))) none
      fun generated =>
        Attribute.outputsAll β settings generated (as.map (Attribute.map Fin.val)) := by
  induction as generalizing n with
  | nil =>
    intro s generated hs hgenerated
    show Except.ok s.view = Except.ok (s.fields.map Field.output ++ [], .ofNat generated, none)
    rw [Selection.view, hs, hgenerated, List.append_nil]
  | cons a as ih =>
    rw [List.map_cons, branchesFrom] at hhas hnodes ⊢
    obtain ⟨hfirst, hothers⟩ := List.forall_mem_cons.mp hhas
    rw [selectAll]
    exact adds_append
      (select_adds h settings a n hfirst fun id hid => hnodes id (List.mem_append_left _ hid))
      (ih _ hothers fun id hid => hnodes id (List.mem_append_right _ hid))

/-- The SELECT list of a statement that the tree holds. -/
theorem select_list_adds {s : Statement (Fin r.tree.tokens.size)} (hholds : r.tree.Holds s)
    (h : r.Agrees β ((s.map Fin.val).branch 0).preorder) (settings : Settings) :
    Adds (r.select settings ((s.map Fin.val).listBranch (0 + 1))) none fun generated =>
      Attribute.outputsAll β settings generated (s.map Fin.val).attributes := by
  have hmem : (s.map Fin.val).listBranch (0 + 1) ∈ ((s.map Fin.val).branch 0).children :=
    List.mem_cons_of_mem _ List.mem_cons_self
  have hlist := hholds.has.below hmem
  rw [Statement.listBranch] at hmem hlist ⊢
  rw [select]
  exact selectAll_adds h settings s.attributes (0 + 1) (fun b hb => hlist.below hb) fun id hid =>
    Branch.mem_preorder_of_child hmem (List.mem_cons_of_mem _ hid)

end Resolver

/-! ## Sources -/

theorem Branch.collect_eq {tree : Tree} (sources : List SourceName)
    (source : FromItem (Fin tree.tokens.size)) {n : Nat}
    (h : tree.Has ((source.map Fin.val).branch n)) :
    Branch.collect tree sources ((source.map Fin.val).branch n) =
      (source.map Fin.val).register tree.word sources := by
  obtain ⟨parts, _ | naming⟩ := source
  · rw [FromItem.map, Option.map_none, FromItem.branch] at h ⊢
    rw [Branch.collect, h.nameParts_eq]
    rfl
  · simp only [FromItem.map, Option.map_some, FromItem.branch] at h ⊢
    have hname := h.below List.mem_cons_self
    have hgiven : tree.word (naming.map Fin.val).name = tree.spelling naming.name :=
      Tree.word_val naming.name
    rw [Branch.collect]
    dsimp only
    have hkind : NodeType.name ≠ .id := by decide
    rw [h.renamedParts hkind, Outcome.ok_bind]
    simp only [FromItem.register, Option.map_some, hgiven, Branch.id, hname.nameParts_eq]

theorem Branch.collectAll_eq {tree : Tree} (sources : List SourceName)
    (items : List (FromItem (Fin tree.tokens.size))) {n : Nat}
    (h : ∀ b ∈ branchesFrom FromItem.size FromItem.branch n (items.map (FromItem.map Fin.val)),
      tree.Has b) :
    Branch.collectAll tree sources
        (branchesFrom FromItem.size FromItem.branch n (items.map (FromItem.map Fin.val))) =
      (items.map (FromItem.map Fin.val)).foldlM (FromItem.register tree.word) sources := by
  induction items generalizing sources n with
  | nil => rfl
  | cons source items ih =>
    rw [List.map_cons, branchesFrom] at h ⊢
    obtain ⟨hfirst, hothers⟩ := List.forall_mem_cons.mp h
    rw [Branch.collectAll_cons, Branch.collect_eq sources source hfirst, List.foldlM_cons]
    congr 1
    funext found
    exact ih found hothers

/-! ## Plans -/

namespace Plan

variable {tree : Tree} {s : Statement (Fin tree.tokens.size)}

theorem sourceNames_of_holds (h : tree.Holds s) :
    sourceNames tree ((s.map Fin.val).branch 0) =
      (s.map Fin.val).sources.foldlM (FromItem.register tree.word) [] := by
  have hclause : clause ((s.map Fin.val).branch 0) .from_ "SELECT without FROM" =
      .ok ((s.map Fin.val).fromBranch (0 + 1 + ((s.map Fin.val).attributesSize + 1))) := rfl
  have hfrom := h.has.below (List.mem_cons_of_mem _ (List.mem_cons_of_mem _ List.mem_cons_self))
  rw [sourceNames, hclause]
  exact Branch.collectAll_eq [] s.sources fun b hb => hfrom.below (List.mem_cons_of_mem _ hb)

/-- The resolver of a statement that the tree holds finds what the statement is bound against. -/
theorem agrees_of_holds (h : tree.Holds s) (hnodup : (s.map Fin.val).params.Nodup)
    (names : List SourceName) (tables : List Table) (registry : Registry) (settings : Settings) :
    Resolver.Agrees
      { tree
        scope := .ofTables names tables
        registry
        params := paramNodes tree ((s.map Fin.val).branch 0)
        maxDepth := settings.maxDepth }
      ((s.map Fin.val).binder tree.word names tables registry settings)
      ((s.map Fin.val).branch 0).preorder where
  word := rfl
  scope := rfl
  registry := rfl
  maxDepth := rfl
  listed := listsParams_paramNodes _ _ _ _ _ fun _ hid => hid
  ordinal id hid leaf hkind := by
    have hleaves : paramsAmong ((s.map Fin.val).branch 0).leaves = (s.map Fin.val).params := by
      rw [Statement.leaves_branch, Statement.params]
    rw [← hleaves] at hnodup
    have hplace := idxOf_paramNodes h.has hnodup hid hkind
    rw [hleaves] at hplace
    exact congrArg (· + 1) hplace

theorem predicateOf_yields {r : Resolver (Except Error)} {β : Binder TokenId} {nodes : List NodeId}
    (h : r.Agrees β nodes) {e : Expr (Fin r.tree.tokens.size)} {n : Nat}
    (hhas : r.tree.Has ((e.map Fin.val).branch n))
    (hnodes : ∀ id ∈ ((e.map Fin.val).branch n).preorder, id ∈ nodes) :
    Yields (predicateOf r ((e.map Fin.val).branch n))
      (((e.map Fin.val).condition β).map fun c => (((e.map Fin.val).branch n).id, c)) := by
  have hbind := yields_bind (Resolver.typed_yields h hhas hnodes) fun found =>
    (show Yields (if found.2 = .null ∨ found.2 = .boolean then
          (pure (((e.map Fin.val).branch n).id, found.1) : StateT Resolution (Except Error) _)
        else throw (.typeMismatch "BOOLEAN predicate" found.2.name))
      (if found.2 = .null ∨ found.2 = .boolean then .ok (((e.map Fin.val).branch n).id, found.1)
        else .error (.typeMismatch "BOOLEAN predicate" found.2.name)) by
      split
      · exact yields_pure _
      · exact fun _ => rfl)
  apply hbind.trans
  rw [Expr.condition]
  cases (e.map Fin.val).typed β with
  | error e => rfl
  | ok found =>
    rw [Outcome.ok_bind, Outcome.ok_bind]
    split <;> rfl

/-- The number of the first node of a WHERE clause. -/
def whereStart (s : Statement TokenId) : NodeId :=
  0 + 1 + (s.attributesSize + 1) + (1 + s.sourcesSize + 1)

/-- The condition of a statement stands behind the keyword of its WHERE clause. -/
theorem condition_branch (s : Statement TokenId) :
    (((s.branch 0).child? .where_).bind fun w => w.children.getLast?) =
      s.restriction.map fun r => r.condition.branch (whereStart s + 1) := by
  obtain ⟨select, attributes, from_, sources, _ | r⟩ := s <;> rfl

/-- The WHERE clause is the last part of a statement. -/
theorem mem_children_of_where {s : Statement TokenId} {b : Branch}
    (hb : b ∈ restrictionBranches (whereStart s) s.restriction) : b ∈ (s.branch 0).children :=
  List.mem_cons_of_mem _ (List.mem_cons_of_mem _ (List.mem_cons_of_mem _ hb))

theorem has_condition {s : Statement TokenId} {restriction : Restriction TokenId}
    (h : tree.Has (s.branch 0)) (hrestriction : s.restriction = some restriction) :
    tree.Has (restriction.condition.branch (whereStart s + 1)) := by
  have hmem : .node (whereStart s + (1 + restriction.condition.size)) .where_
      [.node (whereStart s) (.token restriction.keyword) [],
        restriction.condition.branch (whereStart s + 1)] ∈ (s.branch 0).children := by
    apply mem_children_of_where
    rw [hrestriction]
    exact List.mem_cons_self
  exact (h.below hmem).below (List.mem_cons_of_mem _ List.mem_cons_self)

/-- The SELECT list and the WHERE clause of a statement that the tree holds. -/
theorem meaning_ofScope (h : tree.Holds s) (hnodup : (s.map Fin.val).params.Nodup)
    (names : List SourceName) (tables : List Table) (registry : Registry) (settings : Settings) :
    (ofScope tree ((s.map Fin.val).branch 0) (.ofTables names tables) registry settings).map
        meaning =
      (s.map Fin.val).meaningOver ((s.map Fin.val).binder tree.word names tables registry settings)
        names settings := by
  have hagrees := agrees_of_holds h hnodup names tables registry settings
  have hclause : clause ((s.map Fin.val).branch 0) .attributes "SELECT without attribute list" =
      .ok ((s.map Fin.val).listBranch (0 + 1)) := rfl
  have hselect := Resolver.select_list_adds h hagrees settings .empty 0 rfl rfl
  -- What is read off the tree in the end is what was found on the way.
  rw [ofScope_eq Judgement.partial_succeeds h.has]
  unfold resolved Statement.meaningOver
  dsimp only
  rw [hclause, relay, pure_bind, condition_branch]
  generalize (s.map Fin.val).binder tree.word names tables registry settings = β
    at hagrees hselect ⊢
  rcases Outcome.map_eq_map hselect with ⟨e, hrun, hfound⟩ | ⟨selected, f, hrun, hfound, hview⟩
  · have hnone : Attribute.outputsAll β settings 0 (s.map Fin.val).attributes = .error e := hfound
    rw [hrun, hnone]
    rfl
  · have hfields : selected.2.fields.map Field.output = f.1 := congrArg Prod.fst hview
    have hsome : Attribute.outputsAll β settings 0 (s.map Fin.val).attributes = .ok f := hfound
    rw [hrun, hsome, Outcome.ok_bind, Outcome.ok_bind, ← hfields]
    cases hr : s.restriction with
    | none =>
      have hrestriction : (s.map Fin.val).restriction = none := congrArg (Option.map _) hr
      rw [hrestriction]
      rfl
    | some r =>
      have hrestriction : (s.map Fin.val).restriction = some (r.map Fin.val) :=
        congrArg (Option.map _) hr
      have hmem : .node (whereStart (s.map Fin.val) + (1 + (r.condition.map Fin.val).size)) .where_
          [.node (whereStart (s.map Fin.val)) (.token r.keyword.val) [],
            (r.condition.map Fin.val).branch (whereStart (s.map Fin.val) + 1)] ∈
          ((s.map Fin.val).branch 0).children := by
        apply mem_children_of_where
        rw [hrestriction]
        exact List.mem_cons_self
      have hbelow : (r.condition.map Fin.val).branch (whereStart (s.map Fin.val) + 1) ∈
          [.node (whereStart (s.map Fin.val)) (.token r.keyword.val) [],
            (r.condition.map Fin.val).branch (whereStart (s.map Fin.val) + 1)] :=
        List.mem_cons_of_mem _ List.mem_cons_self
      have hcondition := predicateOf_yields hagrees ((h.has.below hmem).below hbelow)
        (fun id hid => Branch.mem_preorder_of_child hmem (Branch.mem_preorder_of_child hbelow hid))
        selected.2.resolution
      rw [hrestriction]
      dsimp only [Option.map_some, Restriction.map]
      rcases Outcome.map_eq_map hcondition with ⟨e, hrun, hfound⟩ | ⟨p, c, hrun, hfound, hp⟩
      · have hfailed : (r.condition.map Fin.val).condition β = .error e := hfound
        rw [hrun, hfailed]
        rfl
      · have hbound : (r.condition.map Fin.val).condition β = .ok c := hfound
        have hpredicate : p.1.2 = c := congrArg Prod.snd hp
        rw [hrun, hbound, ← hpredicate]
        rfl

/-- The plan of a tree means what the statement means that the tree holds, and one fails as the
other does. -/
theorem meaning_ofTree (h : tree.Holds s) (hnodup : (s.map Fin.val).params.Nodup)
    (catalog : Catalog) (registry : Registry) (settings : Settings) :
    (ofTree catalog registry settings tree).map meaning =
      (s.map Fin.val).meaning tree.word catalog registry settings := by
  rw [ofTree, statement_of_holds h, Outcome.ok_bind, sourceNames_of_holds h, Statement.meaning]
  cases (s.map Fin.val).sources.foldlM (FromItem.register tree.word) [] with
  | error e => rfl
  | ok names =>
    rw [Outcome.ok_bind, Outcome.ok_bind]
    cases tablesNamed catalog names with
    | error e => rfl
    | ok tables =>
      rw [Outcome.ok_bind, Outcome.ok_bind]
      exact meaning_ofScope h hnodup names tables registry settings

/-- The plan of a text means what the statement means that the text is read as. -/
theorem exists_meaning_of_ofText {catalog : Catalog} {registry : Registry} {settings : Settings}
    {text : String} {plan : Plan} (h : ofText catalog registry settings text = .ok plan) :
    ∃ (tree : Tree) (ts : List Token) (s : Statement (Fin tree.tokens.size)),
      tree.ReadAs settings.reading text ts s ∧
        (s.map Fin.val).meaning tree.word catalog registry settings = .ok plan.meaning := by
  obtain ⟨tree, htree, hplan⟩ := Outcome.bind_eq_ok h
  obtain ⟨ts, s, hread⟩ := Tree.exists_readAs_of_parse htree
  refine ⟨tree, ts, s, hread, ?_⟩
  rw [← meaning_ofTree hread.holds hread.nodup_params, hplan]
  rfl

end Plan

end SelectEngine
