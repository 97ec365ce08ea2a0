import SelectEngine.Proofs.Value.Written

/-!
# Literals in place of parameters mean the same

Two expressions agree under two lists of parameters if they have the same value on every row
(`Bound.Agree`). A statement and the one with literals in place of some of its parameters have
sources, columns and conditions that agree, where the literals stand for the values that those
parameters are bound to and the others keep their values (`Statement.agree_graft`). So where both
have plans, these have the same answer (`Plan.answer_eq_of_agree`).
-/

set_option autoImplicit false

namespace SelectEngine

open Grammar

variable {τ ρ : Type} {q p : Params}

/-! ## Expressions of one value -/

/-- On every row and at every depth, the one has under `q` the value that the other has under `p`,
or fails as it does. -/
def Bound.Agree (q p : Params) (e e' : Bound) : Prop :=
  ∀ (settings : Settings) (rows : CombinedRow) (depth : Nat),
    e.eval (Environment.onRows settings q rows) depth =
      e'.eval (Environment.onRows settings p rows) depth

namespace Bound

theorem agree_literal (reading : Except Error Value) :
    Agree q p (.literal reading) (.literal reading) := fun _ _ _ => rfl

theorem agree_column (ref : ColumnRef) : Agree q p (.column ref) (.column ref) := fun _ _ _ => rfl

theorem evalAll_agree {es es' : List Bound} (h : List.Forall₂ (Agree q p) es es')
    (settings : Settings) (rows : CombinedRow) (depth : Nat) :
    evalAll (Environment.onRows settings q rows) depth es =
      evalAll (Environment.onRows settings p rows) depth es' := by
  induction h with
  | nil => rfl
  | cons hfirst hrest ih =>
    rw [evalAll, evalAll, hfirst, ih]
    rfl

theorem agree_call (function : Function) {es es' : List Bound}
    (h : List.Forall₂ (Agree q p) es es') : Agree q p (.call function es) (.call function es') := by
  intro settings rows depth
  rw [eval, eval, evalAll_agree h]

theorem agree_operation (op : Operator) {es es' : List Bound}
    (h : List.Forall₂ (Agree q p) es es') : Agree q p (.operation op es) (.operation op es') := by
  intro settings rows depth
  rw [eval, eval, evalAll_agree h, h.length_eq]
  rfl

end Bound

/-! ## Expressions -/

theorem NodeType.id_ne_param : NodeType.id ≠ .param := by decide

/-- One binder finds for leaves what the other finds for those that they become, where a parameter
becomes a parameter of the same value or a literal of its value. -/
structure Binder.Grafts (β : Binder τ) (β' : Binder ρ) (f : τ → ρ) (g : τ → Expr ρ)
    (q p : Params) (held : List (Leaf τ)) : Prop where
  scope : β'.scope = β.scope
  registry : β'.registry = β.registry
  maxDepth : β'.maxDepth = β.maxDepth
  word : ∀ leaf ∈ held, leaf.1 ≠ .param → β'.word (f leaf.2) = β.word leaf.2
  param : ∀ leaf, (.param, leaf) ∈ held →
    g leaf = .param (f leaf) ∧ p.value (β'.ordinal (f leaf)) = q.value (β.ordinal leaf) ∨
      (g leaf).Denotes β'.word (q.value (β.ordinal leaf))

section

variable {β : Binder τ} {β' : Binder ρ} {f : τ → ρ} {g : τ → Expr ρ} {held : List (Leaf τ)}

theorem Binder.Grafts.parts (h : β.Grafts β' f g q p held) {parts : List τ}
    (hparts : ∀ leaf ∈ partLeaves parts, leaf ∈ held) :
    (parts.map f).map β'.word = parts.map β.word := by
  rw [List.map_map]
  refine List.map_congr_left fun part hpart => ?_
  exact h.word (.id, part) (hparts _ (List.mem_map_of_mem hpart)) NodeType.id_ne_param

theorem Binder.Grafts.column (h : β.Grafts β' f g q p held) {parts : List τ}
    (hparts : ∀ leaf ∈ partLeaves parts, leaf ∈ held) :
    β'.column (parts.map f) = β.column parts := by
  rw [Binder.column, Binder.column, h.parts hparts, h.scope]

namespace Expr

theorem length_graftAll (f : τ → ρ) (g : τ → Expr ρ) (es : List (Expr τ)) :
    (graftAll f g es).length = es.length := by
  rw [graftAll_eq_map, List.length_map]

mutual

theorem agree_bind (h : β.Grafts β' f g q p held) :
    ∀ (e : Expr τ) (depth : Nat) {b b' : Bound}, (∀ leaf ∈ e.leaves, leaf ∈ held) →
      e.bind β depth = .ok b → (e.graft f g).bind β' depth = .ok b' → Bound.Agree q p b b'
  | .text leaf, _, _, _, hmem, hb, hb' => by
    have hword := h.word (.text, leaf) (hmem _ List.mem_cons_self) nofun
    cases hb
    cases hb'
    rw [hword]
    exact Bound.agree_literal _
  | .number leaf, _, _, _, hmem, hb, hb' => by
    have hword := h.word (.number, leaf) (hmem _ List.mem_cons_self) nofun
    cases hb
    cases hb'
    rw [hword]
    exact Bound.agree_literal _
  | .null leaf, _, _, _, _, hb, hb' => by
    cases hb
    cases hb'
    exact Bound.agree_literal _
  | .param leaf, depth, _, _, hmem, hb, hb' => by
    cases hb
    rw [graft] at hb'
    -- What stands for the parameter is one of the same value or denotes this value.
    rcases h.param leaf (hmem _ List.mem_cons_self) with ⟨hg, hvalue⟩ | hdenotes
    · rw [hg] at hb'
      cases hb'
      exact fun settings rows depth => congrArg Except.ok hvalue.symm
    · rw [hdenotes.bind] at hb'
      cases hb'
      exact fun settings rows depth => rfl
  | .name parts, _, _, _, hmem, hb, hb' => by
    rw [graft, bind, h.column hmem] at hb'
    obtain ⟨ref, href, hb⟩ := Outcome.bind_eq_ok hb
    rw [href] at hb'
    cases hb
    cases hb'
    exact Bound.agree_column ref
  | .call function args, depth, _, _, hmem, hb, hb' => by
    rw [Expr.leaves, List.forall_mem_cons] at hmem
    have hword := h.word _ hmem.1 nofun
    -- Its name and the number of its arguments are kept, so the function is the same.
    have hfunction : β'.function (f function) (graftAll f g args).length =
        β.function function args.length := by
      rw [Binder.function, Binder.function, hword, h.registry, length_graftAll]
    rw [graft, bind, hfunction] at hb'
    obtain ⟨found, hfound, hb⟩ := Outcome.bind_eq_ok hb
    obtain ⟨-, -, hb⟩ := Outcome.bind_eq_ok hb
    obtain ⟨es, hes, hb⟩ := Outcome.bind_eq_ok hb
    obtain ⟨found', hfound', hb'⟩ := Outcome.bind_eq_ok hb'
    obtain ⟨-, -, hb'⟩ := Outcome.bind_eq_ok hb'
    obtain ⟨es', hes', hb'⟩ := Outcome.bind_eq_ok hb'
    cases hfound.symm.trans hfound'
    cases hb
    cases hb'
    exact Bound.agree_call found (agree_bindAll h args (depth + 1) hmem.2 hes hes')
  | .unary op operand, depth, _, _, hmem, hb, hb' => by
    obtain ⟨-, -, hb⟩ := Outcome.bind_eq_ok hb
    obtain ⟨b, hoperand, hb⟩ := Outcome.bind_eq_ok hb
    obtain ⟨-, -, hb'⟩ := Outcome.bind_eq_ok hb'
    obtain ⟨b', hoperand', hb'⟩ := Outcome.bind_eq_ok hb'
    cases hb
    cases hb'
    have hagree := agree_bind h operand (depth + 1) hmem hoperand hoperand'
    exact Bound.agree_operation op (.cons hagree .nil)
  | .binary op left right, depth, _, _, hmem, hb, hb' => by
    rw [Expr.leaves, List.forall_mem_append] at hmem
    obtain ⟨-, -, hb⟩ := Outcome.bind_eq_ok hb
    obtain ⟨l, hl, hb⟩ := Outcome.bind_eq_ok hb
    obtain ⟨r, hr, hb⟩ := Outcome.bind_eq_ok hb
    obtain ⟨-, -, hb'⟩ := Outcome.bind_eq_ok hb'
    obtain ⟨l', hl', hb'⟩ := Outcome.bind_eq_ok hb'
    obtain ⟨r', hr', hb'⟩ := Outcome.bind_eq_ok hb'
    cases hb
    cases hb'
    have hleft := agree_bind h left (depth + 1) hmem.1 hl hl'
    have hright := agree_bind h right (depth + 1) hmem.2 hr hr'
    exact Bound.agree_operation op (.cons hleft (.cons hright .nil))

theorem agree_bindAll (h : β.Grafts β' f g q p held) :
    ∀ (es : List (Expr τ)) (depth : Nat) {bs bs' : List Bound},
      (∀ leaf ∈ leavesAll es, leaf ∈ held) → bindAll β depth es = .ok bs →
      bindAll β' depth (graftAll f g es) = .ok bs' → List.Forall₂ (Bound.Agree q p) bs bs'
  | [], _, _, _, _, hbs, hbs' => by
    cases hbs
    cases hbs'
    exact .nil
  | e :: es, depth, _, _, hmem, hbs, hbs' => by
    rw [leavesAll, List.forall_mem_append] at hmem
    obtain ⟨b, hb, hbs⟩ := Outcome.bind_eq_ok hbs
    obtain ⟨rest, hrest, hbs⟩ := Outcome.bind_eq_ok hbs
    obtain ⟨b', hb', hbs'⟩ := Outcome.bind_eq_ok hbs'
    obtain ⟨rest', hrest', hbs'⟩ := Outcome.bind_eq_ok hbs'
    cases hbs
    cases hbs'
    exact .cons (agree_bind h e depth hmem.1 hb hb') (agree_bindAll h es depth hmem.2 hrest hrest')

end

theorem agree_typed (h : β.Grafts β' f g q p held) {e : Expr τ} {found found' : Bound × DataType}
    (hmem : ∀ leaf ∈ e.leaves, leaf ∈ held) (hfound : e.typed β = .ok found)
    (hfound' : (e.graft f g).typed β' = .ok found') : Bound.Agree q p found.1 found'.1 := by
  obtain ⟨b, hb, hfound⟩ := Outcome.bind_eq_ok hfound
  obtain ⟨t, -, hfound⟩ := Outcome.bind_eq_ok hfound
  obtain ⟨b', hb', hfound'⟩ := Outcome.bind_eq_ok hfound'
  obtain ⟨t', -, hfound'⟩ := Outcome.bind_eq_ok hfound'
  cases hfound
  cases hfound'
  exact agree_bind h e 0 hmem hb hb'

theorem agree_condition (h : β.Grafts β' f g q p held) {e : Expr τ} {b b' : Bound}
    (hmem : ∀ leaf ∈ e.leaves, leaf ∈ held) (hb : e.condition β = .ok b)
    (hb' : (e.graft f g).condition β' = .ok b') : Bound.Agree q p b b' := by
  obtain ⟨found, hfound, hb⟩ := Outcome.bind_eq_ok hb
  obtain ⟨found', hfound', hb'⟩ := Outcome.bind_eq_ok hb'
  have hagree := agree_typed h hmem hfound hfound'
  split at hb
  · split at hb'
    · cases hb
      cases hb'
      exact hagree
    · cases hb'
  · cases hb

end Expr

/-! ## Columns -/

/-- Columns of expressions that agree, whatever they are called. -/
def Output.AllAgree (q p : Params) : List Output → List Output → Prop :=
  List.Forall₂ fun o o' => Bound.Agree q p o.expression o'.expression

namespace Output

/-- Columns of the same source agree under any names. -/
theorem allAgree_data (given : Option String) (refs : List ColumnRef) :
    AllAgree q p (refs.map (data given)) (refs.map (data given)) :=
  List.forall₂_same.mpr fun o ho => by
    obtain ⟨ref, -, rfl⟩ := List.mem_map.mp ho
    exact Bound.agree_column ref

theorem allAgree_named {settings : Settings} {given : Option String} {generated generated' : Nat}
    {output output' : String → Output}
    (h : ∀ name name', Bound.Agree q p (output name).expression (output' name').expression) :
    AllAgree q p (named settings given generated output).1
      (named settings given generated' output').1 := by
  cases given with
  | none => exact .cons (h _ _) .nil
  | some name => exact .cons (h _ _) .nil

end Output

open Output

theorem Expr.agree_outputs (h : β.Grafts β' f g q p held) (settings : Settings)
    (given : Option String) {generated generated' : Nat} (e : Expr τ)
    {found found' : List Output × Nat} (hmem : ∀ leaf ∈ e.leaves, leaf ∈ held)
    (hfound : e.outputs β settings given generated = .ok found)
    (hfound' : (e.graft f g).outputs β' settings given generated' = .ok found') :
    AllAgree q p found.1 found'.1 := by
  -- An operator or a call is bound as a whole.
  have hcomputed : ∀ {e : Expr τ}, (∀ leaf ∈ e.leaves, leaf ∈ held) →
      (e.typed β >>= fun found => .ok (named settings given generated fun name =>
        ⟨Column.ofType name found.2, found.1⟩)) = .ok found →
      ((e.graft f g).typed β' >>= fun found => .ok (named settings given generated' fun name =>
        ⟨Column.ofType name found.2, found.1⟩)) = .ok found' →
      AllAgree q p found.1 found'.1 := by
    intro e hmem hfound hfound'
    obtain ⟨typed, htyped, hfound⟩ := Outcome.bind_eq_ok hfound
    obtain ⟨typed', htyped', hfound'⟩ := Outcome.bind_eq_ok hfound'
    cases hfound
    cases hfound'
    exact allAgree_named fun _ _ => Expr.agree_typed h hmem htyped htyped'
  cases e with
  | text leaf =>
    have hword := h.word (.text, leaf) (hmem _ List.mem_cons_self) nofun
    rw [Expr.graft, Expr.outputs, hword] at hfound'
    cases hfound
    cases hfound'
    exact allAgree_named fun _ _ => Bound.agree_literal _
  | number leaf =>
    have hword := h.word (.number, leaf) (hmem _ List.mem_cons_self) nofun
    rw [Expr.graft, Expr.outputs, hword] at hfound'
    obtain ⟨v, hv, hfound⟩ := Outcome.bind_eq_ok hfound
    rw [hv] at hfound'
    cases hfound
    cases hfound'
    exact allAgree_named fun _ _ => Bound.agree_literal _
  | null leaf =>
    cases hfound
    cases hfound'
    exact allAgree_named fun _ _ => Bound.agree_literal _
  | param leaf =>
    cases hfound
    rw [Expr.graft] at hfound'
    rcases h.param leaf (hmem _ List.mem_cons_self) with ⟨hg, hvalue⟩ | hdenotes
    · rw [hg] at hfound'
      cases hfound'
      exact allAgree_named fun _ _ _ _ _ => congrArg Except.ok hvalue.symm
    · rw [hdenotes.outputs] at hfound'
      cases hfound'
      exact allAgree_named fun _ _ _ _ _ => rfl
  | name parts =>
    rw [Expr.graft, Expr.outputs, h.column hmem] at hfound'
    obtain ⟨ref, href, hfound⟩ := Outcome.bind_eq_ok hfound
    rw [href] at hfound'
    cases hfound
    cases hfound'
    exact allAgree_data given [ref]
  | call function args => exact hcomputed (e := .call function args) hmem hfound hfound'
  | unary op operand => exact hcomputed (e := .unary op operand) hmem hfound hfound'
  | binary op left right => exact hcomputed (e := .binary op left right) hmem hfound hfound'

theorem Attribute.agree_outputs (h : β.Grafts β' f g q p held) (settings : Settings)
    {generated generated' : Nat} (a : Attribute τ) {found found' : List Output × Nat}
    (hmem : ∀ leaf ∈ a.leaves, leaf ∈ held)
    (hfound : a.outputs β settings generated = .ok found)
    (hfound' : (a.graft f g).outputs β' settings generated' = .ok found') :
    AllAgree q p found.1 found'.1 := by
  cases a with
  | star leaf =>
    rw [Attribute.graft, Attribute.outputs, h.scope] at hfound'
    obtain ⟨refs, hrefs, hfound⟩ := Outcome.bind_eq_ok hfound
    rw [hrefs] at hfound'
    cases hfound
    cases hfound'
    exact allAgree_data none refs
  | starOf parts leaf =>
    rw [Attribute.leaves, List.forall_mem_append] at hmem
    rw [Attribute.graft, Attribute.outputs, h.scope, h.parts hmem.1] at hfound'
    obtain ⟨source, hsource, hfound⟩ := Outcome.bind_eq_ok hfound
    obtain ⟨refs, hrefs, hfound⟩ := Outcome.bind_eq_ok hfound
    rw [hsource, Outcome.ok_bind, hrefs] at hfound'
    cases hfound
    cases hfound'
    exact allAgree_data none refs
  | value e naming =>
    rw [Attribute.leaves, List.forall_mem_append] at hmem
    have hnaming : (naming.map (Naming.map f)).map (fun n => β'.word n.name) =
        naming.map fun n => β.word n.name := by
      cases naming with
      | none => rfl
      | some n =>
        have hname : (NodeType.id, n.name) ∈ namingLeaves (some n) :=
          List.mem_append_right _ List.mem_cons_self
        exact congrArg some (h.word _ (hmem.2 _ hname) NodeType.id_ne_param)
    rw [Attribute.graft, Attribute.outputs, hnaming] at hfound'
    exact Expr.agree_outputs h settings _ e hmem.1 hfound hfound'

theorem Attribute.agree_outputsAll (h : β.Grafts β' f g q p held) (settings : Settings)
    (as : List (Attribute τ)) {generated generated' : Nat} {found found' : List Output × Nat}
    (hmem : ∀ leaf ∈ as.flatMap Attribute.leaves, leaf ∈ held)
    (hfound : Attribute.outputsAll β settings generated as = .ok found)
    (hfound' : Attribute.outputsAll β' settings generated' (as.map (Attribute.graft f g)) =
      .ok found') :
    AllAgree q p found.1 found'.1 := by
  induction as generalizing generated generated' found found' with
  | nil =>
    cases hfound
    cases hfound'
    exact .nil
  | cons a as ih =>
    rw [List.flatMap_cons, List.forall_mem_append] at hmem
    obtain ⟨first, hfirst, hfound⟩ := Outcome.bind_eq_ok hfound
    obtain ⟨more, hmore, hfound⟩ := Outcome.bind_eq_ok hfound
    obtain ⟨first', hfirst', hfound'⟩ := Outcome.bind_eq_ok hfound'
    obtain ⟨more', hmore', hfound'⟩ := Outcome.bind_eq_ok hfound'
    cases hfound
    cases hfound'
    exact List.rel_append (Attribute.agree_outputs h settings a hmem.1 hfirst hfirst')
      (ih hmem.2 hmore hmore')

end

/-! ## Statements -/

/-- The same sources, and columns and conditions that agree. -/
structure Meaning.Agree (q p : Params) (m m' : Meaning) : Prop where
  sources : m.sources = m'.sources
  outputs : Output.AllAgree q p m.outputs m'.outputs
  condition : Option.Rel (Bound.Agree q p) m.condition m'.condition

namespace Statement

variable {f : τ → ρ} {g : τ → Expr ρ} {word : τ → String} {word' : ρ → String} {s : Statement τ}

/-- The same names are registered for sources of the same words. -/
theorem foldlM_register (sources : List (FromItem τ)) (names : List SourceName)
    (hword : ∀ leaf ∈ sources.flatMap FromItem.leaves, leaf.1 ≠ .param →
      word' (f leaf.2) = word leaf.2) :
    (sources.map (FromItem.map f)).foldlM (FromItem.register word') names =
      sources.foldlM (FromItem.register word) names := by
  induction sources generalizing names with
  | nil => rfl
  | cons source sources ih =>
    rw [List.flatMap_cons, List.forall_mem_append, FromItem.leaves, List.forall_mem_append] at hword
    obtain ⟨⟨hparts, hnaming⟩, hothers⟩ := hword
    have hsource : FromItem.register word' names (source.map f) =
        FromItem.register word names source := by
      obtain ⟨parts, naming⟩ := source
      have hwords : (parts.map f).map word' = parts.map word := by
        rw [List.map_map]
        exact List.map_congr_left fun part hpart =>
          hparts (.id, part) (List.mem_map_of_mem hpart) NodeType.id_ne_param
      rw [FromItem.register, FromItem.register, FromItem.map, hwords]
      cases naming with
      | none => rfl
      | some n =>
        have hname : (NodeType.id, n.name) ∈ namingLeaves (some n) :=
          List.mem_append_right _ List.mem_cons_self
        have heq : word' (f n.name) = word n.name := hnaming _ hname NodeType.id_ne_param
        simp only [Option.map_some, Naming.map, heq]
    rw [List.map_cons, List.foldlM_cons, List.foldlM_cons, hsource]
    congr 1
    funext names
    exact ih names hothers

/-- Statements of which one has literals in place of parameters mean the same under the values that
the literals stand for. -/
theorem agree_graft [DecidableEq τ] [DecidableEq ρ] {catalog : Memory.Catalog} {registry : Registry}
    {settings : Settings} {m m' : Meaning}
    (hword : ∀ leaf ∈ s.leaves, leaf.1 ≠ .param → word' (f leaf.2) = word leaf.2)
    (hparam : ∀ leaf ∈ s.params,
      g leaf = .param (f leaf) ∧ p.value ((s.graft f g).params.idxOf (f leaf) + 1) =
          q.value (s.params.idxOf leaf + 1) ∨
        (g leaf).Denotes word' (q.value (s.params.idxOf leaf + 1)))
    (hm : s.meaning word catalog registry settings = .ok m)
    (hm' : (s.graft f g).meaning word' catalog registry settings = .ok m') :
    Meaning.Agree q p m m' := by
  have hnames := foldlM_register s.sources [] (f := f) fun leaf hleaf =>
    hword leaf (mem_leaves_of_sources hleaf)
  obtain ⟨names, hfound, hm⟩ := Outcome.bind_eq_ok hm
  obtain ⟨tables, htables, hm⟩ := Outcome.bind_eq_ok hm
  obtain ⟨names', hfound', hm'⟩ := Outcome.bind_eq_ok hm'
  obtain ⟨tables', htables', hm'⟩ := Outcome.bind_eq_ok hm'
  obtain rfl : names = names' := Except.ok.inj (hfound.symm.trans (hnames.symm.trans hfound'))
  obtain rfl : tables = tables' := Except.ok.inj (htables.symm.trans htables')
  have hgrafts : (s.binder word names tables registry settings).Grafts
      ((s.graft f g).binder word' names tables registry settings) f g q p s.leaves :=
    { scope := rfl
      registry := rfl
      maxDepth := rfl
      word := hword
      param := fun leaf hleaf => hparam leaf
        (List.mem_filterMap.mpr ⟨_, hleaf, by simp⟩) }
  obtain ⟨outputs, houtputs, hm⟩ := Outcome.bind_eq_ok hm
  obtain ⟨outputs', houtputs', hm'⟩ := Outcome.bind_eq_ok hm'
  have hcolumns := Attribute.agree_outputsAll hgrafts settings s.attributes
    (fun leaf hleaf => mem_leaves_of_attributes hleaf) houtputs houtputs'
  cases hr : s.restriction with
  | none =>
    have hr' : (s.graft f g).restriction = none := congrArg (Option.map _) hr
    rw [hr] at hm
    rw [hr'] at hm'
    cases hm
    cases hm'
    exact ⟨rfl, hcolumns, .none⟩
  | some r =>
    have hr' : (s.graft f g).restriction = some (r.graft f g) := congrArg (Option.map _) hr
    rw [hr] at hm
    rw [hr'] at hm'
    obtain ⟨b, hb, hm⟩ := Outcome.bind_eq_ok hm
    obtain ⟨b', hb', hm'⟩ := Outcome.bind_eq_ok hm'
    cases hm
    cases hm'
    refine ⟨rfl, hcolumns, .some (Expr.agree_condition hgrafts (fun leaf hleaf => ?_) hb hb')⟩
    rw [leaves, hr]
    exact List.mem_append_right _ (List.mem_cons_of_mem _ hleaf)

end Statement

/-! ## Answers -/

namespace Plan

variable {plan plan' : Plan}

theorem holds_eq_of_agree
    (hcondition : Option.Rel (Bound.Agree q p) (plan.predicate.map Prod.snd)
      (plan'.predicate.map Prod.snd)) (settings : Settings) (rows : CombinedRow) :
    plan.holds (Environment.onRows settings q rows) =
      plan'.holds (Environment.onRows settings p rows) := by
  unfold holds
  cases hpredicate : plan.predicate with
  | none =>
    cases hpredicate' : plan'.predicate with
    | none => rfl
    | some found =>
      rw [hpredicate, hpredicate'] at hcondition
      cases hcondition
  | some found =>
    cases hpredicate' : plan'.predicate with
    | none =>
      rw [hpredicate, hpredicate'] at hcondition
      cases hcondition
    | some found' =>
      rw [hpredicate, hpredicate'] at hcondition
      cases hcondition with
      | some hagree =>
        dsimp only
        rw [hagree settings rows 0]

theorem evalAll_eq_of_agree {fields fields' : List Field}
    (h : Output.AllAgree q p (fields.map Field.output) (fields'.map Field.output))
    (settings : Settings) (rows : CombinedRow) :
    Field.evalAll (Environment.onRows settings q rows) fields =
      Field.evalAll (Environment.onRows settings p rows) fields' := by
  induction fields generalizing fields' with
  | nil =>
    cases fields' with
    | nil => rfl
    | cons field' fields' => cases h
  | cons field fields ih =>
    cases fields' with
    | nil => cases h
    | cons field' fields' =>
      obtain ⟨hfirst, hrest⟩ := List.forall₂_cons.mp h
      have heval : field.expression.eval (Environment.onRows settings q rows) 0 =
          field'.expression.eval (Environment.onRows settings p rows) 0 := hfirst settings rows 0
      rw [Field.evalAll, Field.evalAll, Field.eval_expression, Field.eval_expression, heval,
        ih hrest]

/-- Of the same combined rows, plans with columns and conditions that agree make the same rows. -/
theorem rowsOf_eq_of_agree
    (houtputs : Output.AllAgree q p (plan.fields.map Field.output) (plan'.fields.map Field.output))
    (hcondition : Option.Rel (Bound.Agree q p) (plan.predicate.map Prod.snd)
      (plan'.predicate.map Prod.snd)) (settings : Settings) (combined : List CombinedRow) :
    plan.rowsOf settings q combined = plan'.rowsOf settings p combined := by
  induction combined with
  | nil => rfl
  | cons rows rest ih =>
    simp only [rowsOf, holds_eq_of_agree hcondition settings rows,
      evalAll_eq_of_agree houtputs settings rows, ih]

/-- Plans that mean the same have the same answer. -/
theorem answer_eq_of_agree (h : Meaning.Agree q p plan.meaning plan'.meaning)
    (catalog : Memory.Catalog) (settings : Settings) :
    plan.answer catalog settings q = plan'.answer catalog settings p := by
  have hsources : plan.sources = plan'.sources := h.sources
  rw [answer, answer, rowsOf_eq_of_agree h.outputs h.condition, hsources]

end Plan

end SelectEngine
