import Mathlib.Data.List.Nodup
import SelectEngine.Function.Builtin
import SelectEngine.Proofs.Memory.Fetch
import SelectEngine.Proofs.Plan.Gives
import SelectEngine.Proofs.Plan.Meaning
import SelectEngine.Proofs.Plan.Resolved
import SelectEngine.Proofs.Tree.Covered
import SelectEngine.Proofs.Tree.Literal

/-!
# Parameters are bound as the text numbers them

The marks of a text are its parameters, and the nodes of its parameters are those that its plan
lists (`Plan.Numbered`). A bound expression has the numbers of the parameters that stand below its
node, from left to right (`Tree.Has.ordinals_of_matches`), and so has a SELECT list
(`Resolver.selectAll_gains`), so that over any backend the fields and the condition of a plan ask
for the parameters one, two and so on in the order of the text (`Cursor.plan_numbered`).
-/

set_option autoImplicit false

namespace SelectEngine

open Grammar

variable {S σ γ : Type}

/-! ## Lists without repetitions -/

theorem eraseDups_of_nodup {α : Type} [DecidableEq α] {l : List α} (h : l.Nodup) :
    l.eraseDups = l := by
  induction l with
  | nil => rfl
  | cons a l ih =>
    obtain ⟨hfresh, hrest⟩ := List.nodup_cons.mp h
    have hkept : (l.filter fun b => !b == a) = l :=
      List.filter_eq_self.mpr fun b hb => by
        have hne : b ≠ a := fun heq => hfresh (heq ▸ hb)
        simpa using hne
    rw [List.eraseDups_cons, hkept, ih hrest]

/-- Each element of a list without repetitions is found at its own place. -/
theorem map_idxOf_of_nodup {α : Type} [DecidableEq α] {l : List α} (h : l.Nodup) :
    (l.map fun a => l.idxOf a + 1) = List.range' 1 l.length := by
  apply List.ext_getElem (by simp)
  intro i hi hi'
  rw [List.getElem_map, List.getElem_range', h.idxOf_getElem]
  omega

/-! ## The parameters of an expression -/

mutual

/-- The numbers of the parameters of an expression, from left to right. -/
def Bound.ordinals : Bound → List Nat
  | .param ordinal => [ordinal]
  | .call _ args => Bound.ordinalsOfAll args
  | .operation _ operands => Bound.ordinalsOfAll operands
  | .literal _ | .column _ | .unbound _ _ | .other _ => []

def Bound.ordinalsOfAll : List Bound → List Nat
  | [] => []
  | e :: es => e.ordinals ++ Bound.ordinalsOfAll es

end

namespace Tree

/-- The nodes of the parameters of a branch, from left to right. -/
def paramsBelow (t : Tree) (b : Branch) : List NodeId :=
  b.preorder.filter fun id => (t.kind id).type == .param

def paramsBelowAll (t : Tree) (bs : List Branch) : List NodeId :=
  (Branch.preorders bs).filter fun id => (t.kind id).type == .param

variable {t : Tree} {id : NodeId} {k : NodeKind} {b : Branch} {bs : List Branch}

theorem paramsBelowAll_nil (t : Tree) : t.paramsBelowAll [] = [] := rfl

theorem paramsBelowAll_cons (t : Tree) (b : Branch) (bs : List Branch) :
    t.paramsBelowAll (b :: bs) = t.paramsBelow b ++ t.paramsBelowAll bs := by
  rw [paramsBelowAll, Branch.preorders, List.filter_append]
  rfl

/-- A node that is no parameter has the parameters below it. -/
theorem Has.paramsBelow_node (h : t.Has (.node id k bs)) (hk : k.type ≠ .param) :
    t.paramsBelow (.node id k bs) = t.paramsBelowAll bs := by
  rw [paramsBelow, Branch.preorder, List.filter_cons_of_neg (by simpa [h.kind] using hk)]
  rfl

theorem Has.paramsBelow_param {leaf : TokenId} (h : t.Has (.node id (.param leaf) [])) :
    t.paramsBelow (.node id (.param leaf) []) = [id] := by
  rw [paramsBelow, Branch.preorder, List.filter_cons_of_pos (by rw [h.kind]; rfl)]
  rfl

/-- The nodes of the parameters of a branch carry the parameters among its leaves. -/
theorem Has.map_kind_paramsBelow (h : t.Has b) :
    (t.paramsBelow b).map t.kind = (paramsAmong b.leaves).map NodeKind.param := by
  rw [← h.params, paramsBelow]
  induction b.preorder with
  | nil => rfl
  | cons id ids ih =>
    cases hkind : t.kind id with
    | param leaf => simpa [List.filter_cons, List.filterMap_cons, hkind, NodeKind.param?,
        NodeKind.type] using ih
    | _ => simpa [List.filter_cons, List.filterMap_cons, hkind, NodeKind.param?, NodeKind.type]
        using ih

/-- A branch without a parameter among its leaves has no node of one. -/
theorem Has.paramsBelow_eq_nil (h : t.Has b) (hleaves : paramsAmong b.leaves = []) :
    t.paramsBelow b = [] := by
  have hmap := h.map_kind_paramsBelow
  rw [hleaves] at hmap
  exact List.map_eq_nil_iff.mp hmap

theorem paramsBelowAll_eq_nil (h : ∀ b ∈ bs, t.Has b)
    (hleaves : paramsAmong (Branch.leavesAll bs) = []) : t.paramsBelowAll bs = [] := by
  induction bs with
  | nil => rfl
  | cons b bs ih =>
    obtain ⟨hfirst, hrest⟩ := List.forall_mem_cons.mp h
    rw [Branch.leavesAll, paramsAmong_append, List.append_eq_nil_iff] at hleaves
    rw [paramsBelowAll_cons, hfirst.paramsBelow_eq_nil hleaves.1, ih hrest hleaves.2,
      List.append_nil]

end Tree

theorem paramsAmong_partLeaves (parts : List TokenId) : paramsAmong (partLeaves parts) = [] := by
  induction parts with
  | nil => rfl
  | cons part parts ih => exact ih

/-- A FROM list has no parameters. -/
theorem paramsAmong_sourceLeaves (sources : List (FromItem TokenId)) :
    paramsAmong (sources.flatMap FromItem.leaves) = [] := by
  induction sources with
  | nil => rfl
  | cons source sources ih =>
    obtain ⟨parts, naming⟩ := source
    rw [List.flatMap_cons, paramsAmong_append, ih, FromItem.leaves, paramsAmong_append,
      paramsAmong_partLeaves]
    rcases naming with _ | ⟨_ | keyword, name⟩ <;> rfl

namespace Tree

variable {r : Resolver (Run S)}

mutual

/-- A bound expression has the numbers of the parameters below its node, from left to right. -/
theorem Has.ordinals_of_matches (depth : Nat) : ∀ (n : Nat) (e : Expr TokenId) (bound : Bound),
    r.tree.Has (e.branch n) → r.Matches depth (e.branch n) bound →
      bound.ordinals = (r.tree.paramsBelow (e.branch n)).map r.ordinal
  | n, .text _, _, h, hmatch | n, .number _, _, h, hmatch | n, .null _, _, h, hmatch => by
    cases hmatch
    rw [h.paramsBelow_eq_nil rfl]
    rfl
  | n, .param leaf, bound, h, hmatch => by
    cases hmatch
    rw [Expr.branch, Has.paramsBelow_param h]
    rfl
  | n, .name parts, bound, h, hmatch => by
    obtain ⟨ref, rfl⟩ := hmatch
    rw [h.paramsBelow_eq_nil (by rw [Expr.leaves_branch]; exact paramsAmong_partLeaves parts)]
    rfl
  | n, .call function args, bound, h, hmatch => by
    obtain ⟨-, f, parts, ⟨name, rest, rfl, hname, hrest⟩, rfl⟩ := hmatch
    have hparts : ∀ b ∈ Expr.branches (n + 1) args, r.tree.Has b :=
      fun b hb => h.below (List.mem_cons_of_mem _ hb)
    have hnone := (h.below List.mem_cons_self).paramsBelow_eq_nil rfl
    rw [Expr.branch] at h ⊢
    rw [h.paramsBelow_node nofun, paramsBelowAll_cons, hnone, List.nil_append]
    exact Has.ordinalsOfAll_of_matches (depth + 1) (n + 1) args rest hparts hrest
  | n, .unary op operand, bound, h, hmatch => by
    obtain ⟨-, operands, ⟨e, rest, rfl, he, rfl⟩, rfl⟩ := hmatch
    have hoperand := Has.ordinals_of_matches (depth + 1) n operand e
      (h.below List.mem_cons_self) he
    rw [Expr.branch] at h ⊢
    rw [h.paramsBelow_node nofun, paramsBelowAll_cons, paramsBelowAll_nil, List.append_nil,
      ← hoperand]
    exact List.append_nil _
  | n, .binary op left right, bound, h, hmatch => by
    obtain ⟨-, operands, ⟨l, _, rfl, hl, e, rest, rfl, he, rfl⟩, rfl⟩ := hmatch
    have hleft := Has.ordinals_of_matches (depth + 1) n left l (h.below List.mem_cons_self) hl
    have hright := Has.ordinals_of_matches (depth + 1) (n + left.size) right e
      (h.below (List.mem_cons_of_mem _ List.mem_cons_self)) he
    rw [Expr.branch] at h ⊢
    rw [h.paramsBelow_node nofun, paramsBelowAll_cons, paramsBelowAll_cons,
      paramsBelowAll_nil, List.append_nil, List.map_append, ← hleft, ← hright]
    exact congrArg (l.ordinals ++ ·) (List.append_nil _)

theorem Has.ordinalsOfAll_of_matches (depth : Nat) :
    ∀ (n : Nat) (es : List (Expr TokenId)) (bounds : List Bound),
      (∀ b ∈ Expr.branches n es, r.tree.Has b) →
      r.MatchesAll depth (Expr.branches n es) bounds →
      Bound.ordinalsOfAll bounds = (r.tree.paramsBelowAll (Expr.branches n es)).map r.ordinal
  | _, [], _, _, hmatch => by
    cases hmatch
    rfl
  | n, e :: es, _, h, hmatch => by
    obtain ⟨bound, rest, rfl, hfirst, hrest⟩ := hmatch
    rw [Expr.branches] at h ⊢
    obtain ⟨hhas, hothers⟩ := List.forall_mem_cons.mp h
    rw [paramsBelowAll_cons, List.map_append,
      ← Has.ordinals_of_matches depth n e bound hhas hfirst,
      ← Has.ordinalsOfAll_of_matches depth (n + e.size) es rest hothers hrest]
    rfl

end

end Tree

/-! ## The parameters of a SELECT list -/

namespace Resolver

/-- The fields have the numbers of the nodes, from left to right, and a computed field those of the
parameters below its own node. -/
structure Numbers (r : Resolver (Run S)) (fields : List Field) (nodes : List NodeId) : Prop where
  ordinals : fields.flatMap (fun f => f.expression.ordinals) = nodes.map r.ordinal
  computed : ∀ f ∈ fields, ∀ id e, f.kind = .computed id e →
    e.ordinals = (r.tree.paramsBelow (r.tree.branch id)).map r.ordinal

/-- The computation adds fields with the numbers of the nodes behind those found so far. -/
def Gains (r : Resolver (Run S)) (x : StateT Selection (Run S) Unit) (nodes : List NodeId) : Prop :=
  ∀ s : Selection, Run.Returns (x.run s) fun result =>
    ∃ fields, result.2.fields = s.fields ++ fields ∧ r.Numbers fields nodes

variable {r : Resolver (Run S)} {x y : StateT Selection (Run S) Unit} {nodes others : List NodeId}
variable {n : Nat}

theorem numbers_nil (r : Resolver (Run S)) : r.Numbers [] [] :=
  ⟨rfl, fun _ hf => absurd hf List.not_mem_nil⟩

theorem numbers_data (r : Resolver (Run S)) (refs : List ColumnRef) :
    r.Numbers (refs.map Field.data) [] := by
  refine ⟨?_, fun f hf id e hcomputed => ?_⟩
  · rw [List.flatMap_map]
    exact List.flatMap_eq_nil_iff.mpr fun ref _ => rfl
  · obtain ⟨ref, -, rfl⟩ := List.mem_map.mp hf
    cases hcomputed

theorem Numbers.append {fields more : List Field} (h : r.Numbers fields nodes)
    (hmore : r.Numbers more others) : r.Numbers (fields ++ more) (nodes ++ others) := by
  refine ⟨by rw [List.flatMap_append, List.map_append, h.ordinals, hmore.ordinals],
    fun f hf => ?_⟩
  rcases List.mem_append.mp hf with hf | hf
  · exact h.computed f hf
  · exact hmore.computed f hf

theorem gains_append (hx : r.Gains x nodes) (hy : r.Gains y others) :
    r.Gains (x >>= fun _ => y) (nodes ++ others) := by
  refine (gives_append hx hy).mono ?_
  rintro _ ⟨front, back, rfl, hfront, hback⟩
  exact hfront.append hback

/-- The expression of a branch has the numbers of the parameters below its node. -/
theorem resolve_numbers {e : Expr TokenId} (h : r.tree.Has (e.branch n)) :
    Run.ReturnsWith (r.resolve 0 (e.branch n)) fun bound =>
      bound.ordinals = (r.tree.paramsBelow (e.branch n)).map r.ordinal :=
  (resolve_matches 0 (e.branch n)).mono (h.ordinals_of_matches 0 n e)

theorem select_expr_gains (settings : Settings) (n : Nat) (e : Expr TokenId)
    (h : r.tree.Has (e.branch n)) :
    r.Gains (r.select settings (e.branch n)) (r.tree.paramsBelow (e.branch n)) := by
  refine (gives_expression (resolve_numbers h)).mono ?_
  rintro _ ⟨f, rfl, hordinals, hkind⟩
  refine ⟨by rw [List.flatMap_singleton]; exact hordinals, fun g hg id bound hcomputed => ?_⟩
  cases List.mem_singleton.mp hg
  rw [Field.expression, hcomputed] at hordinals
  rw [hkind id bound hcomputed, h.2]
  exact hordinals

theorem selectStar_gains (r : Resolver (Run S)) (b : Branch) : r.Gains (r.selectStar b) [] := by
  unfold selectStar
  split
  · exact gives_relay fun source _ => gives_lift (Run.returns_any _) fun refs _ =>
      gives_columns refs (numbers_data r refs)
  · exact gives_lift (Run.returns_any _) fun refs _ => gives_columns refs (numbers_data r refs)

theorem select_gains (settings : Settings) (n : Nat) (a : Attribute TokenId)
    (h : r.tree.Has (a.branch n)) :
    r.Gains (r.select settings (a.branch n)) (r.tree.paramsBelow (a.branch n)) := by
  rcases a with leaf | ⟨parts, leaf⟩ | ⟨e, _ | naming⟩
  · rw [h.paramsBelow_eq_nil rfl, Attribute.branch, select]
    exact selectStar_gains r _
  · have hnone : paramsAmong ((Attribute.starOf parts leaf).branch n).leaves = [] := by
      rw [Attribute.leaves_branch, Attribute.leaves, paramsAmong_append, paramsAmong_partLeaves]
      rfl
    rw [h.paramsBelow_eq_nil hnone, Attribute.branch, select]
    exact selectStar_gains r _
  · exact select_expr_gains settings n e h
  · have hvalue := h.below List.mem_cons_self
    have hname : paramsAmong (Branch.leavesAll (naming.keywordBranches (n + e.size) ++
        [.node (n + (e.size + naming.keywordSize)) (.id naming.name) []])) = [] := by
      obtain ⟨_ | keyword, name⟩ := naming <;> rfl
    have hnone := Tree.paramsBelowAll_eq_nil
      (fun b hb => h.below (List.mem_cons_of_mem _ hb)) hname
    rw [Attribute.branch] at h ⊢
    rw [h.paramsBelow_node (by decide), Tree.paramsBelowAll_cons, hnone, List.append_nil, select]
    exact gives_relay fun named _ => gives_renamed (select_expr_gains settings n e hvalue)

/-- The induction is on the attributes, which add their fields one behind the other. -/
theorem selectAll_gains (settings : Settings) (n : Nat) (as : List (Attribute TokenId))
    (h : ∀ b ∈ branchesFrom Attribute.size Attribute.branch n as, r.tree.Has b) :
    r.Gains (r.selectAll settings (branchesFrom Attribute.size Attribute.branch n as))
      (r.tree.paramsBelowAll (branchesFrom Attribute.size Attribute.branch n as)) := by
  induction as generalizing n with
  | nil =>
    intro s
    exact Run.returns_pure ⟨[], (List.append_nil _).symm, numbers_nil r⟩
  | cons a as ih =>
    rw [branchesFrom] at h ⊢
    obtain ⟨hfirst, hothers⟩ := List.forall_mem_cons.mp h
    rw [selectAll, Tree.paramsBelowAll_cons]
    exact gains_append (select_gains settings n a hfirst) (ih _ hothers)

theorem select_list_gains (settings : Settings) {s : Statement TokenId}
    (h : r.tree.Has (s.listBranch n)) :
    r.Gains (r.select settings (s.listBranch n)) (r.tree.paramsBelow (s.listBranch n)) := by
  rw [Statement.listBranch] at h ⊢
  rw [select, h.paramsBelow_node (by decide)]
  exact selectAll_gains settings n s.attributes fun b hb => h.below hb

end Resolver

/-! ## The parameters of a plan -/

namespace Plan

/-- The number of the node of a parameter, counted from one. -/
def ordinal (p : Plan) (id : NodeId) : Nat := p.params.idxOf id + 1

/-- The expressions that a plan evaluates, each with its node. -/
def expressions (p : Plan) : List (NodeId × Bound) :=
  (p.fields.filterMap fun f => match f.kind with
    | .computed id e => some (id, e)
    | _ => none) ++ p.predicate.toList

/-- The numbers of the parameters in the fields and in the condition, from left to right. -/
def ordinals (p : Plan) : List Nat :=
  (p.fields.flatMap fun f => f.expression.ordinals) ++
    (p.predicate.toList.flatMap fun found => found.2.ordinals)

/-- The plan asks for the parameters below a branch of its tree, in their order and by the numbers
of their nodes. -/
structure Follows (p : Plan) (b : Branch) : Prop where
  params : p.params = paramNodes p.tree b
  ordinals : p.ordinals = (p.tree.paramsBelow b).map p.ordinal
  expressions : ∀ found ∈ p.expressions,
    found.2.ordinals = (p.tree.paramsBelow (p.tree.branch found.1)).map p.ordinal

/-- The parameters of a statement are those of its SELECT list and those of its condition. -/
theorem paramsBelow_statement {t : Tree} {s : Statement TokenId} (h : t.Has (s.branch 0)) :
    t.paramsBelow (s.branch 0) = t.paramsBelow (s.listBranch (0 + 1)) ++
      (s.restriction.toList.flatMap fun r =>
        t.paramsBelow (r.condition.branch (whereStart s + 1))) := by
  have hselect := (h.below List.mem_cons_self).paramsBelow_eq_nil rfl
  have hfrom := (h.below (List.mem_cons_of_mem _ (List.mem_cons_of_mem _ List.mem_cons_self)))
    |>.paramsBelow_eq_nil (by
      rw [Statement.fromBranch, Branch.leaves, Branch.leavesAll,
        Branch.leavesAll_branchesFrom FromItem.leaves_branch]
      exact paramsAmong_sourceLeaves s.sources)
  rw [Statement.branch] at h ⊢
  rw [h.paramsBelow_node (by decide), Tree.paramsBelowAll_cons, Tree.paramsBelowAll_cons,
    Tree.paramsBelowAll_cons, hselect, hfrom, List.nil_append, List.nil_append]
  congr 1
  cases hr : s.restriction with
  | none => rfl
  | some r =>
    rw [hr] at h
    have hwhere := h.below (List.mem_cons_of_mem _ (List.mem_cons_of_mem _
      (List.mem_cons_of_mem _ List.mem_cons_self)))
    have hkeyword := (hwhere.below List.mem_cons_self).paramsBelow_eq_nil rfl
    rw [restrictionBranches, Tree.paramsBelowAll_cons, hwhere.paramsBelow_node (by decide),
      Tree.paramsBelowAll_cons, hkeyword, Tree.paramsBelowAll_cons, Tree.paramsBelowAll_nil]
    simp [whereStart]

variable {tree : Tree}

/-- Fields and a condition that have the numbers of the parameters of a statement make a plan that
follows it. -/
theorem follows_of_numbers {p : Plan} {s : Statement TokenId} {r : Resolver (Run S)}
    (h : p.tree.Has (s.branch 0)) (hparams : p.params = paramNodes p.tree (s.branch 0))
    (htree : r.tree = p.tree) (hordinal : r.ordinal = p.ordinal)
    (hfields : r.Numbers p.fields (r.tree.paramsBelow (s.listBranch (0 + 1))))
    (hpredicate : (p.predicate.toList.flatMap fun found => found.2.ordinals) =
      (s.restriction.toList.flatMap fun restriction =>
        r.tree.paramsBelow (restriction.condition.branch (whereStart s + 1))).map r.ordinal)
    (hcondition : ∀ found ∈ p.predicate.toList,
      found.2.ordinals = (r.tree.paramsBelow (r.tree.branch found.1)).map r.ordinal) :
    p.Follows (s.branch 0) := by
  rw [htree, hordinal] at hpredicate hcondition
  rw [htree] at hfields
  refine ⟨hparams, ?_, fun found hfound => ?_⟩
  · rw [paramsBelow_statement h, List.map_append, ordinals, hfields.ordinals, hordinal, hpredicate]
  · rcases List.mem_append.mp hfound with hfield | hpredicate
    · obtain ⟨f, hf, hsome⟩ := List.mem_filterMap.mp hfield
      split at hsome
      · next id e hkind =>
        cases hsome
        have hcomputed := hfields.computed f hf id e hkind
        rwa [htree, hordinal] at hcomputed
      · cases hsome
    · exact hcondition found hpredicate

/-- A plan follows its statement, whatever the scope answers. -/
theorem ofScope_follows {s : Statement TokenId} (h : tree.Has (s.branch 0)) (scope : Scope (Run S))
    (registry : Registry) (settings : Settings) :
    Run.Returns (ofScope tree (s.branch 0) scope registry settings) fun plan =>
      plan.tree = tree ∧ plan.Follows (s.branch 0) := by
  -- The resolver numbers the nodes as the plan does, whose parameters are the ones it lists.
  obtain ⟨r, hr⟩ : ∃ r : Resolver (Run S),
      r = ⟨tree, scope, registry, paramNodes tree (s.branch 0), settings.maxDepth⟩ := ⟨_, rfl⟩
  have htree : r.tree = tree := by rw [hr]
  have hlist : r.tree.Has (s.listBranch (0 + 1)) :=
    htree ▸ h.below (List.mem_cons_of_mem _ List.mem_cons_self)
  have hcondition (restriction : Restriction TokenId) (hsome : s.restriction = some restriction) :
      r.tree.Has (restriction.condition.branch (whereStart s + 1)) := htree ▸ has_condition h hsome
  intro state plan later hplan
  obtain ⟨rfl, -, hparams, hnumbers, hnone, hsome⟩ := returns_ofScope_of_gives h hr
    (Resolver.select_list_gains settings hlist)
    (fun restriction hsome =>
      predicateOf_returns (Resolver.resolve_numbers (hcondition restriction hsome)))
    state plan later hplan
  have hordinal : r.ordinal = plan.ordinal := by
    rw [hr, ← hparams]
    rfl
  cases hrestriction : s.restriction with
  | none =>
    refine ⟨rfl, follows_of_numbers h hparams htree hordinal hnumbers ?_ ?_⟩
    · rw [hrestriction, hnone hrestriction]
      rfl
    · rw [hnone hrestriction]
      exact List.forall_mem_nil _
  | some restriction =>
    obtain ⟨found, hfound, hid, hordinals⟩ := hsome restriction hrestriction
    refine ⟨rfl, follows_of_numbers h hparams htree hordinal hnumbers ?_ ?_⟩
    · rw [hrestriction, hfound]
      simpa using hordinals
    · rw [hfound]
      refine List.forall_mem_singleton.mpr ?_
      rw [hid, (hcondition restriction hrestriction).2]
      exact hordinals

/-- A plan follows the order of the marks of its text: its parameters are the nodes of the marks,
one for each mark, and are numbered from one on as the marks are; there are no other nodes of
parameters; the fields and the condition ask for the parameters by these numbers in the same order,
and so does every expression that the plan evaluates for those below its node. -/
structure Numbered (p : Plan) (ts : List Token) : Prop where
  tokens : p.tree.tokens = ts.toArray
  kinds : p.params.map p.tree.kind = (marks (numbered 0 ts)).map NodeKind.param
  nodup : p.params.Nodup
  complete : ∀ id leaf, p.tree.kind id = .param leaf → id ∈ p.params
  ordinal : p.params.map p.ordinal = List.range' 1 (markCount ts)
  ordinals : p.ordinals = List.range' 1 (markCount ts)
  expressions : ∀ found ∈ p.expressions,
    found.2.ordinals = (p.tree.paramsBelow (p.tree.branch found.1)).map p.ordinal

end Plan

/-! ## Texts that parse -/

/-- Every node of the tree of a text is a node of its statement, but for the root. -/
theorem Tree.Holds.mem_preorder {settings : ReadSettings} {text : String} {tree : Tree}
    {s : Statement (Fin tree.tokens.size)} (h : tree.Holds s)
    (hparse : parse settings text = .ok tree) {id : NodeId} (hkind : tree.kind id ≠ .root) :
    id ∈ ((s.map Fin.val).branch 0).preorder := by
  obtain ⟨tokens, statement, rfl, -⟩ := wellFormed_of_parse hparse
  obtain ⟨hhas, hselect⟩ := has_ofStatement settings.sourceName tokens statement
  -- The entry point of a tree determines its statement.
  have hid := Option.some.inj (hselect.symm.trans h.select)
  have hsame : statement.branch 0 = (s.map Fin.val).branch 0 := by
    rw [← hhas.2, ← h.has.2, hid]
  rw [← hsame]
  exact mem_preorder_of_kind_ne statement hkind

/-- A plan that follows a statement that was read follows the marks of the text. -/
theorem Plan.numbered_of_follows {p : Plan} {settings : ReadSettings} {text : String}
    {ts : List Token} {s : Statement (Fin p.tree.tokens.size)}
    (h : p.Follows ((s.map Fin.val).branch 0)) (hread : p.tree.ReadAs settings text ts s)
    (hparse : parse settings text = .ok p.tree) :
    p.Numbered ts ∧ p.params.length = markCount ts := by
  have hkinds : (p.tree.paramsBelow ((s.map Fin.val).branch 0)).map p.tree.kind =
      (marks (numbered 0 ts)).map NodeKind.param := by
    rw [hread.holds.has.map_kind_paramsBelow, Statement.leaves_branch, ← hread.params]
    rfl
  -- Two nodes of one mark would be two leaves of one token, and no token is a leaf twice.
  have hnodup : (p.tree.paramsBelow ((s.map Fin.val).branch 0)).Nodup := by
    apply List.Nodup.of_map p.tree.kind
    rw [hkinds]
    exact (nodup_marks_numbered 0 ts).map fun _ _ heq => NodeKind.param.inj heq
  have hparams : p.params = p.tree.paramsBelow ((s.map Fin.val).branch 0) :=
    h.params.trans (eraseDups_of_nodup hnodup)
  have hlength : p.params.length = markCount ts := by
    rw [← List.length_map (f := p.tree.kind), hparams, hkinds, List.length_map,
      length_marks_numbered]
  have hordinal : p.params.map p.ordinal = List.range' 1 (markCount ts) := by
    rw [← hlength]
    exact map_idxOf_of_nodup (hparams ▸ hnodup)
  refine ⟨⟨hread.tokens, hparams ▸ hkinds, hparams ▸ hnodup, fun id leaf hkind => ?_, hordinal, ?_,
    h.expressions⟩, hlength⟩
  · have hmem : id ∈ ((s.map Fin.val).branch 0).preorder :=
      hread.holds.mem_preorder hparse (by rw [hkind]; nofun)
    rw [hparams]
    exact List.mem_filter.mpr ⟨hmem, by rw [hkind]; rfl⟩
  · rw [h.ordinals, ← hparams, hordinal]

namespace Cursor

variable {B : Backend σ γ} {registry : Registry} {settings : Settings} {text : String}
variable {world : γ} {c : Cursor σ γ}

theorem plan_numbered (h : prepare B registry settings text world = .ok c) :
    ∃ (plan : Plan) (ts : List Token), c.plan = some plan ∧
      tokenize settings.reading.sourceName text = .ok ts ∧ plan.Numbered ts ∧
      c.paramCount = markCount ts := by
  obtain ⟨tree, plan, session, htree, hbind, rfl⟩ := prepare_eq_ok h
  obtain ⟨ts, s, hread⟩ := Tree.exists_readAs_of_parse htree
  obtain ⟨scope, opened, -, hplan⟩ := Session.bind_eq_ok hread.holds hbind
  obtain ⟨rfl, hfollows⟩ := Plan.ofScope_follows hread.holds.has scope registry settings _ _ _ hplan
  obtain ⟨hnumbered, hlength⟩ := Plan.numbered_of_follows hfollows hread htree
  refine ⟨plan, ts, rfl, ?_, hnumbered, hlength⟩
  rw [tokenize, hread.drain]

/-- Whatever the backend, the parameters of a statement follow the order of its text: each mark has
one node, the nodes are numbered as their marks are, and this is how often and under which numbers
the fields and the condition ask for parameters. What they ask for is the value bound at the number,
null where none is, in a parameter at any depth as in a field. -/
theorem ordinals_follow_text (h : prepare B registry settings text world = .ok c) :
    ∃ (plan : Plan) (ts : List Token), c.plan = some plan ∧
      tokenize settings.reading.sourceName text = .ok ts ∧ plan.Numbered ts ∧
      c.paramCount = markCount ts ∧
      (∀ (later : Cursor σ γ) (depth ordinal : Nat),
        (Bound.param ordinal).eval (later.environment B) depth =
          pure (later.params.value ordinal)) ∧
      (∀ (later : Cursor σ γ) (n ordinal : Nat) (field : Field), field.kind = .param ordinal →
        (fieldValue B n field).outcome later = .ok (later.params.value ordinal)) ∧
      ∀ (params : Params) (ordinal : Nat), params.isBound ordinal = false →
        params.value ordinal = .null := by
  obtain ⟨plan, ts, hplan, hts, hnumbered, hcount⟩ := plan_numbered h
  refine ⟨plan, ts, hplan, hts, hnumbered, hcount, fun later depth ordinal => ?_,
    fun later n ordinal field hkind => ?_, fun params ordinal hunbound => ?_⟩
  · rw [Bound.eval]
    rfl
  · simp only [fieldValue, hkind]
    rw [Run.outcome_bind_of_ok (Run.get_apply later)]
    rfl
  · have hnone : params.find? ordinal = none := by
      rwa [Params.isBound, Option.isSome_eq_false_iff, Option.isNone_iff_eq_none] at hunbound
    rw [Params.value, hnone]
    rfl

/-- Marks in the SELECT list, among the arguments of a call and in the condition. -/
theorem ordinals_follow_text_four :
    ∃ (c : Cursor Memory.Scan Unit) (plan : Plan),
      prepare (Memory.backend Memory.oneTable) .withBuiltins .default
          "SELECT ?, coalesce((a + ?), (?)) AS x FROM t WHERE NOT (a = ?)" () = .ok c ∧
        c.plan = some plan ∧ plan.params.length = 4 ∧ plan.ordinals = [1, 2, 3, 4] := by
  have hcount : (prepare (Memory.backend Memory.oneTable) .withBuiltins .default
      "SELECT ?, coalesce((a + ?), (?)) AS x FROM t WHERE NOT (a = ?)" ()).toOption.map
        paramCount = some 4 := by
    decide +kernel
  cases h : prepare (Memory.backend Memory.oneTable) .withBuiltins .default
      "SELECT ?, coalesce((a + ?), (?)) AS x FROM t WHERE NOT (a = ?)" () with
  | error e =>
    rw [h] at hcount
    cases hcount
  | ok c =>
    rw [h] at hcount
    obtain ⟨plan, ts, hplan, -, hnumbered, hmarks, -⟩ := ordinals_follow_text h
    have hfour : c.paramCount = 4 := Option.some.inj hcount
    refine ⟨c, plan, rfl, hplan, ?_, ?_⟩
    · rw [paramCount, hplan] at hfour
      exact hfour
    · rw [hnumbered.ordinals, ← hmarks, hfour]
      rfl

end Cursor

end SelectEngine
