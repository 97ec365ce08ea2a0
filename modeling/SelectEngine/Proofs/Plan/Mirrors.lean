import SelectEngine.Proofs.Plan.Gives
import SelectEngine.Proofs.Tree.Read

/-!
# Plans that mirror their statements

What holds of an expression and what it is bound to, wherever it stands in a statement, holds of the
expressions of the statement and those of its plan: each field that is no column of a star is bound
from the expression of its attribute, and the condition from that of the WHERE clause
(`Plan.Mirrors`). A relation between expressions and bound expressions is lifted to statements and
plans here once, over any backend (`Cursor.mirrors_of_ofTree`).
-/

set_option autoImplicit false

namespace SelectEngine

section

variable (P : Expr TokenId → Bound → Prop)

/-- The fields of an attribute: columns for a star, and else the one that its expression is bound
to. -/
def Attribute.Mirrors : Attribute TokenId → List Field → Prop
  | .star _, fields | .starOf _ _, fields => ∀ f ∈ fields, ∃ ref, f.kind = .data ref
  | .value e _, fields => ∃ f, fields = [f] ∧ P e f.expression

/-- The fields and the condition of a plan are bound from those of a statement. -/
structure Plan.Mirrors (p : Plan) (s : Statement TokenId) : Prop where
  attributes : ∃ groups, p.fields = groups.flatten ∧
    List.Forall₂ (Attribute.Mirrors P) s.attributes groups
  unrestricted : s.restriction = none → p.predicate = none
  condition : ∀ restriction, s.restriction = some restriction → ∃ found, p.predicate = some found ∧
    P restriction.condition found.2

/-- Whatever expression of its tree is resolved, the outcome is related to it. -/
def Resolver.Mirrors {S : Type} (r : Resolver (Run S)) : Prop :=
  ∀ (e : Expr TokenId) (n : Nat), r.tree.Has (e.branch n) →
    Run.ReturnsWith (r.resolve 0 (e.branch n)) (P e)

end

namespace Resolver

variable {S : Type} {r : Resolver (Run S)} {P : Expr TokenId → Bound → Prop}

theorem selectStar_mirrors (r : Resolver (Run S)) (b : Branch) :
    Gives (r.selectStar b) fun fields => ∀ f ∈ fields, ∃ ref, f.kind = .data ref := by
  have hdata : ∀ refs : List ColumnRef, ∀ f ∈ refs.map Field.data, ∃ ref, f.kind = .data ref := by
    intro refs f hf
    obtain ⟨ref, -, rfl⟩ := List.mem_map.mp hf
    exact ⟨ref, rfl⟩
  unfold selectStar
  split
  · exact gives_relay fun source _ => gives_lift (Run.returns_any _) fun refs _ =>
      gives_columns refs (hdata refs)
  · exact gives_lift (Run.returns_any _) fun refs _ => gives_columns refs (hdata refs)

theorem Mirrors.select_expr (hr : r.Mirrors P) (settings : Settings) (e : Expr TokenId) (n : Nat)
    (h : r.tree.Has (e.branch n)) :
    Gives (r.select settings (e.branch n)) fun fields => ∃ f, fields = [f] ∧ P e f.expression :=
  (gives_expression (hr e n h)).mono fun _ ⟨f, hf, hP, _⟩ => ⟨f, hf, hP⟩

theorem Mirrors.select (hr : r.Mirrors P) (settings : Settings) (a : Attribute TokenId) (n : Nat)
    (h : r.tree.Has (a.branch n)) : Gives (r.select settings (a.branch n)) (a.Mirrors P) := by
  rcases a with leaf | ⟨parts, leaf⟩ | ⟨e, _ | naming⟩
  · rw [Attribute.branch, Resolver.select]
    exact selectStar_mirrors r _
  · rw [Attribute.branch, Resolver.select]
    exact selectStar_mirrors r _
  · exact hr.select_expr settings e n h
  · rw [Attribute.branch] at h ⊢
    rw [Resolver.select]
    exact gives_relay fun _ _ =>
      gives_renamed (hr.select_expr settings e n (h.below List.mem_cons_self))

theorem Mirrors.selectAll (hr : r.Mirrors P) (settings : Settings) (as : List (Attribute TokenId))
    (n : Nat) (h : ∀ b ∈ branchesFrom Attribute.size Attribute.branch n as, r.tree.Has b) :
    Gives (r.selectAll settings (branchesFrom Attribute.size Attribute.branch n as))
      fun fields => ∃ groups, fields = groups.flatten ∧
        List.Forall₂ (Attribute.Mirrors P) as groups := by
  have hgives := gives_attributes (g := id) (hr.select settings) as n
  rw [List.map_id] at hgives
  exact hgives h

end Resolver

variable {P : Expr TokenId → Bound → Prop} {registry : Registry} {settings : Settings} {tree : Tree}
variable {s : Statement (Fin tree.tokens.size)}

theorem Plan.ofScope_mirrors {S : Type} {scope : Scope (Run S)}
    (h : tree.Has ((s.map Fin.val).branch 0))
    (hP : ∀ params, Resolver.Mirrors P
      (⟨tree, scope, registry, params, settings.maxDepth⟩ : Resolver (Run S))) :
    Run.Returns (ofScope tree ((s.map Fin.val).branch 0) scope registry settings) fun plan =>
      plan.tree = tree ∧ plan.Mirrors P (s.map Fin.val) := by
  let r : Resolver (Run S) :=
    ⟨tree, scope, registry, paramNodes tree ((s.map Fin.val).branch 0), settings.maxDepth⟩
  have hr : r.Mirrors P := hP _
  have hlist := h.below (List.mem_cons_of_mem _ List.mem_cons_self)
  have hselect := hr.selectAll settings (s.map Fin.val).attributes (0 + 1)
    fun b hb => hlist.below hb
  have hcondition : ∀ restriction, (s.map Fin.val).restriction = some restriction →
      Run.ReturnsWith
        (predicateOf r (restriction.condition.branch (whereStart (s.map Fin.val) + 1)))
        fun found => P restriction.condition found.2 :=
    fun restriction hrestriction =>
      (predicateOf_returns (hr _ _ (has_condition h hrestriction))).mono fun _ hfound => hfound.2
  intro state plan later hplan
  obtain ⟨htree, -, -, hfields, hnone, hsome⟩ :=
    returns_ofScope_of_gives h rfl hselect hcondition state plan later hplan
  exact ⟨htree, hfields, hnone, hsome⟩

/-- The plan of a cursor over a tree mirrors the statement of the tree, whatever the sources are. -/
theorem Cursor.mirrors_of_ofTree {σ γ : Type} {B : Backend σ γ} {world : γ} {c : Cursor σ γ}
    (hP : ∀ (scope : Scope (Run (Session σ γ))) (params : List NodeId), Resolver.Mirrors P
      (⟨tree, scope, registry, params, settings.maxDepth⟩ : Resolver (Run (Session σ γ))))
    (h : tree.Holds s) (hc : ofTree B registry settings tree world = .ok c) :
    ∃ plan, c.plan = some plan ∧ plan.Mirrors P (s.map Fin.val) := by
  unfold ofTree at hc
  split at hc
  · next plan session hbind =>
    cases hc
    obtain ⟨scope, opened, -, hplan⟩ := Session.bind_eq_ok h hbind
    exact ⟨plan, rfl, (Plan.ofScope_mirrors h.has (hP scope) _ _ _ hplan).2⟩
  · cases hc

end SelectEngine
