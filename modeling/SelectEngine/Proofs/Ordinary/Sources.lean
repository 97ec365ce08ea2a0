import SelectEngine.Plan.Basic
import SelectEngine.Proofs.Ordinary.Basic
import SelectEngine.Proofs.Tree.Held

/-!
# The FROM list fails ordinarily

The clauses of a statement that a tree holds are found, and its sources are collected or two of them
have the same alias (`Plan.ordinarily_sourceNames`). The tree finds every name that is given to an
attribute or a source (`Tree.Has.renamedParts`).
-/

set_option autoImplicit false

namespace SelectEngine

variable {tree : Tree}

/-- The statement of a tree that holds one. -/
theorem Plan.statement_of_holds {s : Statement (Fin tree.tokens.size)} (h : tree.Holds s) :
    Plan.statement tree = .ok ((s.map Fin.val).branch 0) := by
  rw [Plan.statement, h.select]
  dsimp only
  rw [h.has.2]

/-! ## Names that are given -/

/-- No expression is laid out as a part of a name. -/
theorem Expr.type_branch_ne (e : Expr TokenId) (n : Nat) : (e.branch n).kind.type ≠ .id := by
  cases e <;> exact nofun

/-- What is renamed and the name that it is given: the first and the last of the branches below the
naming, which are not the same one. -/
theorem Tree.Has.renamedParts {naming : Naming (Fin tree.tokens.size)} {id k m : Nat} {b : Branch}
    (h : tree.Has (.node id .renamed (b :: ((naming.map Fin.val).keywordBranches k ++
      [.node m (.id (naming.map Fin.val).name) []]))))
    (hb : b.kind.type ≠ .id) :
    Branch.renamedParts tree (b :: ((naming.map Fin.val).keywordBranches k ++
      [.node m (.id (naming.map Fin.val).name) []])) = .ok (b, tree.spelling naming.name) := by
  generalize hname : Branch.node m (.id (naming.map Fin.val).name) [] = last at h ⊢
  have hfirst : tree.Has b := h.below List.mem_cons_self
  have hlast : tree.Has last :=
    h.below (List.mem_cons_of_mem _ (List.mem_append_right _ (List.mem_singleton.mpr rfl)))
  have hne : b.id ≠ last.id := by
    intro hsame
    rw [← hfirst.2, hsame, hlast.2, ← hname] at hb
    exact hb rfl
  have htext : tree.tokenText? last.id = some (tree.spelling naming.name) := by
    rw [← hname] at hlast ⊢
    exact hlast.tokenText?
  unfold Branch.renamedParts
  rw [← List.cons_append, List.getLast?_concat]
  dsimp only [List.cons_append, List.head?_cons]
  rw [if_neg hne, htext]

/-! ## Sources -/

theorem TableName.exists_ofParts {parts : List String} (hne : parts ≠ [])
    (hlength : parts.length ≤ 3) : ∃ name, TableName.ofParts parts = some name := by
  match parts, hne, hlength with
  | [table], _, _ => exact ⟨_, rfl⟩
  | [schema, table], _, _ => exact ⟨_, rfl⟩
  | [catalog, schema, table], _, _ => exact ⟨_, rfl⟩

theorem SourceName.ordinarily_register (sources : List SourceName) {parts : List String}
    (given : Option String) (hne : parts ≠ []) (hlength : parts.length ≤ 3) :
    Ordinarily (SourceName.register sources parts given) fun _ => True := by
  obtain ⟨table, htable⟩ := TableName.exists_ofParts hne hlength
  unfold SourceName.register
  rw [htable]
  dsimp only
  split <;> trivial

/-- The parts of the name of a source of the tree. -/
theorem Tree.Has.register {source : FromItem (Fin tree.tokens.size)} {id n : Nat}
    (h : tree.Has (.node id .name (partBranches n (source.parts.map Fin.val))))
    (hsource : source.WellFormed) (sources : List SourceName) (given : Option String) :
    Ordinarily (SourceName.register sources (tree.nameParts id) given) fun _ => True := by
  rw [h.nameParts]
  apply SourceName.ordinarily_register
  · simpa using hsource.1
  · simpa using hsource.2

theorem Branch.ordinarily_collect (sources : List SourceName)
    {source : FromItem (Fin tree.tokens.size)} {n : Nat} (hsource : source.WellFormed)
    (h : tree.Has ((source.map Fin.val).branch n)) :
    Ordinarily (Branch.collect tree sources ((source.map Fin.val).branch n)) fun _ => True := by
  obtain ⟨parts, _ | naming⟩ := source
  · rw [FromItem.map, Option.map_none, FromItem.branch, Branch.collect]
    exact h.register hsource sources none
  · simp only [FromItem.map, Option.map_some, FromItem.branch] at h ⊢
    have hname := h.below List.mem_cons_self
    rw [Branch.collect]
    dsimp only
    rw [h.renamedParts nofun]
    exact hname.register hsource sources _

/-- A source is no keyword, and is collected. -/
theorem Branch.collectAll_cons (sources : List SourceName) (source : FromItem TokenId) (n : Nat)
    (bs : List Branch) :
    Branch.collectAll tree sources (source.branch n :: bs) =
      (Branch.collect tree sources (source.branch n) >>= fun found =>
        Branch.collectAll tree found bs) := by
  obtain ⟨parts, _ | naming⟩ := source <;> rw [Branch.collectAll] <;> rfl

theorem Branch.ordinarily_collectAll (sources : List SourceName)
    {items : List (FromItem (Fin tree.tokens.size))} {n : Nat}
    (hitems : ∀ source ∈ items, source.WellFormed)
    (h : ∀ b ∈ branchesFrom FromItem.size FromItem.branch n (items.map (FromItem.map Fin.val)),
      tree.Has b) :
    Ordinarily (Branch.collectAll tree sources
      (branchesFrom FromItem.size FromItem.branch n (items.map (FromItem.map Fin.val))))
      fun _ => True := by
  induction items generalizing sources n with
  | nil => exact ordinarily_ok trivial
  | cons source items ih =>
    obtain ⟨hsource, hrest⟩ := List.forall_mem_cons.mp hitems
    rw [List.map_cons, branchesFrom] at h ⊢
    obtain ⟨hfirst, hothers⟩ := List.forall_mem_cons.mp h
    rw [Branch.collectAll_cons]
    apply ordinarily_bind (Branch.ordinarily_collect sources hsource hfirst)
    intro found _
    exact ih found hrest hothers

/-- The sources of a statement that a tree holds. -/
theorem Plan.ordinarily_sourceNames {s : Statement (Fin tree.tokens.size)} (h : tree.Holds s) :
    Ordinarily (Plan.sourceNames tree ((s.map Fin.val).branch 0)) fun _ => True := by
  have hclause : Plan.clause ((s.map Fin.val).branch 0) .from_ "SELECT without FROM" =
      .ok ((s.map Fin.val).fromBranch (0 + 1 + ((s.map Fin.val).attributesSize + 1))) := rfl
  have hfrom := h.has.below (List.mem_cons_of_mem _ (List.mem_cons_of_mem _ List.mem_cons_self))
  rw [Plan.sourceNames, hclause]
  exact Branch.ordinarily_collectAll [] h.wellFormed.sources fun b hb =>
    hfrom.below (List.mem_cons_of_mem _ hb)

end SelectEngine
