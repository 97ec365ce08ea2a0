import SelectEngine.Proofs.Automaton.Parse
import SelectEngine.Proofs.Grammar.Leaves
import SelectEngine.Proofs.Tree.Shape

/-!
# What a tree answers about its branches

A branch of a tree is found again by the number of its node: the tree answers for the node's kind,
its children and its texts as the branch says (`Tree.Has.kind` and its neighbours). The tree of a
text that parses has a well-formed statement whose leaves are tokens of the tree
(`exists_holds_of_parse`).
-/

set_option autoImplicit false

namespace SelectEngine

namespace Tree

variable {t : Tree} {id : NodeId} {k : NodeKind} {bs : List Branch}

theorem id_branch (t : Tree) (id : NodeId) : (t.branch id).id = id := by
  rw [branch_eq]
  rfl

theorem Has.eq (h : t.Has (.node id k bs)) :
    t.kind id = k ∧ (t.children id).map t.branch = bs := by
  have hbranch := h.2
  rw [Branch.id, branch_eq] at hbranch
  injection hbranch with _ hkind hchildren
  exact ⟨hkind, hchildren⟩

theorem Has.kind (h : t.Has (.node id k bs)) : t.kind id = k := h.eq.1

theorem Has.children (h : t.Has (.node id k bs)) :
    t.children id = bs.map Branch.id := by
  rw [← h.eq.2, List.map_map]
  have hid : Branch.id ∘ t.branch = fun c => c := funext fun c => t.id_branch c
  rw [hid, List.map_id']

/-- What is below a branch of the tree is a branch of the tree. -/
theorem Has.below (h : t.Has (.node id k bs)) {b : Branch} (hb : b ∈ bs) :
    t.Has b := by
  rw [← h.eq.2] at hb
  obtain ⟨c, hc, rfl⟩ := List.mem_map.mp hb
  rw [Has, id_branch]
  exact ⟨Nat.lt_trans (lt_of_mem_children hc) h.1, rfl⟩

/-! ## Texts -/

/-- The text of a token that is one of the tree's. -/
def spelling (t : Tree) (token : Fin t.tokens.size) : String := t.tokens[token].text

theorem textOf_val (token : Fin t.tokens.size) : t.textOf token = some (t.spelling token) := by
  rw [textOf, Array.getElem?_eq_getElem token.isLt]
  rfl

/-- A part of a name stands for the text of its token. -/
theorem Has.tokenText? {token : Fin t.tokens.size} (h : t.Has (.node id (.id token) bs)) :
    t.tokenText? id = some (t.spelling token) := by
  rw [Tree.tokenText?, h.kind]
  exact textOf_val token

theorem Has.filterMap_tokenText? {n : Nat} {parts : List (Fin t.tokens.size)}
    (h : ∀ b ∈ partBranches n (parts.map Fin.val), t.Has b) :
    ((partBranches n (parts.map Fin.val)).map Branch.id).filterMap t.tokenText? =
      parts.map t.spelling := by
  induction parts generalizing n with
  | nil => rfl
  | cons part parts ih =>
    obtain ⟨hpart, hparts⟩ := List.forall_mem_cons.mp h
    have hrest := ih hparts
    show (n :: (partBranches (n + 1) (parts.map Fin.val)).map Branch.id).filterMap _ = _
    rw [List.filterMap_cons_some hpart.tokenText?, hrest, List.map_cons]

/-- The parts of a name are the texts of its tokens. -/
theorem Has.nameParts {n : Nat} {parts : List (Fin t.tokens.size)}
    (h : t.Has (.node id .name (partBranches n (parts.map Fin.val)))) :
    t.nameParts id = parts.map t.spelling := by
  rw [Tree.nameParts, h.kind]
  dsimp only
  rw [h.children]
  exact Has.filterMap_tokenText? fun b hb => h.below hb

/-! ## Statements -/

/-- The tree has the statement, which is well formed, and finds it. -/
structure Holds (t : Tree) (s : Statement (Fin t.tokens.size)) : Prop where
  wellFormed : s.WellFormed
  has : t.Has ((s.map Fin.val).branch 0)
  select : t.select? = some ((s.map Fin.val).branch 0).id

/-- The tree of a statement has it, and finds it. -/
theorem has_ofStatement (source : String) (tokens : Array Token) (s : Statement TokenId) :
    (ofStatement source tokens s).Has (s.branch 0) ∧
      (ofStatement source tokens s).select? = some (s.branch 0).id := by
  obtain ⟨hentry, -, -, hsize, hbranch⟩ := branch_ofStatement source tokens s
  have hroot : (ofStatement source tokens s).Has (.node s.size .root [s.branch 0]) := by
    refine ⟨?_, hbranch⟩
    rw [hsize]
    exact Nat.lt_succ_self _
  have hstatement := hroot.below (List.mem_singleton.mpr rfl)
  refine ⟨hstatement, ?_⟩
  have hkind : (ofStatement source tokens s).kind (s.branch 0).id = .select := hstatement.kind
  rw [select?, hentry, Option.bind_some, hroot.children]
  simp [hkind]

end Tree

/-- The tree of a text that parses holds a statement. -/
theorem exists_holds_of_parse {settings : ReadSettings} {text : String} {tree : Tree}
    (h : parse settings text = .ok tree) : ∃ s, tree.Holds s := by
  obtain ⟨statement, tokens, hread, htree⟩ := exists_readStatement_of_parse h
  have hstart : (Grammar.Stage.start : Grammar.Stage (Fin tokens.size)).WellFormed :=
    Grammar.Stage.start_wellFormed
  obtain ⟨s, hwell, rfl⟩ := exists_statement_of_readStatement hstart rfl hread
  obtain ⟨hhas, hselect⟩ :=
    Tree.has_ofStatement settings.sourceName tokens (s.map Fin.val)
  obtain ⟨-, htokens, -, -, -⟩ :=
    Tree.branch_ofStatement settings.sourceName tokens (s.map Fin.val)
  rw [htree] at hhas hselect htokens
  clear htree hread h
  subst htokens
  exact ⟨s, hwell, hhas, hselect⟩

end SelectEngine
