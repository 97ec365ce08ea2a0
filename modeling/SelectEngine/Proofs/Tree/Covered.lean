import SelectEngine.Proofs.Tree.Saturated

/-!
# No node lies outside the statement

The layout of a part of a statement takes consecutive numbers and leaves none of them out, so that
every node of the tree of a statement, but for the root, is a node of the statement
(`Tree.mem_preorder_of_kind_ne`).
-/

set_option autoImplicit false

namespace SelectEngine

namespace Branch

/-- Every one of so many numbers from `n` on is a node of one of the branches. -/
def CoverAll (bs : List Branch) (n size : Nat) : Prop :=
  ∀ id, n ≤ id → id < n + size → id ∈ preorders bs

/-- Every one of so many numbers from `n` on is a node of the branch. -/
def Covers (b : Branch) (n size : Nat) : Prop := ∀ id, n ≤ id → id < n + size → id ∈ b.preorder

variable {b : Branch} {bs others : List Branch} {n size rest : Nat}

theorem preorders_append (bs others : List Branch) :
    preorders (bs ++ others) = preorders bs ++ preorders others := by
  induction bs with
  | nil => rfl
  | cons b bs ih => rw [List.cons_append, preorders, preorders, ih, List.append_assoc]

theorem coverAll_nil (n : Nat) : CoverAll [] n 0 := by
  intro id hleast hless
  omega

theorem covers_leaf (n : Nat) (kind : NodeKind) : (node n kind []).Covers n 1 := by
  intro id hleast hless
  have hid : id = n := by omega
  exact hid ▸ List.mem_cons_self

/-- What two lists of branches cover side by side, both together cover. -/
theorem CoverAll.append (hfirst : CoverAll bs n size) (hrest : CoverAll others (n + size) rest) :
    CoverAll (bs ++ others) n (size + rest) := by
  intro id hleast hless
  rw [preorders_append]
  by_cases hid : id < n + size
  · exact List.mem_append_left _ (hfirst id hleast hid)
  · exact List.mem_append_right _ (hrest id (by omega) (by omega))

theorem Covers.cons (hfirst : b.Covers n size) (hrest : CoverAll bs (n + size) rest) :
    CoverAll (b :: bs) n (size + rest) := by
  intro id hleast hless
  rw [preorders]
  by_cases hid : id < n + size
  · exact List.mem_append_left _ (hfirst id hleast hid)
  · exact List.mem_append_right _ (hrest id (by omega) (by omega))

theorem Covers.singleton (h : b.Covers n size) : CoverAll [b] n size :=
  h.cons (coverAll_nil _)

/-- The node that joins branches takes the number behind theirs. -/
theorem CoverAll.node (h : CoverAll bs n size) (kind : NodeKind) :
    (node (n + size) kind bs).Covers n (size + 1) := by
  intro id hleast hless
  by_cases hid : id = n + size
  · exact hid ▸ List.mem_cons_self
  · exact List.mem_cons_of_mem _ (h id hleast (by omega))

theorem coverAll_branchesFrom {α : Type} {size : α → Nat} {branch : Nat → α → Branch}
    (h : ∀ n a, (branch n a).Covers n (size a)) (n : Nat) (as : List α) :
    CoverAll (branchesFrom size branch n as) n (as.map size).sum := by
  induction as generalizing n with
  | nil => exact coverAll_nil n
  | cons a as ih =>
    rw [branchesFrom, List.map_cons, List.sum_cons]
    exact (h n a).cons (ih (n + size a))

theorem coverAll_partBranches (n : Nat) (parts : List TokenId) :
    CoverAll (partBranches n parts) n parts.length := by
  have hleaf (m : Nat) (part : TokenId) : (node m (.id part) []).Covers m ((fun _ => 1) part) :=
    covers_leaf m (.id part)
  have h := coverAll_branchesFrom hleaf n parts
  rwa [List.map_const', List.sum_replicate_nat, Nat.mul_one] at h

theorem coverAll_keywordBranches (n : Nat) (naming : Naming TokenId) :
    CoverAll (naming.keywordBranches n) n naming.keywordSize := by
  obtain ⟨_ | keyword, name⟩ := naming
  · exact coverAll_nil n
  · exact (covers_leaf n (.token keyword)).singleton

end Branch

open Branch

mutual

theorem Expr.covers_branch : ∀ (n : Nat) (e : Expr TokenId), (e.branch n).Covers n e.size
  | n, .text leaf => covers_leaf n (.text leaf)
  | n, .number leaf => covers_leaf n (.number leaf)
  | n, .null leaf => covers_leaf n (.null leaf)
  | n, .param leaf => covers_leaf n (.param leaf)
  | n, .name parts => (coverAll_partBranches n parts).node .name
  | n, .call function args =>
    ((covers_leaf n (.id function)).cons (Expr.coverAll_branches (n + 1) args)).node .call
  | n, .unary op operand => (Expr.covers_branch n operand).singleton.node (.operation op)
  | n, .binary op left right =>
    ((Expr.covers_branch n left).cons
      (Expr.covers_branch (n + left.size) right).singleton).node (.operation op)

theorem Expr.coverAll_branches : ∀ (n : Nat) (es : List (Expr TokenId)),
    CoverAll (Expr.branches n es) n (Expr.sizes es)
  | n, [] => coverAll_nil n
  | n, e :: es => (Expr.covers_branch n e).cons (Expr.coverAll_branches (n + e.size) es)

end

theorem Attribute.covers_branch (n : Nat) : ∀ a : Attribute TokenId,
    (a.branch n).Covers n a.size
  | .star leaf => (covers_leaf n (.token leaf)).singleton.node .star
  | .starOf parts leaf =>
    (((coverAll_partBranches n parts).node .name).cons
      (covers_leaf (n + (parts.length + 1)) (.token leaf)).singleton).node .star
  | .value e none => e.covers_branch n
  | .value e (some naming) => by
    have h := ((e.covers_branch n).cons ((coverAll_keywordBranches (n + e.size) naming).append
      (covers_leaf (n + e.size + naming.keywordSize) (.id naming.name)).singleton)).node .renamed
    simpa only [Attribute.branch, Attribute.size, Nat.add_assoc] using h

theorem FromItem.covers_branch (n : Nat) (s : FromItem TokenId) : (s.branch n).Covers n s.size := by
  obtain ⟨parts, _ | naming⟩ := s
  · exact (coverAll_partBranches n parts).node .name
  · -- The node that joins the parts of the table's name has the number behind the keyword.
    intro id hleast hless
    have hparts := coverAll_partBranches n parts id hleast
    have hkeyword := coverAll_keywordBranches (n + parts.length) naming id
    simp only [FromItem.size] at hless
    simp only [FromItem.branch, preorder, preorders, preorders_append, List.mem_cons,
      List.mem_append, List.not_mem_nil, or_false]
    by_cases hbefore : id < n + parts.length
    · exact Or.inr (Or.inl (Or.inr (hparts hbefore)))
    by_cases hwithin : id < n + parts.length + naming.keywordSize
    · exact Or.inr (Or.inr (Or.inl (hkeyword (by omega) hwithin)))
    omega

theorem coverAll_restrictionBranches (n : Nat) (r : Option (Restriction TokenId)) :
    CoverAll (restrictionBranches n r) n (restrictionSize r) := by
  cases r with
  | none => exact coverAll_nil n
  | some r =>
    exact (((covers_leaf n (.token r.keyword)).cons
      (r.condition.covers_branch (n + 1)).singleton).node .where_).singleton

theorem Statement.covers_branch (n : Nat) (s : Statement TokenId) : (s.branch n).Covers n s.size := by
  have hlist (m : Nat) : (s.listBranch m).Covers m (s.attributesSize + 1) :=
    (coverAll_branchesFrom Attribute.covers_branch m s.attributes).node .attributes
  have hfrom (m : Nat) : (s.fromBranch m).Covers m (1 + s.sourcesSize + 1) :=
    ((covers_leaf m (.token s.from_)).cons
      (coverAll_branchesFrom FromItem.covers_branch (m + 1) s.sources)).node .from_
  exact ((covers_leaf n (.token s.select)).cons ((hlist _).cons ((hfrom _).cons
    (coverAll_restrictionBranches _ s.restriction)))).node .select

/-- Every node of the tree of a statement is a node of the statement, but for the root. -/
theorem Tree.mem_preorder_of_kind_ne {source : String} {tokens : Array Token}
    (s : Statement TokenId) {id : NodeId} (h : (ofStatement source tokens s).kind id ≠ .root) :
    id ∈ (s.branch 0).preorder := by
  obtain ⟨-, -, -, hsize, hbranch⟩ := branch_ofStatement source tokens s
  have hroot : (ofStatement source tokens s).kind s.size = .root := by
    have heq := ((ofStatement source tokens s).branch_eq s.size).symm.trans hbranch
    exact (Branch.node.inj heq).2.1
  have hlt : id < s.size + 1 := by
    by_contra hge
    rw [← hsize] at hge
    exact h (by rw [kind, Array.getElem?_eq_none (Nat.le_of_not_lt hge)])
  have hne : id ≠ s.size := by
    rintro rfl
    exact h hroot
  have hless : id < s.size := Nat.lt_of_le_of_ne (Nat.le_of_lt_succ hlt) hne
  exact s.covers_branch 0 id (Nat.zero_le id) (by rwa [Nat.zero_add])

end SelectEngine
