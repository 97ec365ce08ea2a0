import Mathlib.Data.List.Basic
import SelectEngine.Plan.Basic
import SelectEngine.Proofs.Grammar.Params
import SelectEngine.Proofs.Tree.Held
import SelectEngine.Proofs.Tree.Leaves

/-!
# Parameters are numbered in the order of the text

The nodes of the parameters of a statement are found in the order of its leaves, so that the number
of a parameter's node is the number of its leaf among the parameters of the statement
(`Plan.idxOf_paramNodes`).
-/

set_option autoImplicit false

namespace SelectEngine

/-! ## Lists -/

/-- Elements with different images have the places of their images. -/
theorem idxOf_filterMap {α β : Type} [DecidableEq α] [DecidableEq β] {φ : α → Option β}
    {l : List α} (h : (l.filterMap φ).Nodup) {a : α} {b : β} (ha : a ∈ l) (hb : φ a = some b) :
    (l.filter fun x => (φ x).isSome).eraseDups.idxOf a = (l.filterMap φ).idxOf b := by
  induction l with
  | nil => cases ha
  | cons x l ih =>
    cases hx : φ x with
    | none =>
      have hne : a ≠ x := by
        rintro rfl
        cases hx.symm.trans hb
      have hin : a ∈ l := (List.mem_cons.mp ha).resolve_left hne
      rw [List.filterMap_cons_none hx] at h ⊢
      rw [List.filter_cons_of_neg (by simp [hx])]
      exact ih h hin
    | some y =>
      rw [List.filterMap_cons_some hx] at h ⊢
      obtain ⟨hfresh, hrest⟩ := List.nodup_cons.mp h
      -- No later element is the first one, since its image is not among the later ones.
      have hlater : ∀ z ∈ l.filter fun x => (φ x).isSome, z ≠ x := by
        rintro z hz rfl
        exact hfresh (List.mem_filterMap.mpr ⟨z, (List.mem_filter.mp hz).1, hx⟩)
      have hkept : ((l.filter fun x => (φ x).isSome).filter fun z => !z == x) =
          l.filter fun x => (φ x).isSome :=
        List.filter_eq_self.mpr fun z hz => by simpa using hlater z hz
      rw [List.filter_cons_of_pos (by simp [hx]), List.eraseDups_cons, hkept]
      by_cases hax : a = x
      · subst hax
        cases hx.symm.trans hb
        rw [List.idxOf_cons_self, List.idxOf_cons_self]
      · have hin : a ∈ l := (List.mem_cons.mp ha).resolve_left hax
        have hby : y ≠ b := by
          rintro rfl
          exact hfresh (List.mem_filterMap.mpr ⟨a, hin, hb⟩)
        rw [List.idxOf_cons_ne _ (Ne.symm hax), List.idxOf_cons_ne _ hby, ih hrest hin]

/-! ## Nodes and leaves -/

mutual

/-- The leaves of a branch of a tree are those of its nodes. -/
theorem Tree.Has.leaves {tree : Tree} : ∀ b : Branch, tree.Has b →
    b.preorder.filterMap (fun id => (tree.kind id).leaf?) = b.leaves
  | .node id kind children, h => by
    rw [Branch.preorder, Branch.leaves, ← List.singleton_append, List.filterMap_append,
      Tree.Has.leavesAll children fun b hb => h.below hb]
    simp [h.kind, List.filterMap_cons]
    cases kind.leaf? <;> rfl

theorem Tree.Has.leavesAll {tree : Tree} : ∀ bs : List Branch, (∀ b ∈ bs, tree.Has b) →
    (Branch.preorders bs).filterMap (fun id => (tree.kind id).leaf?) = Branch.leavesAll bs
  | [], _ => rfl
  | b :: bs, h => by
    obtain ⟨hfirst, hrest⟩ := List.forall_mem_cons.mp h
    rw [Branch.preorders, Branch.leavesAll, List.filterMap_append, Tree.Has.leaves b hfirst,
      Tree.Has.leavesAll bs hrest]

end

/-- The leaf of a parameter. -/
def NodeKind.param? : NodeKind → Option TokenId
  | .param leaf => some leaf
  | _ => none

/-- The parameters among the leaves of a branch are those of its nodes. -/
theorem Tree.Has.params {tree : Tree} {b : Branch} (h : tree.Has b) :
    b.preorder.filterMap (fun id => (tree.kind id).param?) = paramsAmong b.leaves := by
  rw [← Tree.Has.leaves b h, paramsAmong, List.filterMap_filterMap]
  congr 1
  funext id
  cases tree.kind id <;> rfl

/-- The place of a parameter's node is the place of its leaf, if no two parameters have one leaf. -/
theorem Plan.idxOf_paramNodes {tree : Tree} {b : Branch} (h : tree.Has b)
    (hnodup : (paramsAmong b.leaves).Nodup) {id : NodeId} {leaf : TokenId} (hid : id ∈ b.preorder)
    (hkind : tree.kind id = .param leaf) :
    (paramNodes tree b).idxOf id = (paramsAmong b.leaves).idxOf leaf := by
  have hparam : (tree.kind id).param? = some leaf := by rw [hkind]; rfl
  have hnodes : paramNodes tree b =
      (b.preorder.filter fun id => (tree.kind id).param?.isSome).eraseDups := by
    rw [paramNodes]
    congr 2
    funext id
    cases tree.kind id <;> rfl
  rw [← h.params] at hnodup ⊢
  rw [hnodes]
  exact idxOf_filterMap hnodup hid hparam

end SelectEngine
