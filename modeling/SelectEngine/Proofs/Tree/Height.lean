import Mathlib.Data.List.Chain
import Mathlib.Order.Bounds.Basic
import SelectEngine.Tree.Basic

/-!
# The heights found in one pass

The height of a node is a matter of the nodes below it, one more than the greatest height of a child
(`Tree.depthBelow`), and the number of nodes on the longest way down (`Tree.isGreatest_depthBelow`).
The pass over the nodes never looks below a node: it reads the heights of the children off those it
has found. Since children come before their parent, these are there when they are read, and they are
the heights of the children (`Tree.heightsUpTo_eq`).
-/

set_option autoImplicit false

namespace SelectEngine

namespace Tree

variable {t t' : Tree} {id count : Nat}

/-! ## Heights by recursion -/

/-- One for a node without children, and otherwise one more than the greatest of its children. -/
def depthBelow (t : Tree) (id : NodeId) : Nat :=
  match ((t.children id).attach.map fun ⟨c, _⟩ => t.depthBelow c).max? with
  | none => 1
  | some greatest => 1 + greatest
termination_by id
decreasing_by exact lt_of_mem_children (by assumption)

theorem depthBelow_eq (t : Tree) (id : NodeId) :
    t.depthBelow id =
      match ((t.children id).map t.depthBelow).max? with
      | none => 1
      | some greatest => 1 + greatest := by
  rw [depthBelow]
  simp only [List.map_subtype, List.unattach_attach]

/-- A way down from a node: each of the nodes is a child of the one before it. -/
def IsWayDown (t : Tree) (id : NodeId) (path : List NodeId) : Prop :=
  (id :: path).IsChain fun parent child => child ∈ t.children parent

theorem depthBelow_lt {c : NodeId} (h : c ∈ t.children id) : t.depthBelow c < t.depthBelow id := by
  have hmem : t.depthBelow c ∈ (t.children id).map t.depthBelow := List.mem_map_of_mem h
  rw [t.depthBelow_eq id]
  obtain ⟨greatest, hgreatest⟩ := Option.isSome_iff_exists.mp (List.isSome_max?_of_mem hmem)
  have hle : t.depthBelow c ≤ greatest := (List.max?_eq_some_iff.mp hgreatest).2 _ hmem
  rw [hgreatest]
  show t.depthBelow c < 1 + greatest
  omega

theorem length_lt_depthBelow : ∀ {path : List NodeId} {id : NodeId}, t.IsWayDown id path →
    path.length < t.depthBelow id
  | [], id, _ => by
    rw [depthBelow_eq]
    split
    · exact Nat.zero_lt_one
    · exact Nat.lt_of_lt_of_le Nat.zero_lt_one (Nat.le_add_right 1 _)
  | c :: path, id, h => by
    obtain ⟨hchild, hpath⟩ := List.isChain_cons_cons.mp h
    exact Nat.lt_of_le_of_lt (length_lt_depthBelow hpath) (depthBelow_lt hchild)

/-- Some way down is as long. -/
theorem exists_isWayDown (t : Tree) (id : NodeId) :
    ∃ path, t.IsWayDown id path ∧ path.length + 1 = t.depthBelow id := by
  rw [depthBelow_eq]
  cases hgreatest : ((t.children id).map t.depthBelow).max? with
  | none => exact ⟨[], List.isChain_singleton _, rfl⟩
  | some greatest =>
    obtain ⟨c, hc, rfl⟩ := List.mem_map.mp (List.max?_mem hgreatest)
    have hless := lt_of_mem_children hc
    obtain ⟨path, hpath, hlength⟩ := exists_isWayDown t c
    refine ⟨c :: path, List.isChain_cons_cons.mpr ⟨hc, hpath⟩, ?_⟩
    rw [List.length_cons, hlength, Nat.add_comm]
termination_by id

theorem isGreatest_depthBelow (t : Tree) (id : NodeId) :
    IsGreatest {n | ∃ path, t.IsWayDown id path ∧ path.length + 1 = n} (t.depthBelow id) := by
  refine ⟨t.exists_isWayDown id, ?_⟩
  rintro n ⟨path, hpath, rfl⟩
  exact length_lt_depthBelow hpath

/-! ## The pass -/

theorem heightsUpTo_succ (h : count < t.nodes.size) :
    t.heightsUpTo (count + 1) = addHeight (t.heightsUpTo count) t.nodes[count] := by
  rw [heightsUpTo, List.take_add_one, Array.getElem?_toList, Array.getElem?_eq_getElem h,
    List.foldl_append]
  rfl

/-- One more than the greatest of some numbers, as the pass and as the recursion find it. -/
theorem foldl_max_eq (ns : List Nat) :
    1 + ns.foldl max 0 =
      match ns.max? with
      | none => 1
      | some greatest => 1 + greatest := by
  cases ns with
  | nil => rfl
  | cons n ns => rw [List.max?_cons', List.foldl_cons, Nat.zero_max]

/-- What the pass has found is the heights of the nodes that it has come through. -/
theorem heightsUpTo_eq (h : count ≤ t.nodes.size) :
    t.heightsUpTo count = ((List.range count).map t.depthBelow).toArray := by
  induction count with
  | zero => rfl
  | succ count ih =>
    have hcount : count < t.nodes.size := h
    have hfound := ih (Nat.le_of_lt h)
    have hchildren : t.nodes[count].children = t.children count := by
      rw [children, Array.getElem?_eq_getElem hcount]
    -- Children come before the node, among those whose heights have been found.
    have hread : (t.children count).map ((t.heightsUpTo count).getD · 0) =
        (t.children count).map t.depthBelow := by
      refine List.map_congr_left fun c hc => ?_
      have hless := lt_of_mem_children hc
      simp [hfound, hless]
    rw [heightsUpTo_succ hcount, addHeight, hchildren, hread, foldl_max_eq, ← depthBelow_eq, hfound,
      List.push_toArray, List.range_succ, List.map_append]
    rfl

theorem heightsUpTo_getElem? {i : Nat} (h : count ≤ t.nodes.size) (hi : i < count) :
    (t.heightsUpTo count)[i]? = some (t.depthBelow i) := by
  simp [heightsUpTo_eq h, hi]

/-- The pass depends on no other nodes than those that it comes through. -/
theorem heightsUpTo_congr (h : ∀ i < count, t'.nodes[i]? = t.nodes[i]?) :
    t'.heightsUpTo count = t.heightsUpTo count := by
  have hnodes : t'.nodes.toList.take count = t.nodes.toList.take count := by
    refine List.ext_getElem? fun i => ?_
    simp only [List.getElem?_take, Array.getElem?_toList]
    split
    · next hi => exact h i hi
    · rfl
  rw [heightsUpTo, hnodes, ← heightsUpTo]

/-- The height of a node is found as it is by recursion and is the number of nodes on the longest way
down. In every turn of the pass the heights of the children have been found. What is added to the
tree behind the node does not matter. -/
theorem height_eq_depthBelow (hid : id < t.nodes.size) :
    t.height id = t.depthBelow id ∧
      IsGreatest {n | ∃ path, t.IsWayDown id path ∧ path.length + 1 = n} (t.height id) ∧
      (∀ i ≤ id, ∃ node, t.nodes[i]? = some node ∧
        t.heightsUpTo (i + 1) = addHeight (t.heightsUpTo i) node ∧
        ∀ c ∈ node.children, (t.heightsUpTo i)[c]? = some (t.depthBelow c)) ∧
      ∀ t' : Tree, (∀ i ≤ id, t'.nodes[i]? = t.nodes[i]?) → t'.height id = t.height id := by
  have hheight : t.height id = t.depthBelow id := by
    rw [height, Array.getD_eq_getD_getElem?, heightsUpTo_getElem? hid id.lt_succ_self]
    rfl
  refine ⟨hheight, ?_, fun i hi => ?_, fun t' hsame => ?_⟩
  · rw [hheight]
    exact t.isGreatest_depthBelow id
  · have hi := Nat.lt_of_le_of_lt hi hid
    refine ⟨t.nodes[i], Array.getElem?_eq_getElem hi, heightsUpTo_succ hi, fun c hc => ?_⟩
    exact heightsUpTo_getElem? (Nat.le_of_lt hi) (t.ordered i hi c hc)
  · rw [height, height, heightsUpTo_congr fun i hi => hsame i (Nat.le_of_lt_succ hi)]

/-- A number that is an operand of a sum and of the negation beside it, with another node behind. -/
theorem height_eq_depthBelow_shared :
    let leaf := ((ofTokens "q" #[⟨.number, "1", ⟨0, 1, 1⟩⟩]).addNode (.number 0) []).1
    let sum := ((leaf.addNode (.operation .neg) [0]).1.addNode (.operation .add) [0, 1]).1
    let t := (sum.addNode (.operation .neg) [2]).1
    2 < t.nodes.size ∧ t.height 2 = 3 ∧ t.depthBelow 2 = 3 ∧ sum.height 2 = 3 := by
  intro leaf sum t
  have hid : 2 < t.nodes.size := by decide
  obtain ⟨hheight, -, -, hbehind⟩ := height_eq_depthBelow hid
  have hthree : t.height 2 = 3 := by decide
  refine ⟨hid, hthree, hheight.symm.trans hthree, (hbehind sum ?_).trans hthree⟩
  decide

end Tree

end SelectEngine
