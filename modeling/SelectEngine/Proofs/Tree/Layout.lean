import Mathlib.Algebra.Ring.Nat
import SelectEngine.Tree.Branch
import SelectEngine.Tree.OfStatement

/-!
# The layout of a statement in its tree

The nodes of an expression take consecutive numbers, and where they start determines them all:
`Expr.branch n e` is the expression laid out from the number `n` on, and so for the other parts of a
statement. Adding a part to a tree adds its layout behind the nodes that are there and changes none
of these (`Tree.lays_placeStatement`).
-/

set_option autoImplicit false

namespace SelectEngine

/-! ## Layouts -/

/-- Several things laid out one behind the other. -/
def branchesFrom {α : Type} (size : α → Nat) (branch : Nat → α → Branch) :
    Nat → List α → List Branch
  | _, [] => []
  | n, a :: as => branch n a :: branchesFrom size branch (n + size a) as

/-- The parts of a name. -/
def partBranches (n : Nat) (parts : List TokenId) : List Branch :=
  branchesFrom (fun _ => 1) (fun n part => .node n (.id part) []) n parts

namespace Expr

mutual

/-- The number of nodes of an expression. -/
def size {τ : Type} : Expr τ → Nat
  | .text _ | .number _ | .null _ | .param _ => 1
  | .name parts => parts.length + 1
  | .call _ args => 1 + sizes args + 1
  | .unary _ operand => operand.size + 1
  | .binary _ left right => left.size + right.size + 1

/-- The number of nodes of several expressions. -/
def sizes {τ : Type} : List (Expr τ) → Nat
  | [] => 0
  | e :: es => e.size + sizes es

end

mutual

/-- An expression laid out from a number on. -/
def branch (n : Nat) : Expr TokenId → Branch
  | .text leaf => .node n (.text leaf) []
  | .number leaf => .node n (.number leaf) []
  | .null leaf => .node n (.null leaf) []
  | .param leaf => .node n (.param leaf) []
  | .name parts => .node (n + parts.length) .name (partBranches n parts)
  | .call function args =>
    .node (n + (1 + sizes args)) .call (.node n (.id function) [] :: branches (n + 1) args)
  | .unary op operand => .node (n + operand.size) (.operation op) [operand.branch n]
  | .binary op left right =>
    .node (n + (left.size + right.size)) (.operation op)
      [left.branch n, right.branch (n + left.size)]

/-- Several expressions laid out one behind the other. -/
def branches (n : Nat) : List (Expr TokenId) → List Branch
  | [] => []
  | e :: es => e.branch n :: branches (n + e.size) es

end

end Expr

/-- The keyword of a naming, if it is written. -/
def Naming.keywordBranches (n : Nat) (naming : Naming TokenId) : List Branch :=
  match naming.keyword with
  | some keyword => [.node n (.token keyword) []]
  | none => []

/-- The number of nodes of the keyword of a naming. -/
def Naming.keywordSize {τ : Type} (naming : Naming τ) : Nat := naming.keyword.toList.length

def Attribute.size {τ : Type} : Attribute τ → Nat
  | star _ => 2
  | starOf parts _ => parts.length + 3
  | value e none => e.size
  | value e (some naming) => e.size + naming.keywordSize + 2

/-- An attribute laid out from a number on. -/
def Attribute.branch (n : Nat) : Attribute TokenId → Branch
  | star leaf => .node (n + 1) .star [.node n (.token leaf) []]
  | starOf parts leaf =>
    .node (n + (parts.length + 2)) .star
      [.node (n + parts.length) .name (partBranches n parts),
        .node (n + (parts.length + 1)) (.token leaf) []]
  | value e none => e.branch n
  | value e (some naming) =>
    .node (n + (e.size + naming.keywordSize + 1)) .renamed
      (e.branch n :: (naming.keywordBranches (n + e.size) ++
        [.node (n + (e.size + naming.keywordSize)) (.id naming.name) []]))

def FromItem.size {τ : Type} (s : FromItem τ) : Nat :=
  match s.naming with
  | none => s.parts.length + 1
  | some naming => s.parts.length + naming.keywordSize + 3

/-- A source laid out from a number on. -/
def FromItem.branch (n : Nat) (s : FromItem TokenId) : Branch :=
  match s.naming with
  | none => .node (n + s.parts.length) .name (partBranches n s.parts)
  | some naming =>
    .node (n + (s.parts.length + naming.keywordSize + 2)) .renamed
      (.node (n + (s.parts.length + naming.keywordSize)) .name (partBranches n s.parts) ::
        (naming.keywordBranches (n + s.parts.length) ++
          [.node (n + (s.parts.length + naming.keywordSize + 1)) (.id naming.name) []]))

/-- The number of nodes of a WHERE clause. -/
def restrictionSize {τ : Type} : Option (Restriction τ) → Nat
  | none => 0
  | some r => 1 + r.condition.size + 1

/-- The WHERE clause laid out from a number on, if there is one. -/
def restrictionBranches (n : Nat) : Option (Restriction TokenId) → List Branch
  | none => []
  | some r =>
    [.node (n + (1 + r.condition.size)) .where_
      [.node n (.token r.keyword) [], r.condition.branch (n + 1)]]

namespace Statement

/-- The number of nodes of the SELECT list. -/
def attributesSize {τ : Type} (s : Statement τ) : Nat := (s.attributes.map Attribute.size).sum

/-- The number of nodes of the FROM list. -/
def sourcesSize {τ : Type} (s : Statement τ) : Nat := (s.sources.map FromItem.size).sum

/-- The number of nodes of a statement. -/
def size {τ : Type} (s : Statement τ) : Nat :=
  1 + (s.attributesSize + 1 + (1 + s.sourcesSize + 1 + restrictionSize s.restriction)) + 1

/-- The SELECT list laid out from a number on. -/
def listBranch (n : Nat) (s : Statement TokenId) : Branch :=
  .node (n + s.attributesSize) .attributes
    (branchesFrom Attribute.size Attribute.branch n s.attributes)

/-- The FROM list laid out from a number on. -/
def fromBranch (n : Nat) (s : Statement TokenId) : Branch :=
  .node (n + (1 + s.sourcesSize)) .from_ (.node n (.token s.from_) [] ::
    branchesFrom FromItem.size FromItem.branch (n + 1) s.sources)

/-- A statement laid out from a number on. -/
def branch (n : Nat) (s : Statement TokenId) : Branch :=
  let from_ := n + 1 + (s.attributesSize + 1)
  let where_ := from_ + (1 + s.sourcesSize + 1)
  .node (n + (1 + (s.attributesSize + 1 +
      (1 + s.sourcesSize + 1 + restrictionSize s.restriction)))) .select
    (.node n (.token s.select) [] :: s.listBranch (n + 1) :: s.fromBranch from_ ::
      restrictionBranches where_ s.restriction)

end Statement

/-! ## Trees that grow -/

namespace Tree

/-- One tree is another one with so many more nodes. -/
structure Grown (t t' : Tree) (count : Nat) : Prop where
  source : t'.source = t.source
  tokens : t'.tokens = t.tokens
  size : t'.nodes.size = t.nodes.size + count
  nodes : ∀ i < t.nodes.size, t'.nodes[i]? = t.nodes[i]?

theorem Grown.refl (t : Tree) : Grown t t 0 := ⟨rfl, rfl, rfl, fun _ _ => rfl⟩

theorem Grown.trans {t t' t'' : Tree} {m n : Nat} (h : Grown t t' m) (h' : Grown t' t'' n) :
    Grown t t'' (m + n) where
  source := h'.source.trans h.source
  tokens := h'.tokens.trans h.tokens
  size := by rw [h'.size, h.size, Nat.add_assoc]
  nodes i hi := (h'.nodes i (by rw [h.size]; omega)).trans (h.nodes i hi)

theorem branch_eq (t : Tree) (id : NodeId) :
    t.branch id = .node id (t.kind id) ((t.children id).map t.branch) := by
  rw [branch]
  simp only [List.map_subtype, List.unattach_attach]

/-- A node that was there has the same below it. -/
theorem Grown.branch {t t' : Tree} {count : Nat} (h : Grown t t' count) (id : NodeId)
    (hid : id < t.nodes.size) : t'.branch id = t.branch id := by
  have hnode : t'.nodes[id]? = t.nodes[id]? := h.nodes id hid
  have hkind : t'.kind id = t.kind id := by rw [kind, kind, hnode]
  have hchildren : t'.children id = t.children id := by rw [children, children, hnode]
  rw [branch_eq, branch_eq, hkind, hchildren]
  have hbelow : ∀ c ∈ t.children id, t'.branch c = t.branch c := fun c hc =>
    have := lt_of_mem_children hc
    Grown.branch h c (Nat.lt_trans this hid)
  rw [List.map_congr_left hbelow]
termination_by id

/-- A branch of a tree. -/
def Has (t : Tree) (b : Branch) : Prop := b.id < t.nodes.size ∧ t.branch b.id = b

theorem Has.grown {t t' : Tree} {count : Nat} {b : Branch} (h : t.Has b) (hg : Grown t t' count) :
    t'.Has b := by
  have hlt : b.id < t'.nodes.size := by
    rw [hg.size]
    exact Nat.lt_add_right count h.1
  exact ⟨hlt, (hg.branch b.id h.1).trans h.2⟩

/-! ## Adding parts of a statement -/

/-- Adding to a tree gives the branch, so many nodes larger. -/
def Lays (add : StateM Tree NodeId) (t : Tree) (count : Nat) (b : Branch) : Prop :=
  ∃ t', add t = (b.id, t') ∧ Grown t t' count ∧ t'.Has b

/-- Adding to a tree gives the branches, so many nodes larger. -/
def LaysAll (add : StateM Tree (List NodeId)) (t : Tree) (count : Nat) (bs : List Branch) : Prop :=
  ∃ t', add t = (bs.map Branch.id, t') ∧ Grown t t' count ∧ ∀ b ∈ bs, t'.Has b

theorem bind_of_eq {α β : Type} {x : StateM Tree α} {f : α → StateM Tree β} {t t' : Tree} {a : α}
    (h : x t = (a, t')) : (x >>= f) t = f a t' := by
  show (do let p ← x t; f p.1 p.2 : Id _) = _
  rw [h]
  rfl

/-- A node is added above branches of the tree. -/
theorem lays_place (kind : NodeKind) {t : Tree} {bs : List Branch} (h : ∀ b ∈ bs, t.Has b) :
    Lays (place kind (bs.map Branch.id)) t 1 (.node t.nodes.size kind bs) := by
  have hgrown : Grown t (t.addNode kind (bs.map Branch.id)).1 1 := by
    refine ⟨rfl, rfl, Array.size_push _, fun i hi => ?_⟩
    exact (Array.getElem?_push_lt hi).trans (Array.getElem?_eq_getElem hi).symm
  have hnode : (t.addNode kind (bs.map Branch.id)).1.nodes[t.nodes.size]? =
      some ⟨kind, bs.map Branch.id, t.hull kind (bs.map Branch.id)⟩ := by
    -- All children are nodes of the tree, so none is dropped.
    have hkept : (bs.map Branch.id).filter (· < t.nodes.size) = bs.map Branch.id := by
      refine List.filter_eq_self.mpr fun id hid => ?_
      obtain ⟨b, hb, rfl⟩ := List.mem_map.mp hid
      exact decide_eq_true (h b hb).1
    simp only [addNode, hkept, Array.getElem?_push_size]
  refine ⟨(t.addNode kind (bs.map Branch.id)).1, rfl, hgrown, ?_, ?_⟩
  · rw [hgrown.size]
    exact Nat.lt_succ_self _
  · have hbelow : ∀ b ∈ bs, (t.addNode kind (bs.map Branch.id)).1.branch b.id = b := fun b hb =>
      ((h b hb).grown hgrown).2
    rw [Branch.id, branch_eq, Tree.kind, children, hnode]
    have hmap : (bs.map Branch.id).map (t.addNode kind (bs.map Branch.id)).1.branch = bs := by
      rw [List.map_map]
      exact (List.map_congr_left hbelow).trans (List.map_id bs)
    exact congrArg (Branch.node t.nodes.size kind) hmap

theorem lays_placeLeaf (kind : NodeKind) (t : Tree) :
    Lays (placeLeaf kind) t 1 (.node t.nodes.size kind []) := by
  have hnone : ∀ b ∈ ([] : List Branch), t.Has b := nofun
  exact lays_place kind hnone

/-- A part is added and then the others behind it. -/
theorem Lays.cons {add : StateM Tree NodeId} {others : StateM Tree (List NodeId)} {t : Tree}
    {m n : Nat} {b : Branch} {bs : List Branch} (h : Lays add t m b)
    (h' : ∀ t', Grown t t' m → LaysAll others t' n bs) :
    LaysAll (do let id ← add; let ids ← others; pure (id :: ids)) t (m + n) (b :: bs) := by
  obtain ⟨t₁, hadd, hgrown, hhas⟩ := h
  obtain ⟨t₂, hadd', hgrown', hhas'⟩ := h' t₁ hgrown
  refine ⟨t₂, ?_, hgrown.trans hgrown', ?_⟩
  · rw [bind_of_eq hadd, bind_of_eq hadd']
    rfl
  · intro b' hb'
    rcases List.mem_cons.mp hb' with rfl | hb'
    · exact hhas.grown hgrown'
    · exact hhas' b' hb'

theorem LaysAll.append {front back : StateM Tree (List NodeId)} {t : Tree} {m n : Nat}
    {bs bs' : List Branch} (h : LaysAll front t m bs)
    (h' : ∀ t', Grown t t' m → LaysAll back t' n bs') :
    LaysAll (do let ids ← front; let others ← back; pure (ids ++ others)) t (m + n)
      (bs ++ bs') := by
  obtain ⟨t₁, hadd, hgrown, hhas⟩ := h
  obtain ⟨t₂, hadd', hgrown', hhas'⟩ := h' t₁ hgrown
  refine ⟨t₂, ?_, hgrown.trans hgrown', ?_⟩
  · rw [bind_of_eq hadd, bind_of_eq hadd', List.map_append]
    rfl
  · intro b hb
    rcases List.mem_append.mp hb with hb | hb
    · exact (hhas b hb).grown hgrown'
    · exact hhas' b hb

theorem laysAll_nil (t : Tree) : LaysAll (pure []) t 0 [] := ⟨t, rfl, .refl t, nofun⟩

/-- Parts are added and then the node above them. -/
theorem LaysAll.node {add : StateM Tree (List NodeId)} {t : Tree} {count : Nat} {bs : List Branch}
    (kind : NodeKind) (h : LaysAll add t count bs) :
    Lays (do let ids ← add; place kind ids) t (count + 1)
      (.node (t.nodes.size + count) kind bs) := by
  obtain ⟨t₁, hadd, hgrown, hhas⟩ := h
  obtain ⟨t₂, hplace, hgrown', hhas'⟩ := lays_place kind hhas
  rw [hgrown.size] at hplace hhas'
  exact ⟨t₂, by rw [bind_of_eq hadd, hplace], hgrown.trans hgrown', hhas'⟩

theorem laysAll_mapM {α : Type} {add : α → StateM Tree NodeId} (size : α → Nat)
    (branch : Nat → α → Branch)
    (h : ∀ (a : α) (t : Tree), Lays (add a) t (size a) (branch t.nodes.size a)) :
    ∀ (as : List α) (t : Tree),
      LaysAll (as.mapM add) t (as.map size).sum (branchesFrom size branch t.nodes.size as)
  | [], t => laysAll_nil t
  | a :: as, t => by
    rw [List.mapM_cons, List.map_cons, List.sum_cons]
    refine (h a t).cons fun t' hgrown => ?_
    have hrest := laysAll_mapM size branch h as t'
    rwa [hgrown.size] at hrest

theorem laysAll_placeParts (parts : List TokenId) (t : Tree) :
    LaysAll (placeParts parts) t parts.length (partBranches t.nodes.size parts) := by
  have h := laysAll_mapM (fun _ => 1) (fun n part => .node n (.id part) [])
    (fun part t => lays_placeLeaf (.id part) t) parts t
  have hlength : (parts.map fun _ => 1).sum = parts.length := by
    rw [List.map_const', List.sum_replicate_nat, Nat.mul_one]
  rwa [hlength] at h

mutual

/-- An expression is laid out behind the nodes of the tree. -/
theorem lays_placeExpr : ∀ (e : Expr TokenId) (t : Tree),
    Lays (placeExpr e) t e.size (e.branch t.nodes.size)
  | .text leaf, t => lays_placeLeaf (.text leaf) t
  | .number leaf, t => lays_placeLeaf (.number leaf) t
  | .null leaf, t => lays_placeLeaf (.null leaf) t
  | .param leaf, t => lays_placeLeaf (.param leaf) t
  | .name parts, t => (laysAll_placeParts parts t).node .name
  | .call function args, t => by
    have h := ((lays_placeLeaf (.id function) t).cons fun t' hgrown => by
      have hrest := laysAll_placeExprs args t'
      rwa [hgrown.size] at hrest).node .call
    simp only [bind_assoc, pure_bind] at h
    exact h
  | .unary op operand, t => by
    have h := ((lays_placeExpr operand t).cons fun t' _ => laysAll_nil t').node (.operation op)
    simp only [bind_assoc, pure_bind] at h
    exact h
  | .binary op left right, t => by
    have h := ((lays_placeExpr left t).cons fun t' hgrown => by
      have hright := (lays_placeExpr right t').cons fun t'' _ => laysAll_nil t''
      rwa [hgrown.size] at hright).node (.operation op)
    simp only [bind_assoc, pure_bind] at h
    exact h

/-- Several expressions are laid out one behind the other. -/
theorem laysAll_placeExprs : ∀ (es : List (Expr TokenId)) (t : Tree),
    LaysAll (placeExprs es) t (Expr.sizes es) (Expr.branches t.nodes.size es)
  | [], t => laysAll_nil t
  | e :: es, t => by
    refine (lays_placeExpr e t).cons fun t' hgrown => ?_
    have hrest := laysAll_placeExprs es t'
    rwa [hgrown.size] at hrest

end

theorem laysAll_placeKeyword (naming : Naming TokenId) (t : Tree) :
    LaysAll (placeKeyword naming) t naming.keywordSize (naming.keywordBranches t.nodes.size) := by
  obtain ⟨_ | keyword, name⟩ := naming
  · exact laysAll_nil t
  · exact (lays_placeLeaf (.token keyword) t).cons fun t' _ => laysAll_nil t'

/-- An attribute is laid out behind the nodes of the tree. -/
theorem lays_placeAttribute : ∀ (a : Attribute TokenId) (t : Tree),
    Lays (placeAttribute a) t a.size (a.branch t.nodes.size)
  | .star leaf, t => by
    have h := ((lays_placeLeaf (.token leaf) t).cons fun t' _ => laysAll_nil t').node .star
    simp only [bind_assoc, pure_bind] at h
    exact h
  | .starOf parts leaf, t => by
    have h := (((laysAll_placeParts parts t).node .name).cons fun t' hgrown => by
      have hleaf := (lays_placeLeaf (.token leaf) t').cons fun t'' _ => laysAll_nil t''
      rwa [hgrown.size] at hleaf).node .star
    simp only [bind_assoc, pure_bind] at h
    exact h
  | .value e none, t => lays_placeExpr e t
  | .value e (some naming), t => by
    have h := ((lays_placeExpr e t).cons fun t' hgrown => by
      have hname := (laysAll_placeKeyword naming t').append fun t'' hgrown' => by
        have hleaf := (lays_placeLeaf (.id naming.name) t'').cons fun t₃ _ => laysAll_nil t₃
        rwa [hgrown'.size] at hleaf
      rwa [hgrown.size, Nat.add_assoc] at hname).node .renamed
    simp only [bind_assoc, pure_bind] at h
    exact h

/-- A source is laid out behind the nodes of the tree. Its keyword stands before the node that joins
the parts of its name. -/
theorem lays_placeSource (s : FromItem TokenId) (t : Tree) :
    Lays (placeSource s) t s.size (s.branch t.nodes.size) := by
  obtain ⟨parts, _ | naming⟩ := s
  · exact (laysAll_placeParts parts t).node .name
  · obtain ⟨t₁, hparts, hgrown, hhas⟩ := laysAll_placeParts parts t
    obtain ⟨t₂, hkeyword, hgrown', hhas'⟩ := laysAll_placeKeyword naming t₁
    obtain ⟨t₃, hgroup, hgrown₃, hhas₃⟩ :=
      lays_place .name fun b hb => (hhas b hb).grown hgrown'
    obtain ⟨t₄, hname, hgrown₄, hhas₄⟩ := lays_placeLeaf (.id naming.name) t₃
    have hall : ∀ b ∈ .node t₂.nodes.size .name (partBranches t.nodes.size parts) ::
        (naming.keywordBranches t₁.nodes.size ++ [.node t₃.nodes.size (.id naming.name) []]),
        t₄.Has b := by
      intro b hb
      rcases List.mem_cons.mp hb with rfl | hb
      · exact hhas₃.grown hgrown₄
      · rcases List.mem_append.mp hb with hb | hb
        · exact ((hhas' b hb).grown hgrown₃).grown hgrown₄
        · rw [List.mem_singleton.mp hb]
          exact hhas₄
    obtain ⟨t₅, hrenamed, hgrown₅, hhas₅⟩ := lays_place .renamed hall
    -- The nodes are counted up to each part: the keyword stands between the parts and the name.
    have h₂ : t₂.nodes.size = t.nodes.size + (parts.length + naming.keywordSize) := by
      rw [hgrown'.size, hgrown.size, Nat.add_assoc]
    have h₃ : t₃.nodes.size = t.nodes.size + (parts.length + naming.keywordSize + 1) := by
      rw [hgrown₃.size, h₂, Nat.add_assoc]
    have h₄ : t₄.nodes.size = t.nodes.size + (parts.length + naming.keywordSize + 2) := by
      rw [hgrown₄.size, h₃, Nat.add_assoc]
    refine ⟨t₅, ?_, ?_, ?_⟩
    · rw [placeSource, bind_of_eq hparts]
      dsimp only
      rw [bind_of_eq hkeyword, bind_of_eq hgroup, bind_of_eq hname]
      rw [List.map_cons, List.map_append] at hrenamed
      refine hrenamed.trans ?_
      rw [Branch.id, h₄]
      rfl
    · exact (((hgrown.trans hgrown').trans hgrown₃).trans hgrown₄).trans hgrown₅
    · rw [h₄, h₃, h₂, hgrown.size] at hhas₅
      exact hhas₅

theorem laysAll_placeRestriction : ∀ (r : Option (Restriction TokenId)) (t : Tree),
    LaysAll (placeRestriction r) t (restrictionSize r) (restrictionBranches t.nodes.size r)
  | none, t => laysAll_nil t
  | some r, t => by
    have h := (((lays_placeLeaf (.token r.keyword) t).cons fun t' hgrown => by
      have hcondition := (lays_placeExpr r.condition t').cons fun t'' _ => laysAll_nil t''
      rwa [hgrown.size] at hcondition).node .where_).cons fun t' _ => laysAll_nil t'
    simp only [bind_assoc, pure_bind] at h
    exact h

/-- Adds the SELECT list. -/
def placeList (s : Statement TokenId) : StateM Tree NodeId := do
  let attributes ← s.attributes.mapM placeAttribute
  place .attributes attributes

/-- Adds the FROM list. -/
def placeFrom (s : Statement TokenId) : StateM Tree NodeId := do
  let keyword ← placeLeaf (.token s.from_)
  let sources ← s.sources.mapM placeSource
  place .from_ (keyword :: sources)

theorem lays_placeList (s : Statement TokenId) (t : Tree) :
    Lays (placeList s) t (s.attributesSize + 1) (s.listBranch t.nodes.size) :=
  (laysAll_mapM Attribute.size Attribute.branch lays_placeAttribute s.attributes t).node .attributes

theorem lays_placeFrom (s : Statement TokenId) (t : Tree) :
    Lays (placeFrom s) t (1 + s.sourcesSize + 1) (s.fromBranch t.nodes.size) := by
  have h := ((lays_placeLeaf (.token s.from_) t).cons fun t' hgrown => by
    have hsources := laysAll_mapM FromItem.size FromItem.branch lays_placeSource s.sources t'
    rwa [hgrown.size] at hsources).node .from_
  simp only [bind_assoc, pure_bind] at h
  exact h

/-- A statement is laid out behind the nodes of the tree. -/
theorem lays_placeStatement (s : Statement TokenId) (t : Tree) :
    Lays (placeStatement s) t s.size (s.branch t.nodes.size) := by
  -- The clauses are added one behind the other, and each starts where the one before it ended.
  have hfrom : ∀ t₂ : Tree, LaysAll (do
      let id ← placeFrom s
      let ids ← placeRestriction s.restriction
      pure (id :: ids)) t₂ (1 + s.sourcesSize + 1 + restrictionSize s.restriction)
      (s.fromBranch t₂.nodes.size ::
        restrictionBranches (t₂.nodes.size + (1 + s.sourcesSize + 1)) s.restriction) := by
    intro t₂
    refine (lays_placeFrom s t₂).cons fun t' hgrown => ?_
    have hrestriction := laysAll_placeRestriction s.restriction t'
    rwa [hgrown.size] at hrestriction
  have hlist : ∀ t₁ : Tree, LaysAll (do
      let id ← placeList s
      let ids ← (do
        let id ← placeFrom s
        let ids ← placeRestriction s.restriction
        pure (id :: ids))
      pure (id :: ids)) t₁
      (s.attributesSize + 1 + (1 + s.sourcesSize + 1 + restrictionSize s.restriction))
      (s.listBranch t₁.nodes.size :: s.fromBranch (t₁.nodes.size + (s.attributesSize + 1)) ::
        restrictionBranches
          (t₁.nodes.size + (s.attributesSize + 1) + (1 + s.sourcesSize + 1)) s.restriction) := by
    intro t₁
    refine (lays_placeList s t₁).cons fun t' hgrown => ?_
    have hrest := hfrom t'
    rwa [hgrown.size] at hrest
  have h := ((lays_placeLeaf (.token s.select) t).cons fun t₁ hgrown => by
    have hrest := hlist t₁
    rwa [hgrown.size] at hrest).node .select
  simp only [placeList, placeFrom, bind_assoc, pure_bind] at h
  exact h

/-- The tree of a statement has its nodes, and the root above them. -/
theorem branch_ofStatement (source : String) (tokens : Array Token) (s : Statement TokenId) :
    (ofStatement source tokens s).root = some s.size ∧
      (ofStatement source tokens s).tokens = tokens ∧
      (ofStatement source tokens s).source = source ∧
      (ofStatement source tokens s).nodes.size = s.size + 1 ∧
      (ofStatement source tokens s).branch s.size = .node s.size .root [s.branch 0] := by
  obtain ⟨t₁, hplace, hgrown, hhas⟩ := lays_placeStatement s (ofTokens source tokens)
  have hempty : (ofTokens source tokens).nodes.size = 0 := rfl
  rw [hempty] at hplace hhas
  have hsize : t₁.nodes.size = s.size := by rw [hgrown.size, hempty, Nat.zero_add]
  have hbelow : ∀ b ∈ [s.branch 0], t₁.Has b := fun b hb => List.mem_singleton.mp hb ▸ hhas
  obtain ⟨t₂, hroot, hgrown', hhas'⟩ := lays_place .root hbelow
  have hadd : t₁.addNode .root [(s.branch 0).id] = (t₂, t₁.nodes.size) := by
    have hpair := congrArg Prod.swap hroot
    exact hpair
  have htree : ofStatement source tokens s = { t₂ with root := some t₁.nodes.size } := by
    show ((placeStatement s) (ofTokens source tokens)).2.setRoot
      ((placeStatement s) (ofTokens source tokens)).1 = _
    rw [hplace]
    show setRoot t₁ (s.branch 0).id = _
    rw [setRoot, hadd]
  have hfinal : Grown t₂ { t₂ with root := some t₁.nodes.size } 0 :=
    ⟨rfl, rfl, rfl, fun _ _ => rfl⟩
  have hbranch := (hhas'.grown hfinal).2
  rw [htree, ← hsize]
  exact ⟨rfl, hgrown'.tokens.trans hgrown.tokens, hgrown'.source.trans hgrown.source,
    hgrown'.size, hbranch⟩

end Tree

end SelectEngine
