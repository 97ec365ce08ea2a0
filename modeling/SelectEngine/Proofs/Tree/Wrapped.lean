import Mathlib.Data.List.Pairwise
import SelectEngine.Proofs.Grammar.Context
import SelectEngine.Proofs.Plan.Ordinals
import SelectEngine.Proofs.Token.Tiling

/-!
# Which tokens are leaves of the tree

The tokens of a text tell by their kinds which of them are leaves of its tree, and of which type:
names, literals, marks, the keywords of the clauses, `NULL` outside null tests and stars that do not
multiply (`leafTypeAt`). The tree wraps each of them once and nothing else, and its leaves from left
to right are these tokens in the order of the text (`wraps_of_parse`).
-/

set_option autoImplicit false

namespace SelectEngine

open Grammar

/-- The type of the leaf that the token with this number is, by the kinds of the tokens in front. -/
def leafTypeAt (ts : List Token) (k : TokenId) : Option NodeType :=
  ts[k]?.bind fun t => leafTypeAfter ((ts.take k).map Token.kind).reverse t.kind

/-- The leaves that tokens are, in their order. -/
def leavesIn (ts : List Token) : List (Leaf TokenId) :=
  (List.range ts.length).filterMap fun k => (leafTypeAt ts k).map (·, k)

/-- The induction is on the tokens behind, so that those in front are the ones that have been
read. -/
theorem leavesAfter_numbered (front back : List Token) :
    Stage.leavesAfter (front.map Token.kind).reverse (numbered front.length back) =
      (List.range' front.length back.length).filterMap
        fun k => (leafTypeAt (front ++ back) k).map (·, k) := by
  induction back generalizing front with
  | nil => rfl
  | cons t back ih =>
    have hbehind := ih (front ++ [t])
    rw [List.map_append, List.reverse_append, List.length_append] at hbehind
    have htype : leafTypeAt (front ++ t :: back) front.length =
        leafTypeAfter (front.map Token.kind).reverse t.kind := by
      simp [leafTypeAt]
    have hall : front ++ [t] ++ back = front ++ t :: back := by simp
    rw [hall] at hbehind
    rw [numbered, Stage.leavesAfter, List.length_cons, List.range'_succ, List.filterMap_cons, htype]
    refine (congrArg (leafOf _ front.length ++ ·) hbehind).trans ?_
    cases leafTypeAfter (front.map Token.kind).reverse t.kind <;> rfl

theorem leavesAfter_eq_leavesIn (ts : List Token) :
    Stage.leavesAfter [] (numbered 0 ts) = leavesIn ts := by
  rw [leavesIn, List.range_eq_range']
  exact leavesAfter_numbered [] ts

theorem lt_length_of_leafTypeAt {ts : List Token} {type : NodeType} {k : TokenId}
    (h : leafTypeAt ts k = some type) : k < ts.length := by
  obtain ⟨t, ht, -⟩ := Option.bind_eq_some_iff.mp h
  exact (List.getElem?_eq_some_iff.mp ht).1

theorem mem_leavesIn {ts : List Token} {type : NodeType} {k : TokenId} :
    (type, k) ∈ leavesIn ts ↔ leafTypeAt ts k = some type := by
  simp only [leavesIn, List.mem_filterMap, List.mem_range, Option.map_eq_some_iff, Prod.mk.injEq]
  constructor
  · rintro ⟨k, -, type, htype, rfl, rfl⟩
    exact htype
  · intro htype
    exact ⟨k, lt_length_of_leafTypeAt htype, type, htype, rfl, rfl⟩

/-- The numbers of the leaves grow. -/
theorem pairwise_leavesIn (ts : List Token) :
    (leavesIn ts).Pairwise fun leaf later => leaf.2 < later.2 := by
  refine List.pairwise_filterMap.mpr (List.pairwise_lt_range.imp ?_)
  intro k l hlt leaf hleaf later hlater
  obtain ⟨-, -, rfl⟩ := Option.map_eq_some_iff.mp hleaf
  obtain ⟨-, -, rfl⟩ := Option.map_eq_some_iff.mp hlater
  exact hlt

/-- The tokens of a text that is read to its end ascend. -/
theorem ascending_of_drain {source text : String} {ts : List Token}
    (h : (Scan.ofText text).drain source = (ts, none)) : Ascending ts := by
  obtain ⟨front, stop, hreads, ⟨t, hfinishes, rfl, -⟩ | ⟨e, -, -, hnone⟩⟩ := Scan.reads_of_drain h
  · obtain ⟨htiles, behind, hstop⟩ := hreads.tiles (Scan.Behind.ofText text)
    obtain ⟨hlast, -, -, -⟩ := hfinishes.tiles hstop
    exact (htiles.append hlast).ascending
  · cases hnone

/-! ## Nodes of tokens -/

theorem leaf?_of_token {kind : NodeKind} {k : TokenId} (h : kind.token? = some k) :
    kind.leaf? = some (kind.type, k) := by
  rw [NodeKind.leaf?, h, Option.map_some]

theorem token_of_leaf? {kind : NodeKind} {type : NodeType} {k : TokenId}
    (h : kind.leaf? = some (type, k)) : kind.token? = some k := by
  obtain ⟨found, hfound, heq⟩ := Option.map_eq_some_iff.mp h
  rw [hfound, ← (Prod.mk.inj heq).2]

namespace Tree

variable {t : Tree} {ts : List Token}

/-- What is no node has no token. -/
theorem lt_size_of_token {id : NodeId} {k : TokenId} (h : (t.kind id).token? = some k) :
    id < t.nodes.size := by
  by_contra hge
  rw [kind, Array.getElem?_eq_none (Nat.le_of_not_lt hge)] at h
  cases h

/-- The leaves from left to right. -/
def leaves (t : Tree) : List (Leaf TokenId) := t.root.elim [] fun root => (t.branch root).leaves

/-- The tree has the tokens as its own; each that is a leaf is wrapped by one node, of its type, and
no other is wrapped; and the leaves from left to right are these tokens in the order of the text. -/
structure Wraps (t : Tree) (ts : List Token) : Prop where
  tokens : t.tokens = ts.toArray
  once : ∀ k type, leafTypeAt ts k = some type →
    ∃ id < t.nodes.size, (t.kind id).leaf? = some (type, k) ∧
      ∀ other, (t.kind other).token? = some k → other = id
  never : ∀ k, leafTypeAt ts k = none → ∀ id, (t.kind id).token? ≠ some k
  leaves : t.leaves = leavesIn ts
  increasing : t.leaves.Pairwise fun leaf later =>
    leaf.2 < later.2 ∧ (t.tokenSpan leaf.2).stop ≤ (t.tokenSpan later.2).offset

/-- Behind the root of the tree of a text that parses is its statement. -/
theorem ReadAs.branch_root {settings : ReadSettings} {text : String}
    {s : Statement (Fin t.tokens.size)} (h : t.ReadAs settings text ts s)
    (hparse : parse settings text = .ok t) :
    ∃ root, t.root = some root ∧ t.branch root = .node root .root [(s.map Fin.val).branch 0] := by
  obtain ⟨tokens, statement, rfl, -⟩ := wellFormed_of_parse hparse
  obtain ⟨hroot, -, -, -, hbranch⟩ := branch_ofStatement settings.sourceName tokens statement
  obtain ⟨hhas, hselect⟩ := has_ofStatement settings.sourceName tokens statement
  have hid := Option.some.inj (hselect.symm.trans h.holds.select)
  have hsame : statement.branch 0 = (s.map Fin.val).branch 0 := by
    rw [← hhas.2, ← h.holds.has.2, hid]
  exact ⟨_, hroot, hsame ▸ hbranch⟩

/-- The leaves of a tree that is read are those of its tokens. -/
theorem ReadAs.leaves {settings : ReadSettings} {text : String}
    {s : Statement (Fin t.tokens.size)} (h : t.ReadAs settings text ts s) :
    ((s.map Fin.val).branch 0).leaves = leavesIn ts := by
  have hrun : (s.map Fin.val).leaves = Stage.start.leavesOf (numbered 0 ts) :=
    Stage.leaves_run h.run
  have hstart : (Stage.start : Stage TokenId).Fits [] := trivial
  rw [Statement.leaves_branch, hrun,
    Stage.leavesOf_eq_leavesAfter hstart h.run (ne_eof_of_drain h.drain 0), leavesAfter_eq_leavesIn]

/-- Two nodes of a branch do not wrap one token if the numbers of its leaves grow. -/
theorem Has.eq_of_token {b : Branch} (h : t.Has b)
    (hgrow : b.leaves.Pairwise fun leaf later => leaf.2 < later.2) {id other : NodeId}
    (hid : id ∈ b.preorder) (hother : other ∈ b.preorder) {k : TokenId}
    (hk : (t.kind id).token? = some k) (hk' : (t.kind other).token? = some k) : id = other := by
  rw [← Has.leaves b h, List.pairwise_filterMap] at hgrow
  have hdiffer : b.preorder.Pairwise fun id other =>
      ¬((t.kind id).token? = some k ∧ (t.kind other).token? = some k) := by
    refine hgrow.imp fun hless hboth => ?_
    exact Nat.lt_irrefl k (hless _ (leaf?_of_token hboth.1) _ (leaf?_of_token hboth.2))
  have hsymm : Std.Symm fun id other =>
      ¬((t.kind id).token? = some k ∧ (t.kind other).token? = some k) :=
    ⟨fun _ _ hnot hboth => hnot hboth.symm⟩
  by_contra hne
  exact hdiffer.forall hid hother hne ⟨hk, hk'⟩

/-- What ascends does so by the numbers. -/
theorem tokenSpan_le_of_ascending (htokens : t.tokens = ts.toArray) (h : Ascending ts)
    {k l : TokenId} (hless : k < l) (hl : l < ts.length) :
    (t.tokenSpan k).stop ≤ (t.tokenSpan l).offset := by
  have hspan {n : TokenId} (hn : n < ts.length) : t.tokenSpan n = ts[n].span := by
    rw [tokenSpan, htokens, List.getElem?_toArray, List.getElem?_eq_getElem hn]
  rw [hspan (Nat.lt_trans hless hl), hspan hl]
  exact List.pairwise_iff_getElem.mp h k l (Nat.lt_trans hless hl) hl hless

theorem ReadAs.wraps {settings : ReadSettings} {text : String}
    {s : Statement (Fin t.tokens.size)} (h : t.ReadAs settings text ts s)
    (hparse : parse settings text = .ok t) : t.Wraps ts := by
  have hhas := h.holds.has
  have hleaves := h.leaves
  have hgrow : ((s.map Fin.val).branch 0).leaves.Pairwise fun leaf later => leaf.2 < later.2 :=
    hleaves ▸ pairwise_leavesIn ts
  -- What wraps a token is not the root, and so a node of the statement.
  have hmem {id : NodeId} {k : TokenId} (hk : (t.kind id).token? = some k) :
      id ∈ ((s.map Fin.val).branch 0).preorder :=
    h.holds.mem_preorder hparse fun hroot => by rw [hroot] at hk; cases hk
  have hwrapped {type : NodeType} {k : TokenId} : leafTypeAt ts k = some type ↔
      ∃ id ∈ ((s.map Fin.val).branch 0).preorder, (t.kind id).leaf? = some (type, k) := by
    rw [← mem_leavesIn, ← hleaves, ← Has.leaves _ hhas, List.mem_filterMap]
  have hall : t.leaves = leavesIn ts := by
    obtain ⟨root, hroot, hbranch⟩ := h.branch_root hparse
    rw [Tree.leaves, hroot, Option.elim_some, hbranch, ← hleaves]
    exact List.append_nil _
  refine ⟨h.tokens, fun k type htype => ?_, fun k hnone id hk => ?_, hall, ?_⟩
  · obtain ⟨id, hid, hleaf⟩ := hwrapped.mp htype
    have hk : (t.kind id).token? = some k := token_of_leaf? hleaf
    exact ⟨id, lt_size_of_token hk, hleaf,
      fun other hother => hhas.eq_of_token hgrow (hmem hother) hid hother hk⟩
  · have htype := hwrapped.mpr ⟨id, hmem hk, leaf?_of_token hk⟩
    rw [hnone] at htype
    cases htype
  · rw [hall]
    refine (pairwise_leavesIn ts).imp_of_mem fun {leaf later} _ hlater hless => ⟨hless, ?_⟩
    exact tokenSpan_le_of_ascending h.tokens (ascending_of_drain h.drain) hless
      (lt_length_of_leafTypeAt (mem_leavesIn.mp hlater))

end Tree

/-- A text that parses is read as tokens that its tree wraps: none that is a leaf is lost or wrapped
twice, none is wrapped that is no leaf, and none is out of order. -/
theorem wraps_of_parse {settings : ReadSettings} {text : String} {tree : Tree}
    (h : parse settings text = .ok tree) :
    ∃ ts, tokenize settings.sourceName text = .ok ts ∧ tree.Wraps ts := by
  obtain ⟨ts, s, hread⟩ := Tree.exists_readAs_of_parse h
  refine ⟨ts, ?_, hread.wraps h⟩
  rw [tokenize, hread.drain]

/-- The star that multiplies and the `NULL` of the null test are no leaves, the others are. -/
theorem wraps_of_parse_product :
    ∃ tree ts, parse .default "SELECT *, a * NULL AS n FROM t WHERE a IS NOT NULL" = .ok tree ∧
      tree.Wraps ts ∧ leavesIn ts = [(.token, 0), (.token, 1), (.id, 3), (.null, 5), (.token, 6),
        (.id, 7), (.token, 8), (.id, 9), (.token, 10), (.id, 11)] := by
  have hparses :
      (parse .default "SELECT *, a * NULL AS n FROM t WHERE a IS NOT NULL").toOption.isSome := by
    decide +kernel
  have hleaves : (tokenize ReadSettings.default.sourceName
      "SELECT *, a * NULL AS n FROM t WHERE a IS NOT NULL").toOption.map leavesIn =
        some [(.token, 0), (.token, 1), (.id, 3), (.null, 5), (.token, 6), (.id, 7), (.token, 8),
          (.id, 9), (.token, 10), (.id, 11)] := by
    decide +kernel
  cases h : parse .default "SELECT *, a * NULL AS n FROM t WHERE a IS NOT NULL" with
  | error e =>
    rw [h] at hparses
    cases hparses
  | ok tree =>
    obtain ⟨ts, htokens, hwraps⟩ := wraps_of_parse h
    rw [htokens] at hleaves
    exact ⟨tree, ts, rfl, hwraps, Option.some.inj hleaves⟩

end SelectEngine
