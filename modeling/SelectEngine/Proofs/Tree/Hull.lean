import Mathlib.Order.Bounds.Basic
import SelectEngine.Proofs.Tree.Saturated

/-!
# The span of a node is the hull of its tokens

A tree is built by adding tokens and nodes (`Tree.Built`), and the span of a node is joined at the
moment the node is added, from its own token and its children. What is joined later leaves it as it
is (`Tree.Built.joined`), and a join is a hull whatever has been joined before, spans without text
among it (`Span.IsHullOf.join`). So the span of a node is the hull of all tokens at and below it
(`Tree.span_isHullOf`), and it covers the span of every node below it.
-/

set_option autoImplicit false

namespace SelectEngine

/-! ## Hulls of spans -/

namespace Span

/-- What is read off the spans with text. -/
def ends (mark : Span → Nat) (spans : List Span) : Set Nat :=
  {n | ∃ x ∈ spans, x.isEmpty = false ∧ mark x = n}

/-- The span goes from the first to the last byte of the spans with text and starts on the first of
their lines. Where none of them has text, it has none. -/
structure IsHullOf (s : Span) (spans : List Span) : Prop where
  isEmpty : (∀ x ∈ spans, x.isEmpty = true) → s.isEmpty = true
  hull : (∃ x ∈ spans, x.isEmpty = false) →
    s.isEmpty = false ∧ IsLeast (ends offset spans) s.offset ∧
      IsGreatest (ends stop spans) s.stop ∧ IsLeast (ends line spans) s.line

variable {s t x : Span} {xs ys : List Span}

theorem ends_append (mark : Span → Nat) (xs ys : List Span) :
    ends mark (xs ++ ys) = ends mark xs ∪ ends mark ys := by
  ext n
  simp only [ends, List.mem_append, Set.mem_union, Set.mem_ofPred_eq, or_and_right, exists_or]

/-- A span without text is a placeholder, wherever it stands. -/
theorem isHullOf_nil (h : s.isEmpty = true) : s.IsHullOf [] where
  isEmpty _ := h
  hull := nofun

theorem isHullOf_singleton (s : Span) : s.IsHullOf [s] where
  isEmpty h := h s List.mem_cons_self
  hull := by
    rintro ⟨x, hx, hempty⟩
    obtain rfl := List.mem_singleton.mp hx
    have hends : ∀ mark : Span → Nat, ends mark [x] = {mark x} := by
      intro mark
      ext n
      constructor
      · rintro ⟨y, hy, -, rfl⟩
        rw [List.mem_singleton.mp hy]
        rfl
      · rintro rfl
        exact ⟨x, List.mem_cons_self, hempty, rfl⟩
    simp only [hends]
    exact ⟨hempty, isLeast_singleton, isGreatest_singleton, isLeast_singleton⟩

theorem join_of_full (hs : s.isEmpty = false) (ht : t.isEmpty = false) :
    s.join t = ⟨min s.offset t.offset, max s.stop t.stop - min s.offset t.offset,
      min s.line t.line⟩ := by
  simp [Span.join, hs, ht]

theorem offset_lt_stop (h : s.isEmpty = false) : s.offset < s.stop := by
  have hlength : 0 < s.length := by simpa [Span.isEmpty, Nat.pos_iff_ne_zero] using h
  exact Nat.lt_add_of_pos_right hlength

/-- Where both spans have text, what is joined ends where the later of them ends. -/
theorem stop_join (hs : s.isEmpty = false) (ht : t.isEmpty = false) :
    (s.join t).stop = max s.stop t.stop := by
  have hstart := offset_lt_stop hs
  rw [join_of_full hs ht]
  show min s.offset t.offset + (max s.stop t.stop - min s.offset t.offset) = _
  omega

theorem isEmpty_join_of_full (hs : s.isEmpty = false) (ht : t.isEmpty = false) :
    (s.join t).isEmpty = false := by
  have hstart := offset_lt_stop hs
  rw [join_of_full hs ht, Span.isEmpty, beq_eq_false_iff_ne]
  show max s.stop t.stop - min s.offset t.offset ≠ 0
  omega

namespace IsHullOf

/-- A hull has text if one of the spans has, and only then. -/
theorem isEmpty_eq_false_iff (h : s.IsHullOf xs) :
    s.isEmpty = false ↔ ∃ x ∈ xs, x.isEmpty = false := by
  refine ⟨fun hs => ?_, fun hx => (h.hull hx).1⟩
  by_contra hnone
  have hall : ∀ x ∈ xs, x.isEmpty = true := by
    intro x hx
    by_contra hempty
    exact hnone ⟨x, hx, Bool.eq_false_iff.mpr hempty⟩
  rw [h.isEmpty hall] at hs
  cases hs

/-- Spans without text do not count. -/
theorem congr (h : s.IsHullOf xs) (hsame : ∀ x, x.isEmpty = false → (x ∈ ys ↔ x ∈ xs)) :
    s.IsHullOf ys := by
  have hends : ∀ mark, ends mark ys = ends mark xs := by
    intro mark
    ext n
    constructor
    · rintro ⟨x, hx, hempty, hn⟩
      exact ⟨x, (hsame x hempty).mp hx, hempty, hn⟩
    · rintro ⟨x, hx, hempty, hn⟩
      exact ⟨x, (hsame x hempty).mpr hx, hempty, hn⟩
  refine ⟨fun hall => ?_, ?_⟩
  · refine h.isEmpty fun x hx => ?_
    by_contra hempty
    have hfalse := Bool.eq_false_iff.mpr hempty
    exact hempty (hall x ((hsame x hfalse).mpr hx))
  · rintro ⟨x, hx, hempty⟩
    simp only [hends]
    exact h.hull ⟨x, (hsame x hempty).mp hx, hempty⟩

/-- Two hulls are joined to the hull of all. -/
theorem join (hs : s.IsHullOf xs) (ht : t.IsHullOf ys) : (s.join t).IsHullOf (xs ++ ys) := by
  have hnone {r : Span} {zs : List Span} (hr : r.IsHullOf zs) (hempty : r.isEmpty = true) :
      ∀ x, x.isEmpty = false → x ∉ zs := by
    intro x hx hmem
    rw [hr.isEmpty_eq_false_iff.mpr ⟨x, hmem, hx⟩] at hempty
    cases hempty
  -- A span without text is dropped where it is joined, and what it is the hull of does not count.
  cases hsempty : s.isEmpty with
  | true =>
    rw [join_of_isEmpty hsempty]
    exact ht.congr fun x hx => by simp [hnone hs hsempty x hx]
  | false =>
    cases htempty : t.isEmpty with
    | true =>
      have hjoin : s.join t = s := by simp [Span.join, hsempty, htempty]
      rw [hjoin]
      exact hs.congr fun x hx => by simp [hnone ht htempty x hx]
    | false =>
      obtain ⟨-, hsoffset, hsstop, hsline⟩ := hs.hull (hs.isEmpty_eq_false_iff.mp hsempty)
      obtain ⟨-, htoffset, htstop, htline⟩ := ht.hull (ht.isEmpty_eq_false_iff.mp htempty)
      refine ⟨fun hall => ?_, fun _ => ⟨isEmpty_join_of_full hsempty htempty, ?_, ?_, ?_⟩⟩
      · obtain ⟨x, hx, hempty⟩ := hs.isEmpty_eq_false_iff.mp hsempty
        rw [hall x (List.mem_append_left ys hx)] at hempty
        cases hempty
      · rw [ends_append, join_of_full hsempty htempty]
        exact hsoffset.union htoffset
      · rw [ends_append, stop_join hsempty htempty]
        exact hsstop.union htstop
      · rw [ends_append, join_of_full hsempty htempty]
        exact hsline.union htline

/-- Hulls that are joined one after the other onto a hull are joined to the hull of all. -/
theorem foldl_join {α : Type} {span : α → Span} {spans : α → List Span} :
    ∀ {as : List α} {s : Span} {xs : List Span}, s.IsHullOf xs →
      (∀ a ∈ as, (span a).IsHullOf (spans a)) →
        (as.foldl (fun s a => s.join (span a)) s).IsHullOf (xs ++ as.flatMap spans)
  | [], s, xs, hs, _ => by rwa [List.flatMap_nil, List.append_nil]
  | a :: as, s, xs, hs, has => by
    obtain ⟨ha, has⟩ := List.forall_mem_cons.mp has
    rw [List.flatMap_cons, ← List.append_assoc]
    exact foldl_join (hs.join ha) has

/-- The hull of more spans covers a hull with text. -/
theorem covers (hs : s.IsHullOf xs) (ht : t.IsHullOf ys) (hsub : ys ⊆ xs)
    (hfull : t.isEmpty = false) : s.offset ≤ t.offset ∧ t.stop ≤ s.stop := by
  obtain ⟨x, hx, hempty⟩ := ht.isEmpty_eq_false_iff.mp hfull
  obtain ⟨-, ⟨⟨first, hfirst, hfirst', hoffset⟩, -⟩, ⟨⟨last, hlast, hlast', hstop⟩, -⟩, -⟩ :=
    ht.hull ⟨x, hx, hempty⟩
  obtain ⟨-, hleast, hgreatest, -⟩ := hs.hull ⟨x, hsub hx, hempty⟩
  exact ⟨hleast.2 ⟨first, hsub hfirst, hfirst', hoffset⟩,
    hgreatest.2 ⟨last, hsub hlast, hlast', hstop⟩⟩

end IsHullOf

end Span

/-! ## Building trees -/

namespace Tree

/-- The tree is built by adding tokens, and nodes whose tokens and children it has. -/
inductive Built : Tree → Prop
  | start (source : String) : Built (ofTokens source #[])
  | token {t : Tree} (h : Built t) (token : Token) : Built (t.addToken token).1
  | node {t : Tree} (h : Built t) {kind : NodeKind} {children : List NodeId}
      (htoken : ∀ token ∈ kind.token?, token < t.tokens.size)
      (hchildren : ∀ c ∈ children, c < t.nodes.size) : Built (t.addNode kind children).1

/-- Every node has its token in the tree, and its span is joined from its token and its children. -/
structure Joined (t : Tree) : Prop where
  token_lt : ∀ id, ∀ token ∈ (t.kind id).token?, token < t.tokens.size
  span_eq : ∀ id, t.span id = t.hull (t.kind id) (t.children id)

variable {t t' : Tree} {id : NodeId} {kind : NodeKind} {children : List NodeId}

/-- What is joined depends on the token and on the spans of the children. -/
theorem hull_congr (htoken : ∀ token ∈ kind.token?, t'.tokenSpan token = t.tokenSpan token)
    (hchildren : ∀ c ∈ children, t'.span c = t.span c) :
    t'.hull kind children = t.hull kind children := by
  have hmap (spans : NodeId → Span) (own : Span) :
      children.foldl (fun s c => s.join (spans c)) own =
        (children.map spans).foldl Span.join own := List.foldl_map.symm
  have hfold (own : Span) : children.foldl (fun s c => s.join (t'.span c)) own =
      children.foldl (fun s c => s.join (t.span c)) own := by
    rw [hmap, hmap, List.map_congr_left hchildren]
  cases hkind : kind.token? with
  | none => simp only [hull, hkind, hfold]
  | some token => simp only [hull, hkind, hfold, htoken token hkind]

theorem tokenSpan_addToken (token : Token) {number : TokenId} (h : number < t.tokens.size) :
    (t.addToken token).1.tokenSpan number = t.tokenSpan number := by
  have hget : (t.addToken token).1.tokens[number]? = t.tokens[number]? :=
    (Array.getElem?_push_lt h).trans (Array.getElem?_eq_getElem h).symm
  rw [tokenSpan, tokenSpan, hget]

/-- A token more changes no node. -/
theorem Joined.addToken (h : t.Joined) (token : Token) : (t.addToken token).1.Joined where
  token_lt id number hnumber := by
    have hsize : (t.addToken token).1.tokens.size = t.tokens.size + 1 := Array.size_push _
    rw [hsize]
    exact Nat.lt_succ_of_lt (h.token_lt id number hnumber)
  span_eq id := by
    have hhull : (t.addToken token).1.hull (t.kind id) (t.children id) =
        t.hull (t.kind id) (t.children id) :=
      hull_congr (fun number hnumber => tokenSpan_addToken token (h.token_lt id number hnumber))
        fun _ _ => rfl
    exact (h.span_eq id).trans hhull.symm

/-- A node more changes no other node. -/
theorem grown_addNode (t : Tree) (kind : NodeKind) (children : List NodeId) :
    Grown t (t.addNode kind children).1 1 :=
  ⟨rfl, rfl, Array.size_push _, fun _ hi =>
    (Array.getElem?_push_lt hi).trans (Array.getElem?_eq_getElem hi).symm⟩

theorem Grown.span {count : Nat} (h : Grown t t' count) (hid : id < t.nodes.size) :
    t'.span id = t.span id := by
  rw [Tree.span, Tree.span, h.nodes id hid]

theorem Joined.addNode (h : t.Joined) (htoken : ∀ token ∈ kind.token?, token < t.tokens.size)
    (hchildren : ∀ c ∈ children, c < t.nodes.size) : (t.addNode kind children).1.Joined := by
  have hgrown := t.grown_addNode kind children
  have hkept : children.filter (· < t.nodes.size) = children :=
    List.filter_eq_self.mpr fun c hc => decide_eq_true (hchildren c hc)
  have hnew : (t.addNode kind children).1.nodes[t.nodes.size]? =
      some ⟨kind, children, t.hull kind children⟩ := by
    simp only [Tree.addNode, hkept, Array.getElem?_push_size]
  have hnone {id : NodeId} (hid : t.nodes.size < id) :
      (t.addNode kind children).1.nodes[id]? = none :=
    Array.getElem?_eq_none (by rw [hgrown.size]; omega)
  have hhull {kind' : NodeKind} {others : List NodeId} (h : ∀ c ∈ others, c < t.nodes.size) :
      (t.addNode kind children).1.hull kind' others = t.hull kind' others :=
    hull_congr (fun _ _ => rfl) fun c hc => hgrown.span (h c hc)
  -- A node is one of those before, the new one, or there is none of its number.
  refine ⟨fun id token hmem => ?_, fun id => ?_⟩
  · show token < t.tokens.size
    rcases Nat.lt_trichotomy id t.nodes.size with hid | rfl | hid
    · rw [Tree.kind, hgrown.nodes id hid] at hmem
      exact h.token_lt id token hmem
    · rw [Tree.kind, hnew] at hmem
      exact htoken token hmem
    · rw [Tree.kind, hnone hid] at hmem
      cases hmem
  · rcases Nat.lt_trichotomy id t.nodes.size with hid | rfl | hid
    · have hkind : (t.addNode kind children).1.kind id = t.kind id := by
        rw [Tree.kind, Tree.kind, hgrown.nodes id hid]
      have hbelow : (t.addNode kind children).1.children id = t.children id := by
        rw [Tree.children, Tree.children, hgrown.nodes id hid]
      rw [hgrown.span hid, hkind, hbelow, h.span_eq id]
      exact (hhull fun c hc => Nat.lt_trans (lt_of_mem_children hc) hid).symm
    · rw [Tree.span, Tree.kind, Tree.children, hnew]
      exact (hhull hchildren).symm
    · rw [Tree.span, Tree.kind, Tree.children, hnone hid]
      rfl

/-- Every way of building keeps the spans as they have been joined. -/
theorem Built.joined (h : t.Built) : t.Joined := by
  induction h with
  | start source => exact ⟨nofun, fun _ => rfl⟩
  | token h token ih => exact ih.addToken token
  | node h htoken hchildren ih => exact ih.addNode htoken hchildren

/-! ## The tokens at and below a node -/

/-- The spans of the token of a node and of the tokens of all nodes below it. -/
def tokenSpans (t : Tree) (id : NodeId) : List Span :=
  (t.branch id).preorder.filterMap fun n => (t.kind n).token?.map t.tokenSpan

theorem preorders_eq_flatMap (bs : List Branch) :
    Branch.preorders bs = bs.flatMap Branch.preorder := by
  induction bs with
  | nil => rfl
  | cons b bs ih => rw [Branch.preorders, ih, List.flatMap_cons]

/-- The spans of a node are that of its token and those of its children. -/
theorem tokenSpans_eq (t : Tree) (id : NodeId) :
    t.tokenSpans id =
      ((t.kind id).token?.map t.tokenSpan).toList ++ (t.children id).flatMap t.tokenSpans := by
  unfold tokenSpans
  rw [branch_eq, Branch.preorder, preorders_eq_flatMap, List.filterMap_cons, List.flatMap_map,
    List.filterMap_flatMap]
  cases (t.kind id).token? <;> rfl

/-- What is below a node is below all that the node is below. -/
theorem preorder_subset (top : NodeId) (h : id ∈ (t.branch top).preorder) :
    (t.branch id).preorder ⊆ (t.branch top).preorder := by
  rw [t.branch_eq top] at h ⊢
  rcases List.mem_cons.mp h with rfl | hbelow
  · rw [← t.branch_eq]
    exact List.Subset.refl _
  · obtain ⟨b, hb, hid⟩ := (Branch.mem_preorders _).mp hbelow
    obtain ⟨c, hc, rfl⟩ := List.mem_map.mp hb
    have hless := lt_of_mem_children hc
    intro n hn
    exact List.mem_cons_of_mem _ ((Branch.mem_preorders _).mpr ⟨_, hb, preorder_subset c hid hn⟩)
termination_by top

/-- Spans that are joined node by node are the hulls of the tokens at and below each node. -/
theorem Joined.isHullOf (h : t.Joined) (id : NodeId) : (t.span id).IsHullOf (t.tokenSpans id) := by
  have hchildren : ∀ c ∈ t.children id, (t.span c).IsHullOf (t.tokenSpans c) := fun c hc =>
    have := lt_of_mem_children hc
    Joined.isHullOf h c
  rw [h.span_eq, tokenSpans_eq, hull]
  -- The join begins with the span of the node's own token, or with an empty one.
  refine Span.IsHullOf.foldl_join ?_ hchildren
  cases (t.kind id).token? with
  | none => exact Span.isHullOf_nil rfl
  | some token => exact Span.isHullOf_singleton _
termination_by id

/-- In a tree that is built, the span of every node is the hull of the tokens at and below the node,
and it covers the span of every node below, if that has text. -/
theorem span_isHullOf (h : t.Built) (id : NodeId) :
    (t.span id).IsHullOf (t.tokenSpans id) ∧
      ∀ below ∈ (t.branch id).preorder, (t.span below).isEmpty = false →
        (t.span id).offset ≤ (t.span below).offset ∧ (t.span below).stop ≤ (t.span id).stop := by
  have hhull := h.joined.isHullOf id
  refine ⟨hhull, fun below hbelow hfull => ?_⟩
  refine hhull.covers (h.joined.isHullOf below) ?_ hfull
  exact List.filterMap_subset _ (preorder_subset id hbelow)

/-- A name of two parts, the first of which is an empty token at the start of the text. -/
theorem span_isHullOf_name :
    let t₁ := ((ofTokens "q" #[]).addToken ⟨.ident, "", ⟨0, 0, 1⟩⟩).1
    let t₂ := (t₁.addToken ⟨.ident, "b", ⟨5, 1, 2⟩⟩).1
    let t₃ := ((t₂.addNode (.id 0) []).1.addNode (.id 1) []).1
    let t := (t₃.addNode .name [0, 1]).1
    t.Built ∧ t.span 2 = ⟨5, 1, 2⟩ ∧ (t.span 2).IsHullOf (t.tokenSpans 2) ∧
      ∀ below ∈ (t.branch 2).preorder, (t.span below).isEmpty = false →
        (t.span 2).offset ≤ (t.span below).offset ∧ (t.span below).stop ≤ (t.span 2).stop := by
  intro t₁ t₂ t₃ t
  have htokens : t₂.Built := ((Built.start "q").token _).token _
  have hleaves : t₃.Built :=
    (htokens.node (by rintro _ ⟨⟩; decide) (List.forall_mem_nil _)).node
      (by rintro _ ⟨⟩; decide) (List.forall_mem_nil _)
  have hbuilt : t.Built := hleaves.node (by rintro _ ⟨⟩) (by decide)
  exact ⟨hbuilt, by decide, span_isHullOf hbuilt 2⟩

end Tree

end SelectEngine
