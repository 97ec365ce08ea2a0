import SelectEngine.Proofs.Automaton.Statement
import SelectEngine.Proofs.Grammar.Order

/-!
# Laying out before the last token is known

A node is laid out when its construct is complete, and tokens go on being added to the tree. Laying
out asks for the tokens of its leaves only, so that those that come later change nothing:
`Tree.Within n` says of a step that it asks for no token behind the first `n`.
-/

set_option autoImplicit false

namespace SelectEngine

open Grammar

namespace Tree

variable {α β : Type} {n : Nat}

theorem hull_addToken {t : Tree} {kind : NodeKind} (h : ∀ id ∈ kind.token?, id < t.tokens.size)
    (token : Token) (children : List NodeId) :
    (t.addToken token).1.hull kind children = t.hull kind children := by
  unfold hull
  cases htoken : kind.token? with
  | none => rfl
  | some id =>
    have hspan : (t.addToken token).1.tokenSpan id = t.tokenSpan id := by
      rw [tokenSpan, tokenSpan, addToken, Array.getElem?_push_lt (h id htoken),
        Array.getElem?_eq_getElem (h id htoken)]
    simp only [hspan]
    rfl

/-- Trees with the same tokens, nodes and entry point are equal. -/
theorem eq_of_parts {t u : Tree} (hsource : t.source = u.source) (htokens : t.tokens = u.tokens)
    (hnodes : t.nodes = u.nodes) (hroot : t.root = u.root) : t = u := by
  cases t
  cases u
  cases hsource
  cases htokens
  cases hnodes
  cases hroot
  rfl

theorem addNode_addToken {t : Tree} {kind : NodeKind} (h : ∀ id ∈ kind.token?, id < t.tokens.size)
    (token : Token) (children : List NodeId) :
    ((t.addToken token).1.addNode kind children).1 =
      ((t.addNode kind children).1.addToken token).1 :=
  have hhull := hull_addToken h token (children.filter (· < t.nodes.size))
  eq_of_parts rfl rfl
    (congrArg (fun span => t.nodes.push ⟨kind, children.filter (· < t.nodes.size), span⟩) hhull) rfl

/-- The step adds no tokens, and tokens behind the first `n` change nothing about it. -/
structure Within (n : Nat) (x : StateM Tree α) : Prop where
  tokens : ∀ t : Tree, (x t).2.tokens = t.tokens
  later : ∀ (t : Tree) (token : Token), n ≤ t.tokens.size →
    x (t.addToken token).1 = ((x t).1, ((x t).2.addToken token).1)

theorem within_pure (a : α) : Within n (pure a) := ⟨fun _ => rfl, fun _ _ _ => rfl⟩

theorem within_bind {x : StateM Tree α} {f : α → StateM Tree β} (hx : Within n x)
    (hf : ∀ a, Within n (f a)) : Within n (x >>= f) where
  tokens t := ((hf (x t).1).tokens (x t).2).trans (hx.tokens t)
  later t token h := by
    have hsize : n ≤ (x t).2.tokens.size := by rwa [hx.tokens t]
    change f (x (t.addToken token).1).1 (x (t.addToken token).1).2 = _
    rw [hx.later t token h]
    exact (hf (x t).1).later (x t).2 token hsize

theorem within_place {kind : NodeKind} (h : ∀ id ∈ kind.token?, id < n) (children : List NodeId) :
    Within n (place kind children) where
  tokens _ := rfl
  later t token hn := by
    have hlater : ∀ id ∈ kind.token?, id < t.tokens.size := fun id hid =>
      Nat.lt_of_lt_of_le (h id hid) hn
    exact Prod.ext rfl (addNode_addToken hlater token children)

theorem within_mapM {f : α → StateM Tree β} {as : List α} (h : ∀ a ∈ as, Within n (f a)) :
    Within n (as.mapM f) := by
  induction as with
  | nil => exact within_pure []
  | cons a as ih =>
    obtain ⟨ha, has⟩ := List.forall_mem_cons.mp h
    rw [List.mapM_cons]
    exact within_bind ha fun b => within_bind (ih has) fun bs => within_pure (b :: bs)

/-- All leaves are among the first `n` tokens. -/
def LeavesWithin (n : Nat) (leaves : List (Leaf TokenId)) : Prop := ∀ leaf ∈ leaves, leaf.2 < n

theorem leavesWithin_append {front back : List (Leaf TokenId)} :
    LeavesWithin n (front ++ back) ↔ LeavesWithin n front ∧ LeavesWithin n back :=
  List.forall_mem_append

theorem leavesWithin_cons {leaf : Leaf TokenId} {leaves : List (Leaf TokenId)} :
    LeavesWithin n (leaf :: leaves) ↔ leaf.2 < n ∧ LeavesWithin n leaves :=
  List.forall_mem_cons

theorem leavesWithin_flatMap {f : α → List (Leaf TokenId)} {as : List α} :
    LeavesWithin n (as.flatMap f) ↔ ∀ a ∈ as, LeavesWithin n (f a) := by
  simp only [LeavesWithin, List.mem_flatMap]
  exact ⟨fun h a ha leaf hleaf => h leaf ⟨a, ha, hleaf⟩,
    fun h leaf ⟨a, ha, hleaf⟩ => h a ha leaf hleaf⟩

theorem within_token {kind : NodeKind} {id : TokenId} (hkind : kind.token? = some id) (h : id < n) :
    Within n (placeLeaf kind) := by
  refine within_place (fun token htoken => ?_) []
  rw [hkind] at htoken
  exact Option.some.inj htoken ▸ h

theorem within_group {kind : NodeKind} (hkind : kind.token? = none) (children : List NodeId) :
    Within n (place kind children) := by
  refine within_place (fun token htoken => ?_) children
  rw [hkind] at htoken
  cases htoken

theorem within_placeParts {parts : List TokenId} (h : LeavesWithin n (partLeaves parts)) :
    Within n (placeParts parts) :=
  within_mapM fun _ hpart => within_token rfl (h _ (List.mem_map_of_mem hpart))

mutual

theorem within_placeExpr : ∀ (e : Expr TokenId), LeavesWithin n e.leaves → Within n (placeExpr e)
  | .text leaf, h => within_token rfl (h _ (List.mem_singleton.mpr rfl))
  | .number leaf, h => within_token rfl (h _ (List.mem_singleton.mpr rfl))
  | .null leaf, h => within_token rfl (h _ (List.mem_singleton.mpr rfl))
  | .param leaf, h => within_token rfl (h _ (List.mem_singleton.mpr rfl))
  | .name parts, h => by
    rw [placeExpr]
    exact within_bind (within_placeParts h) fun _ => within_group rfl _
  | .call function args, h => by
    rw [Expr.leaves, leavesWithin_cons] at h
    rw [placeExpr]
    exact within_bind (within_token rfl h.1) fun _ =>
      within_bind (within_placeExprs args h.2) fun _ => within_group rfl _
  | .unary op operand, h => by
    rw [placeExpr]
    exact within_bind (within_placeExpr operand h) fun _ => within_group rfl _
  | .binary op left right, h => by
    rw [Expr.leaves, leavesWithin_append] at h
    rw [placeExpr]
    exact within_bind (within_placeExpr left h.1) fun _ =>
      within_bind (within_placeExpr right h.2) fun _ => within_group rfl _

theorem within_placeExprs : ∀ (es : List (Expr TokenId)), LeavesWithin n (Expr.leavesAll es) →
    Within n (placeExprs es)
  | [], _ => within_pure []
  | e :: es, h => by
    rw [Expr.leavesAll, leavesWithin_append] at h
    rw [placeExprs]
    exact within_bind (within_placeExpr e h.1) fun _ =>
      within_bind (within_placeExprs es h.2) fun _ => within_pure _

end

theorem within_placeKeyword {naming : Naming TokenId} (h : LeavesWithin n naming.leaves) :
    Within n (placeKeyword naming) := by
  unfold placeKeyword
  split
  · next keyword hkeyword =>
    rw [Naming.leaves, hkeyword] at h
    exact within_bind (within_token rfl (h (.token, keyword) (List.mem_cons_self ..))) fun _ =>
      within_pure _
  · exact within_pure []

theorem within_namingName {naming : Naming TokenId} (h : LeavesWithin n naming.leaves) :
    Within n (placeLeaf (.id naming.name)) := by
  refine within_token rfl (h (.id, naming.name) ?_)
  exact List.mem_append_right _ (List.mem_singleton.mpr rfl)

theorem within_placeAttribute {a : Attribute TokenId} (h : LeavesWithin n a.leaves) :
    Within n (placeAttribute a) := by
  fun_cases placeAttribute a with
  | case1 leaf =>
    exact within_bind (within_token rfl (h _ (List.mem_singleton.mpr rfl))) fun _ =>
      within_group rfl _
  | case2 parts leaf =>
    obtain ⟨hparts, hleaf⟩ := leavesWithin_append.mp h
    exact within_bind (within_placeParts hparts) fun _ => within_bind (within_group rfl _) fun _ =>
      within_bind (within_token rfl (hleaf _ (List.mem_singleton.mpr rfl))) fun _ =>
        within_group rfl _
  | case3 e => exact within_placeExpr e (leavesWithin_append.mp h).1
  | case4 e naming =>
    obtain ⟨he, hnaming⟩ := leavesWithin_append.mp h
    exact within_bind (within_placeExpr e he) fun _ =>
      within_bind (within_placeKeyword hnaming) fun _ =>
        within_bind (within_namingName hnaming) fun _ => within_group rfl _

theorem within_placeSource {s : FromItem TokenId} (h : LeavesWithin n s.leaves) :
    Within n (placeSource s) := by
  obtain ⟨parts, naming⟩ := s
  obtain ⟨hparts, hnaming⟩ := leavesWithin_append.mp h
  refine within_bind (within_placeParts hparts) fun _ => ?_
  cases naming with
  | none => exact within_group rfl _
  | some naming =>
    exact within_bind (within_placeKeyword hnaming) fun _ =>
      within_bind (within_group rfl _) fun _ =>
        within_bind (within_namingName hnaming) fun _ => within_group rfl _

theorem within_placeRestriction {r : Option (Restriction TokenId)}
    (h : LeavesWithin n (r.elim [] Restriction.leaves)) : Within n (placeRestriction r) := by
  cases r with
  | none => exact within_pure []
  | some r =>
    obtain ⟨hkeyword, hcondition⟩ := leavesWithin_cons.mp h
    exact within_bind (within_token rfl hkeyword) fun _ =>
      within_bind (within_placeExpr _ hcondition) fun _ => within_bind (within_group rfl _) fun _ =>
        within_pure _

end Tree

open SelectEngine.Tree

namespace Automaton

variable {n : Nat}

theorem within_layStack {stack : List (Grammar.Pending TokenId)}
    (h : LeavesWithin n (stackLeaves stack)) : Within n (layStack stack) := by
  induction stack with
  | nil => exact within_pure _
  | cons top stack ih =>
    rw [stackLeaves, leavesWithin_append] at h
    cases top with
    | binary op left =>
      exact within_bind (ih h.1) fun _ => within_bind (within_placeExpr left h.2) fun _ =>
        within_pure _
    | leading | paren => exact within_bind (ih h.1) fun _ => within_pure _
    | call function args =>
      obtain ⟨hfunction, hargs⟩ := leavesWithin_cons.mp h.2
      rw [← Expr.leavesAll_eq_flatMap] at hargs
      exact within_bind (ih h.1) fun _ => within_bind (within_token rfl hfunction) fun _ =>
        within_bind (within_placeExprs _ hargs) fun _ => within_pure _

theorem within_layState {s : Grammar.State TokenId} (h : LeavesWithin n s.leaves) :
    Within n (layState s) := by
  obtain ⟨stack, phase, allowStar⟩ := s
  obtain ⟨hstack, hphase⟩ := leavesWithin_append.mp h
  refine within_bind (within_layStack hstack) fun _ => ?_
  cases phase with
  | operand | firstArgument => exact within_pure _
  | operator e | isTest e | isNotTest e =>
    exact within_bind (within_placeExpr e hphase) fun _ => within_pure _
  | name parts | nameDot parts =>
    exact within_bind (within_placeParts hphase) fun _ => within_pure _

theorem within_attributes {attributes : List (Attribute TokenId)}
    (h : LeavesWithin n (attributes.flatMap Attribute.leaves)) :
    Within n (attributes.mapM placeAttribute) :=
  within_mapM fun a ha => within_placeAttribute (leavesWithin_flatMap.mp h a ha)

theorem within_sources {sources : List (FromItem TokenId)}
    (h : LeavesWithin n (sources.flatMap FromItem.leaves)) : Within n (sources.mapM placeSource) :=
  within_mapM fun s hs => within_placeSource (leavesWithin_flatMap.mp h s hs)

theorem within_layHead {head : Head TokenId} (h : LeavesWithin n head.leaves) :
    Within n (layHead head) := by
  obtain ⟨hselect, hattributes⟩ := leavesWithin_cons.mp h
  exact within_bind (within_token rfl hselect) fun _ =>
    within_bind (within_attributes hattributes) fun _ => within_pure _

theorem within_layBody {body : Body TokenId} (h : LeavesWithin n body.leaves) :
    Within n (layBody body) := by
  obtain ⟨hhead, hfrom⟩ := leavesWithin_append.mp h
  obtain ⟨hselect, hattributes⟩ := leavesWithin_cons.mp hhead
  obtain ⟨hkeyword, hsources⟩ := leavesWithin_cons.mp hfrom
  exact within_bind (within_token rfl hselect) fun _ =>
    within_bind (within_attributes hattributes) fun _ => within_bind (within_group rfl _) fun _ =>
      within_bind (within_token rfl hkeyword) fun _ =>
        within_bind (within_sources hsources) fun _ => within_pure _

theorem within_layClauses {s : Statement TokenId} (h : LeavesWithin n s.leaves) :
    Within n (layClauses s) := by
  obtain ⟨hbody, hrestriction⟩ := leavesWithin_append.mp h
  obtain ⟨hhead, hfrom⟩ := leavesWithin_append.mp hbody
  obtain ⟨hselect, hattributes⟩ := leavesWithin_cons.mp hhead
  obtain ⟨hkeyword, hsources⟩ := leavesWithin_cons.mp hfrom
  exact within_bind (within_token rfl hselect) fun _ =>
    within_bind (within_attributes hattributes) fun _ => within_bind (within_group rfl _) fun _ =>
      within_bind (within_token rfl hkeyword) fun _ =>
        within_bind (within_sources hsources) fun _ => within_bind (within_group rfl _) fun _ =>
          within_bind (within_placeRestriction hrestriction) fun _ => within_pure _

theorem within_layStage {stage : Stage TokenId} (h : LeavesWithin n stage.leaves) :
    Within n (layStage stage) := by
  cases stage with
  | start => exact within_pure _
  | «attribute» head => exact within_bind (within_layHead h) fun _ => within_pure _
  | attributeExpr head s =>
    obtain ⟨hhead, hs⟩ := leavesWithin_append.mp h
    exact within_bind (within_layHead hhead) fun _ => within_bind (within_layState hs) fun _ =>
      within_pure _
  | attributeName head value keyword =>
    obtain ⟨hfront, hkeyword⟩ := leavesWithin_append.mp h
    obtain ⟨hhead, hvalue⟩ := leavesWithin_append.mp hfront
    exact within_bind (within_layHead hhead) fun _ =>
      within_bind (within_placeExpr value hvalue) fun _ =>
        within_bind (within_token rfl (hkeyword _ (List.mem_singleton.mpr rfl))) fun _ =>
          within_pure _
  | attributeEnd head last =>
    obtain ⟨hhead, hlast⟩ := leavesWithin_append.mp h
    exact within_bind (within_layHead hhead) fun _ =>
      within_bind (within_placeAttribute hlast) fun _ => within_pure _
  | source body | sourceEnd body => exact within_bind (within_layBody h) fun _ => within_pure _
  | sourceParts body parts | sourceDot body parts =>
    obtain ⟨hbody, hparts⟩ := leavesWithin_append.mp h
    exact within_bind (within_layBody hbody) fun _ =>
      within_bind (within_placeParts hparts) fun _ => within_pure _
  | sourceName body parts keyword =>
    obtain ⟨hfront, hkeyword⟩ := leavesWithin_append.mp h
    obtain ⟨hbody, hparts⟩ := leavesWithin_append.mp hfront
    exact within_bind (within_layBody hbody) fun _ =>
      within_bind (within_placeParts hparts) fun _ =>
      within_bind (within_token rfl (hkeyword _ (List.mem_singleton.mpr rfl))) fun _ =>
        within_pure _
  | condition body keyword s =>
    obtain ⟨hbody, hrest⟩ := leavesWithin_append.mp h
    obtain ⟨hkeyword, hs⟩ := leavesWithin_cons.mp hrest
    exact within_bind (within_layBody hbody) fun _ => within_bind (within_group rfl _) fun _ =>
      within_bind (within_token rfl hkeyword) fun _ => within_bind (within_layState hs) fun _ =>
        within_pure _
  | closed statement => exact within_bind (within_layClauses h) fun _ => within_pure _

end Automaton

end SelectEngine
