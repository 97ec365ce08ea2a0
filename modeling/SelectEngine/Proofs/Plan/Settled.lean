import SelectEngine.Plan.Basic
import SelectEngine.Proofs.Judgement
import SelectEngine.Proofs.Tree.Held
import SelectEngine.Proofs.Tree.Parents
import SelectEngine.Proofs.Tree.Saturated

/-!
# What was found is found again

The expressions of a plan are read off what the names, the calls and the parameters of the statement
were found to mean, once all of it has been bound. No node of a statement is bound twice, so nothing
that was found for an expression is lost when the rest is bound, and what is read is what was bound
(`Plan.ofScope_eq`): every name has a column, every call a function and every parameter a number.
-/

set_option autoImplicit false

namespace SelectEngine

variable {m : Type → Type} [Monad m] [MonadExceptOf Error m] {J : Judgement m}

/-! ## Reading what was found -/

namespace Resolution

variable {tree : Tree} {params ids : List NodeId} {r r' r'' : Resolution}

/-- The two mean the same by each of the nodes. -/
def Agree (ids : List NodeId) (r r' : Resolution) : Prop :=
  ∀ id ∈ ids, r.column? id = r'.column? id ∧ r.function? id = r'.function? id

/-- The second says something else than the first of none but the nodes. -/
def Adds (ids : List NodeId) (r r' : Resolution) : Prop :=
  ∀ id ∉ ids, r.column? id = r'.column? id ∧ r.function? id = r'.function? id

theorem adds_refl (ids : List NodeId) (r : Resolution) : r.Adds ids r := fun _ _ => ⟨rfl, rfl⟩

theorem Adds.trans (h : r.Adds ids r') (h' : r'.Adds ids r'') : r.Adds ids r'' :=
  fun id hid => ⟨(h id hid).1.trans (h' id hid).1, (h id hid).2.trans (h' id hid).2⟩

theorem Adds.mono {more : List NodeId} (h : r.Adds ids r') (hsub : ids ⊆ more) : r.Adds more r' :=
  fun id hid => h id fun hmem => hid (hsub hmem)

/-- What is said of other nodes stays. -/
theorem Adds.agree {others : List NodeId} (h : r.Adds ids r') (hdisjoint : others.Disjoint ids) :
    Agree others r r' :=
  fun id hid => h id (hdisjoint hid)

theorem column?_addColumn (id : NodeId) (ref : ColumnRef) :
    (r.addColumn id ref).column? id = some ref := by
  simp [column?, addColumn]

theorem function?_addCall (id : NodeId) (f : Function) :
    (r.addCall id f).function? id = some f := by
  simp [function?, addCall]

theorem adds_addColumn (id : NodeId) (ref : ColumnRef) : r.Adds [id] (r.addColumn id ref) := by
  intro other hother
  have hne : (other == id) = false := by simpa using hother
  exact ⟨by rw [column?, column?, addColumn, List.lookup_cons, hne], rfl⟩

theorem adds_addCall (id : NodeId) (f : Function) : r.Adds [id] (r.addCall id f) := by
  intro other hother
  have hne : (other == id) = false := by simpa using hother
  exact ⟨rfl, by rw [function?, function?, addCall, List.lookup_cons, hne]⟩

mutual

/-- An expression is read off what is said of its nodes. -/
theorem expression_congr : ∀ b : Branch, Agree b.preorder r r' →
    r.expression tree params b = r'.expression tree params b
  | .node id kind children, h => by
    have hchildren : r.expressions tree params children = r'.expressions tree params children :=
      expressions_congr children fun id hid => h id (List.mem_cons_of_mem _ hid)
    obtain ⟨hcolumn, hfunction⟩ := h id List.mem_cons_self
    unfold expression
    rw [hcolumn, hfunction, hchildren]

theorem expressions_congr : ∀ bs : List Branch, Agree (Branch.preorders bs) r r' →
    r.expressions tree params bs = r'.expressions tree params bs
  | [], _ => rfl
  | b :: bs, h => by
    rw [expressions, expressions,
      expression_congr b fun id hid => h id (List.mem_append_left _ hid),
      expressions_congr bs fun id hid => h id (List.mem_append_right _ hid)]

end

end Resolution

/-! ## Expressions -/

namespace Resolver

variable {r : Resolver m}

/-- The parameters among the nodes are among those of the statement. -/
def ListsParams (r : Resolver m) (ids : List NodeId) : Prop :=
  ∀ id ∈ ids, (r.tree.kind id).type = .param → id ∈ r.params

theorem ordinalAmong_of_mem {params : List NodeId} {id : NodeId} (h : id ∈ params) :
    ordinalAmong params id = some (params.idxOf id + 1) := by
  have hplace := List.idxOf_eq_getD_idxOf? id params
  cases hfound : params.idxOf? id with
  | none => exact absurd h (List.idxOf?_eq_none_iff.mp hfound)
  | some n =>
    rw [hfound] at hplace
    rw [ordinalAmong, hfound, hplace]
    rfl

/-- A parameter of the statement has its number. -/
theorem numbered_of_mem {id : NodeId} (h : id ∈ r.params) :
    (r.numbered id : m Nat) = pure (r.ordinal id) := by
  rw [numbered, ordinalAmong_of_mem h]
  rfl

/-- A parameter that has a number has no other. -/
theorem numbered_holds (hJ : J.Partial) (id : NodeId) :
    J.holds (r.numbered id) fun ordinal => ordinal = r.ordinal id := by
  by_cases h : id ∈ r.params
  · rw [numbered_of_mem h]
    exact J.returning rfl
  · rw [numbered, ordinalAmong, List.idxOf?_eq_none_iff.mpr h]
    exact J.failing (hJ.admits _)

/-- What is read of the branch in the end is what was found, and nothing else has been found. -/
def Reads (r : Resolver m) (b : Branch) (before : Resolution) (found : Bound × Resolution) : Prop :=
  found.2.expression r.tree r.params b = found.1 ∧ before.Adds b.preorder found.2

mutual

theorem resolve_reads (hJ : J.Partial) (depth : Nat) : ∀ b : Branch, r.tree.Has b →
    r.ListsParams b.preorder → b.preorder.Nodup → ∀ before : Resolution,
      J.holds ((r.resolve depth b).run before) (r.Reads b before)
  | .node id kind children, hhas, hlisted, hnodup, before => by
    obtain ⟨hfresh, hnodup⟩ := List.nodup_cons.mp hnodup
    have hbelow : Branch.preorders children ⊆ (Branch.node id kind children).preorder :=
      fun _ => List.mem_cons_of_mem _
    have hself : [id] ⊆ (Branch.node id kind children).preorder :=
      List.cons_subset.mpr ⟨List.mem_cons_self, List.nil_subset _⟩
    have hall (depth : Nat) := resolveAll_reads hJ depth children (fun b hb => hhas.below hb)
      (fun id hid => hlisted id (hbelow hid)) hnodup
    -- What stands below a node that is no operator and no call leaves no trace in its expression.
    have hwalked (e : Bound)
        (he : ∀ after : Resolution, after.expression r.tree r.params (.node id kind children) = e) :
        J.holds ((do let _ ← r.resolveAll depth children; pure e :
          StateT Resolution m Bound).run before) (r.Reads (.node id kind children) before) :=
      Judgement.run_bind (hall depth before) fun found hfound =>
        J.returning ⟨he _, hfound.2.mono hbelow⟩
    cases kind with
    | name =>
      rw [resolve]
      refine Judgement.run_lift_bind (hJ.any _) fun ref _ => Judgement.run_modify_bind ?_
      refine J.returning ⟨?_, (before.adds_addColumn id ref).mono hself⟩
      rw [Resolution.expression, before.column?_addColumn id ref]
    | call =>
      rw [resolve]
      refine Judgement.run_lift_bind (hJ.any _) fun f _ => Judgement.run_modify_bind ?_
      refine Judgement.run_lift_bind (hJ.any _) fun _ _ => ?_
      refine Judgement.run_bind (hall (depth + 1) _) ?_
      rintro ⟨parts, after⟩ ⟨hparts, hadds⟩
      refine J.returning ⟨?_, ((before.adds_addCall id f).mono hself).trans (hadds.mono hbelow)⟩
      -- The arguments are bound behind the call, and do not touch what was found for it.
      have hfunction : after.function? id = some f :=
        (hadds id hfresh).2.symm.trans (before.function?_addCall id f)
      rw [Resolution.expression, hfunction, hparts]
    | operation op =>
      rw [resolve]
      refine Judgement.run_lift_bind (hJ.any _) fun _ _ => ?_
      refine Judgement.run_bind (hall (depth + 1) before) ?_
      rintro ⟨operands, after⟩ ⟨hoperands, hadds⟩
      refine J.returning ⟨?_, hadds.mono hbelow⟩
      rw [Resolution.expression, hoperands]
    | param token =>
      have hmem : id ∈ r.params := hlisted id List.mem_cons_self (by rw [hhas.kind]; rfl)
      rw [resolve]
      refine hwalked _ fun after => ?_
      rw [Resolution.expression, ordinalAmong_of_mem hmem]
      rfl
    | text token | number token | null token =>
      rw [resolve]
      exact hwalked _ fun _ => rfl
    | root | select | attributes | star | from_ | where_ | renamed | id token | token token =>
      simp only [resolve]
      exact hwalked _ fun _ => rfl

theorem resolveAll_reads (hJ : J.Partial) (depth : Nat) : ∀ bs : List Branch,
    (∀ b ∈ bs, r.tree.Has b) → r.ListsParams (Branch.preorders bs) → (Branch.preorders bs).Nodup →
      ∀ before : Resolution, J.holds ((r.resolveAll depth bs).run before) fun found =>
        found.2.expressions r.tree r.params bs = found.1 ∧
          before.Adds (Branch.preorders bs) found.2
  | [], _, _, _, before => J.returning ⟨rfl, before.adds_refl _⟩
  | b :: bs, hhas, hlisted, hnodup, before => by
    obtain ⟨hb, hbs⟩ := List.forall_mem_cons.mp hhas
    obtain ⟨hfirst, hrest, hdisjoint⟩ := List.nodup_append'.mp hnodup
    rw [resolveAll]
    refine Judgement.run_bind (resolve_reads hJ depth b hb
      (fun id hid => hlisted id (List.mem_append_left _ hid)) hfirst before) ?_
    rintro ⟨e, middle⟩ ⟨he, hadds⟩
    refine Judgement.run_bind (resolveAll_reads hJ depth bs hbs
      (fun id hid => hlisted id (List.mem_append_right _ hid)) hrest middle) ?_
    rintro ⟨es, after⟩ ⟨hes, hmore⟩
    refine J.returning ⟨?_, (hadds.mono (List.subset_append_left _ _)).trans
      (hmore.mono (List.subset_append_right _ _))⟩
    -- What was read of the first branch is not touched by the others.
    rw [Resolution.expressions, ← Resolution.expression_congr b (hmore.agree hdisjoint), he, hes]

end

theorem typed_reads (hJ : J.Partial) {b : Branch} (hhas : r.tree.Has b)
    (hlisted : r.ListsParams b.preorder) (hnodup : b.preorder.Nodup) (before : Resolution) :
    J.holds ((r.typed b).run before) fun found => r.Reads b before (found.1.1, found.2) := by
  refine Judgement.run_bind (resolve_reads hJ 0 b hhas hlisted hnodup before) ?_
  rintro ⟨e, after⟩ hfound
  exact Judgement.run_relay_bind hJ.admits fun t _ => J.returning hfound

end Resolver

/-! ## Fields -/

namespace Selection

variable {tree : Tree} {params ids : List NodeId} {s : Selection}

/-- The expression of the field, if it has one, is what is read of its node, and that stands among
the given ones with all that is below it. -/
def SettledField (tree : Tree) (params ids : List NodeId) (r : Resolution) (f : Field) : Prop :=
  ∀ node e, f.kind = .computed node e → (tree.branch node).preorder ⊆ ids ∧
    r.expression tree params (tree.branch node) = e

/-- The expressions of the fields found so far are what is read of their nodes. -/
def Settled (tree : Tree) (params ids : List NodeId) (s : Selection) : Prop :=
  ∀ f ∈ s.fields, SettledField tree params ids s.resolution f

theorem Settled.mono {more : List NodeId} (h : s.Settled tree params ids) (hsub : ids ⊆ more) :
    s.Settled tree params more := by
  intro f hf node e hkind
  obtain ⟨hids, he⟩ := h f hf node e hkind
  exact ⟨fun id hid => hsub (hids hid), he⟩

/-- What is found at other nodes leaves the expressions of the fields as they are. -/
theorem Settled.adds {others : List NodeId} {after : Resolution} (h : s.Settled tree params ids)
    (hadds : s.resolution.Adds others after) (hdisjoint : ids.Disjoint others) :
    { s with resolution := after }.Settled tree params ids := by
  intro f hf node e hkind
  obtain ⟨hids, he⟩ := h f hf node e hkind
  refine ⟨hids, ?_⟩
  rw [← he]
  exact (Resolution.expression_congr _ (hadds.agree fun id hid => hdisjoint (hids hid))).symm

theorem Settled.add (h : s.Settled tree params ids) {fields : List Field}
    (hfields : ∀ f ∈ fields, SettledField tree params ids s.resolution f) :
    (s.add fields).Settled tree params ids :=
  List.forall_mem_append.mpr ⟨h, hfields⟩

theorem Settled.addNamed (h : s.Settled tree params ids) (settings : Settings)
    {field : String → Field}
    (hfield : ∀ name, SettledField tree params ids s.resolution (field name)) :
    (s.addNamed settings field).Settled tree params ids := by
  obtain ⟨fields, _ | name, generated, resolution⟩ := s
  · exact h.add (List.forall_mem_singleton.mpr (hfield _))
  · exact h.add (List.forall_mem_singleton.mpr (hfield _))

theorem Settled.addColumn (h : s.Settled tree params ids) (ref : ColumnRef) :
    (s.addColumn ref).Settled tree params ids := by
  obtain ⟨fields, _ | name, generated, resolution⟩ := s
  · exact h.add (List.forall_mem_singleton.mpr nofun)
  · exact h.add (List.forall_mem_singleton.mpr nofun)

end Selection

namespace Resolver

variable {r : Resolver m} {ids : List NodeId} {s : Selection}

/-- The fields found from the selection on are settled, and so are those before. -/
abbrev Settles (J : Judgement m) (r : Resolver m) (ids : List NodeId)
    (x : StateT Selection m Unit) (s : Selection) : Prop :=
  J.holds (x.run s) fun found => found.2.Settled r.tree r.params ids

theorem settles_modify {g : Selection → Selection} (h : (g s).Settled r.tree r.params ids) :
    Settles J r ids (modify g) s := J.returning h

theorem selectComputed_settles (hJ : J.Partial) (settings : Settings) {b : Branch}
    (hhas : r.tree.Has b) (hlisted : r.ListsParams b.preorder) (hnodup : b.preorder.Nodup)
    (hs : s.Settled r.tree r.params ids) (hdisjoint : ids.Disjoint b.preorder) :
    Settles J r (ids ++ b.preorder) (r.selectComputed settings b) s := by
  have hself : r.tree.branch b.id = b := hhas.2
  refine Judgement.run_bind (P := fun found => found = (s, s)) (J.returning rfl) ?_
  rintro _ rfl
  refine Judgement.run_lift_bind (typed_reads hJ hhas hlisted hnodup s.resolution) ?_
  rintro ⟨⟨e, t⟩, after⟩ ⟨he, hadds⟩
  refine J.returning ?_
  have hfound := (hs.adds hadds hdisjoint).mono (List.subset_append_left ids b.preorder)
  refine hfound.addNamed settings fun name node e' hkind => ?_
  cases hkind
  rw [hself]
  exact ⟨List.subset_append_right _ _, he⟩

theorem selectStar_settles (hJ : J.Partial) (b : Branch) (hs : s.Settled r.tree r.params ids) :
    Settles J r ids (r.selectStar b) s := by
  have hadd (refs : List ColumnRef) :
      Settles J r ids (modify fun s => s.add (refs.map Field.data)) s :=
    settles_modify (hs.add (List.forall_mem_map.mpr fun _ _ => nofun))
  unfold selectStar
  split
  · exact Judgement.run_relay_bind hJ.admits fun source _ =>
      Judgement.run_lift_bind (hJ.any _) fun refs _ => hadd refs
  · exact Judgement.run_lift_bind (hJ.any _) fun refs _ => hadd refs

mutual

theorem select_settles (hJ : J.Partial) (settings : Settings) : ∀ (b : Branch) (ids : List NodeId)
    (s : Selection), r.tree.Has b → r.ListsParams b.preorder → b.preorder.Nodup →
      s.Settled r.tree r.params ids → ids.Disjoint b.preorder →
        Settles J r (ids ++ b.preorder) (r.select settings b) s
  | .node id kind children, ids, s, hhas, hlisted, hnodup, hs, hdisjoint => by
    have hmore : s.Settled r.tree r.params (ids ++ (Branch.node id kind children).preorder) :=
      hs.mono (List.subset_append_left _ _)
    have hbelow : Branch.preorders children ⊆ (Branch.node id kind children).preorder :=
      fun _ => List.mem_cons_of_mem _
    have hchildren : ids ++ Branch.preorders children ⊆
        ids ++ (Branch.node id kind children).preorder :=
      List.append_subset.mpr ⟨List.subset_append_left _ _,
        List.Subset.trans hbelow (List.subset_append_right _ _)⟩
    have hapart : ids.Disjoint (Branch.preorders children) :=
      fun id hid hmem => hdisjoint hid (hbelow hmem)
    have hlistedBelow : r.ListsParams (Branch.preorders children) :=
      fun id hid => hlisted id (hbelow hid)
    have hnodupBelow := (List.nodup_cons.mp hnodup).2
    cases kind with
    | attributes =>
      exact J.weaken (selectAll_settles hJ settings children ids s (fun b hb => hhas.below hb)
        hlistedBelow hnodupBelow hs hapart) fun found hfound => hfound.mono hchildren
    | star => exact selectStar_settles hJ _ hmore
    | renamed =>
      rw [select]
      refine Judgement.run_relay_bind hJ.admits fun named _ => Judgement.run_modify_bind ?_
      refine Judgement.run_bind (selectFirst_settles hJ settings children ids
        { s with pending := some named.2 } (fun b hb => hhas.below hb) hlistedBelow hnodupBelow hs
        hapart) fun found hfound => ?_
      exact settles_modify (hfound.mono hchildren)
    | text token | number token | null token =>
      rw [select]
      exact Judgement.run_relay_bind hJ.admits fun v _ =>
        settles_modify (hmore.addNamed settings fun name => nofun)
    | name =>
      rw [select]
      exact Judgement.run_lift_bind (hJ.any _) fun ref _ => settles_modify (hmore.addColumn ref)
    | param token =>
      rw [select]
      exact Judgement.run_lift_bind (hJ.any _) fun ordinal _ =>
        settles_modify (hmore.addNamed settings fun name => nofun)
    | operation op | call =>
      exact selectComputed_settles hJ settings hhas hlisted hnodup hs hdisjoint
    | root | select | from_ | where_ | id token | token token =>
      exact J.sequencing (J.failing (hJ.admits _)) fun _ (h : False) => h.elim

theorem selectAll_settles (hJ : J.Partial) (settings : Settings) : ∀ (bs : List Branch)
    (ids : List NodeId) (s : Selection), (∀ b ∈ bs, r.tree.Has b) →
      r.ListsParams (Branch.preorders bs) → (Branch.preorders bs).Nodup →
        s.Settled r.tree r.params ids → ids.Disjoint (Branch.preorders bs) →
          Settles J r (ids ++ Branch.preorders bs) (r.selectAll settings bs) s
  | [], ids, s, _, _, _, hs, _ => J.returning (hs.mono (List.subset_append_left _ _))
  | b :: bs, ids, s, hhas, hlisted, hnodup, hs, hdisjoint => by
    obtain ⟨hb, hbs⟩ := List.forall_mem_cons.mp hhas
    obtain ⟨hfirst, hrest, hapart⟩ := List.nodup_append'.mp hnodup
    obtain ⟨hleft, hright⟩ := List.disjoint_append_right.mp hdisjoint
    rw [selectAll, Branch.preorders, ← List.append_assoc]
    refine Judgement.run_bind (select_settles hJ settings b ids s hb
      (fun id hid => hlisted id (List.mem_append_left _ hid)) hfirst hs hleft)
      fun found hfound => ?_
    exact selectAll_settles hJ settings bs (ids ++ b.preorder) found.2 hbs
      (fun id hid => hlisted id (List.mem_append_right _ hid)) hrest hfound
      (List.disjoint_append_left.mpr ⟨hright, hapart⟩)

theorem selectFirst_settles (hJ : J.Partial) (settings : Settings) : ∀ (bs : List Branch)
    (ids : List NodeId) (s : Selection), (∀ b ∈ bs, r.tree.Has b) →
      r.ListsParams (Branch.preorders bs) → (Branch.preorders bs).Nodup →
        s.Settled r.tree r.params ids → ids.Disjoint (Branch.preorders bs) →
          Settles J r (ids ++ Branch.preorders bs) (r.selectFirst settings bs) s
  | [], ids, s, _, _, _, hs, _ => J.returning (hs.mono (List.subset_append_left _ _))
  | b :: bs, ids, s, hhas, hlisted, hnodup, hs, hdisjoint => by
    rw [selectFirst, Branch.preorders, ← List.append_assoc]
    refine J.weaken (select_settles hJ settings b ids s (hhas b List.mem_cons_self)
      (fun id hid => hlisted id (List.mem_append_left _ hid)) (List.nodup_append'.mp hnodup).1 hs
      (List.disjoint_append_right.mp hdisjoint).1) fun found hfound => ?_
    exact hfound.mono (List.subset_append_left _ _)

end

end Resolver

/-! ## Plans -/

theorem Field.reread_eq {read : NodeId → Bound} {f : Field}
    (h : ∀ node e, f.kind = .computed node e → read node = e) : f.reread read = id f := by
  obtain ⟨name, type, kind, column, hname, htype⟩ := f
  cases kind with
  | static | param | data => rfl
  | computed node e =>
    exact congrArg (fun e => Field.mk name type (.computed node e) column hname htype)
      (h node e rfl)

/-- Different branches side by side have no node in common. -/
theorem Branch.disjoint_of_mem {bs : List Branch} (h : (preorders bs).Nodup) {b c : Branch}
    (hb : b ∈ bs) (hc : c ∈ bs) (hne : b ≠ c) : b.preorder.Disjoint c.preorder := by
  induction bs with
  | nil => cases hb
  | cons first bs ih =>
    obtain ⟨-, hrest, hapart⟩ := List.nodup_append'.mp h
    have hlater {d : Branch} (hd : d ∈ bs) : first.preorder.Disjoint d.preorder :=
      fun id hid hmem => hapart hid ((mem_preorders bs).mpr ⟨d, hd, hmem⟩)
    rcases List.mem_cons.mp hb with rfl | hb'
    · exact hlater ((List.mem_cons.mp hc).resolve_left hne.symm)
    · rcases List.mem_cons.mp hc with rfl | hc'
      · exact List.disjoint_comm.mp (hlater hb')
      · exact ih hrest hb' hc'

theorem Branch.preorder_subset_of_mem {bs : List Branch} {b : Branch} (h : b ∈ bs) :
    b.preorder ⊆ preorders bs :=
  fun _ hid => (mem_preorders bs).mpr ⟨b, h, hid⟩

/-- The nodes of a branch are below the branch that has it as a child. -/
theorem Branch.mem_preorder_of_child {b : Branch} {bs : List Branch} {id i : NodeId} {k : NodeKind}
    (hb : b ∈ bs) (hid : id ∈ b.preorder) : id ∈ (Branch.node i k bs).preorder :=
  List.mem_cons_of_mem _ (preorder_subset_of_mem hb hid)

theorem Branch.nodup_of_mem {bs : List Branch} (h : (preorders bs).Nodup) {b : Branch}
    (hb : b ∈ bs) : b.preorder.Nodup := by
  induction bs with
  | nil => cases hb
  | cons first bs ih =>
    obtain ⟨hfirst, hrest, -⟩ := List.nodup_append'.mp h
    rcases List.mem_cons.mp hb with rfl | hb
    · exact hfirst
    · exact ih hrest hb

namespace Plan

variable {tree : Tree} {select : Branch} {scope : Scope m} {registry : Registry}
variable {settings : Settings}

/-- The part of a statement that a clause is stands below the statement. -/
theorem mem_children_of_clause {type : NodeType} {missing : String} {b : Branch}
    (h : clause select type missing = .ok b) : b ∈ select.children ∧ b.kind.type = type := by
  rw [clause] at h
  split at h
  · next c hfound =>
    cases h
    exact ⟨List.mem_of_find?_eq_some hfound, by simpa using List.find?_some hfound⟩
  · cases h

/-- The condition stands below a WHERE clause. -/
theorem mem_children_of_condition {b : Branch}
    (h : ((select.child? .where_).bind fun w => w.children.getLast?) = some b) :
    ∃ w ∈ select.children, w.kind.type = .where_ ∧ b ∈ w.children := by
  obtain ⟨w, hfound, hlast⟩ := Option.bind_eq_some_iff.mp h
  exact ⟨w, List.mem_of_find?_eq_some hfound, by simpa using List.find?_some hfound,
    List.mem_of_getLast? hlast⟩

theorem predicateOf_reads (hJ : J.Partial) {r : Resolver m} {b : Branch} (hhas : r.tree.Has b)
    (hlisted : r.ListsParams b.preorder) (hnodup : b.preorder.Nodup) (before : Resolution) :
    J.holds ((predicateOf r b).run before) fun found =>
      found.1.1 = b.id ∧ r.Reads b before (found.1.2, found.2) := by
  refine Judgement.run_bind (Resolver.typed_reads hJ hhas hlisted hnodup before) ?_
  rintro ⟨⟨e, t⟩, after⟩ hfound
  dsimp only
  split
  · exact J.returning ⟨rfl, hfound⟩
  · exact J.sequencing (J.failing (hJ.admits _)) fun _ (h : False) => h.elim

/-- A plan is settled if its expressions are what is read of their nodes. -/
theorem settle_eq {p : Plan}
    (hfields : ∀ f ∈ p.fields, ∀ node e, f.kind = .computed node e → p.expression node = e)
    (hpredicate : ∀ node e, p.predicate = some (node, e) → p.expression node = e) :
    p.settle = p := by
  have hreread : p.fields.map (Field.reread p.expression) = p.fields :=
    (List.map_congr_left fun f hf => Field.reread_eq (hfields f hf)).trans (List.map_id _)
  have hcondition :
      (p.predicate.map fun found => (found.1, p.expression found.1)) = p.predicate := by
    cases hfound : p.predicate with
    | none => rfl
    | some found => exact congrArg (fun e => some (found.1, e)) (hpredicate _ _ hfound)
  change { p with fields := _, predicate := _ } = p
  rw [hreread, hcondition]

/-- The parameters of a statement are numbered wherever they stand in it. -/
theorem listsParams_paramNodes {m : Type → Type} (tree : Tree) (select : Branch) (scope : Scope m)
    (registry : Registry) (maxDepth : Nat) {ids : List NodeId} (h : ids ⊆ select.preorder) :
    Resolver.ListsParams ⟨tree, scope, registry, paramNodes tree select, maxDepth⟩ ids := by
  intro n hn hparam
  refine List.mem_eraseDups.mpr (List.mem_filter.mpr ⟨h hn, ?_⟩)
  simpa using hparam

/-- What is found for a statement no node of which stands in it twice is settled. -/
theorem resolved_settled (hJ : J.Partial) (hhas : tree.Has select)
    (hnodup : select.preorder.Nodup) :
    J.holds (resolved tree select scope registry settings) fun p => p.settle = p := by
  obtain ⟨id, kind, children⟩ := select
  obtain ⟨-, hbelow⟩ := List.nodup_cons.mp hnodup
  have hlisted {ids : List NodeId} (hids : ids ⊆ Branch.preorders children) :=
    listsParams_paramNodes tree (.node id kind children) scope registry settings.maxDepth
      fun n hn => List.mem_cons_of_mem id (hids hn)
  unfold resolved
  dsimp only
  generalize hr : Resolver.mk tree scope registry (paramNodes tree (.node id kind children))
    settings.maxDepth = r at hlisted ⊢
  have htree : r.tree = tree := hr ▸ rfl
  refine J.sequencing (P := fun c => clause (Branch.node id kind children) .attributes
    "SELECT without attribute list" = .ok c) (Judgement.relay (fun _ h => h) fun e _ => hJ.admits e)
    fun attributes hclause => ?_
  obtain ⟨hattributes, htype⟩ := mem_children_of_clause hclause
  refine J.sequencing (Resolver.select_settles hJ settings attributes [] .empty
    (htree ▸ hhas.below hattributes) (hlisted (Branch.preorder_subset_of_mem hattributes))
    (Branch.nodup_of_mem hbelow hattributes) (fun f hf => absurd hf List.not_mem_nil)
    (List.disjoint_nil_left _)) ?_
  rintro ⟨_, selection⟩ hselected
  cases hcondition : ((Branch.node id kind children).child? .where_).bind
      fun w => w.children.getLast? with
  | none =>
    refine J.sequencing (P := fun found => found = (none, selection.resolution))
      (J.returning rfl) ?_
    rintro _ rfl
    subst hr
    exact J.returning (settle_eq (fun f hf node e hkind => (hselected f hf node e hkind).2) nofun)
  | some b =>
    obtain ⟨⟨n, k, parts⟩, hw, hwhere, hb⟩ := mem_children_of_condition hcondition
    -- The list and the WHERE clause are different parts of the statement.
    have hapart : attributes.preorder.Disjoint (Branch.node n k parts).preorder := by
      refine Branch.disjoint_of_mem hbelow hattributes hw ?_
      rintro rfl
      cases htype.symm.trans hwhere
    have hinside : b.preorder ⊆ (Branch.node n k parts).preorder :=
      fun id hid => List.mem_cons_of_mem _ (Branch.preorder_subset_of_mem hb hid)
    have hpredicate := predicateOf_reads hJ (r := r) (b := b)
      (htree ▸ (hhas.below hw).below hb)
      (hlisted (List.Subset.trans hinside (Branch.preorder_subset_of_mem hw)))
      (Branch.nodup_of_mem (List.nodup_cons.mp (Branch.nodup_of_mem hbelow hw)).2 hb)
      selection.resolution
    refine J.sequencing hpredicate ?_
    rintro ⟨⟨_, e⟩, after⟩ ⟨rfl, he, hadds⟩
    refine J.sequencing (P := fun found => found = (some (b.id, e), after)) (J.returning rfl) ?_
    rintro _ rfl
    have hsettled := hselected.adds hadds
      fun id hid hmem => hapart (by simpa using hid) (hinside hmem)
    have hself : tree.branch b.id = b := ((hhas.below hw).below hb).2
    subst hr
    refine J.returning (settle_eq (fun f hf node e hkind => (hsettled f hf node e hkind).2) ?_)
    rintro _ _ hfound
    cases hfound
    exact (congrArg _ hself).trans he

/-- No node of a statement stands in it twice. -/
theorem nodup_preorder_branch (s : Statement TokenId) : (s.branch 0).preorder.Nodup :=
  ((s.covers_branch 0).perm (s.length_preorder_branch 0)).nodup_iff.mp List.nodup_range'

/-- The plan of a statement that the tree has is what was found, in any monad that can be judged. -/
theorem ofScope_eq (hJ : J.Partial) {s : Statement TokenId} (h : tree.Has (s.branch 0))
    (scope : Scope m) (registry : Registry) (settings : Settings) :
    ofScope tree (s.branch 0) scope registry settings =
      resolved tree (s.branch 0) scope registry settings :=
  hJ.fixing (resolved_settled hJ h (nodup_preorder_branch s))

end Plan

end SelectEngine
