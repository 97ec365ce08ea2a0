import SelectEngine.Proofs.Tree.Layout
import SelectEngine.Proofs.Tree.Trace

/-!
# What a pass visits

A pass may read and change its state wherever it likes, and so what it does at a node is not a
matter of the node alone: it can stop there, walk on, or fail. `Pass.Visits` says what a walk leads
to whatever the state is. Every walk visits a part of what is below the node that it starts from
(`Pass.exists_visits`), and the rest is read off that part: the hooks run on the way around it, a
failure ends the walk, a pass that neither stops nor fails visits all, and a strict pass that does
not fail of itself fails at the first node that it does not handle.
-/

set_option autoImplicit false

namespace SelectEngine

variable {σ : Type}

namespace Handler

/-- In some state the handler stops at its node. -/
def CanStop (h : Handler σ) : Prop := ∃ s, (h.act s).1 = .stop

/-- In some state the handler walks on below its node. -/
def CanWalk (h : Handler σ) : Prop := ∃ s, (h.act s).1 = .walk

/-- In some state the handler fails of itself, at first or once it has walked. -/
def CanFail (h : Handler σ) (e : Error) : Prop :=
  ∃ s, (h.act s).1 = .fail e ∨ (h.conclude s).1 = .error e

/-- A conclusion adds nothing to a walk, or a failure to one that has not failed. -/
theorem andThen_finish (h : Handler σ) (id : NodeId) (w : Walk σ) :
    ((w.andThen (h.finish id)).trace = w.trace ∧ (w.andThen (h.finish id)).result = w.result) ∨
      ∃ e, h.CanFail e ∧ w.result = .ok () ∧
        (w.andThen (h.finish id)).trace = w.trace ++ [.fail id e] ∧
        (w.andThen (h.finish id)).result = .error e := by
  cases hresult : w.result with
  | error e =>
    rw [Walk.andThen_of_error _ hresult]
    exact .inl ⟨rfl, hresult⟩
  | ok =>
    obtain ⟨htrace, hlast⟩ := Walk.andThen_of_ok (h.finish id) hresult
    rw [htrace, hlast]
    cases hconclude : h.conclude w.state with
    | mk r later =>
      cases r with
      | ok =>
        have hfinish : h.finish id w.state = .done later := by simp only [finish, hconclude]
        rw [hfinish]
        exact .inl ⟨List.append_nil _, rfl⟩
      | error e =>
        have hfinish : h.finish id w.state = .failed id e later := by simp only [finish, hconclude]
        rw [hfinish]
        exact .inr ⟨e, ⟨w.state, .inr (congrArg Prod.fst hconclude)⟩, rfl, rfl, rfl⟩

/-- All that can happen at a node that is handled. -/
theorem visit_cases (h : Handler σ) (id : NodeId) (below : σ → Walk σ) (s : σ) :
    let v := h.visit id below s
    (h.CanStop ∧ v.trace = [.handle id] ∧ v.result = .ok ()) ∨
    (∃ e, h.CanFail e ∧ v.trace = [.handle id, .fail id e] ∧ v.result = .error e) ∨
    (h.CanWalk ∧ ∃ inner, v.trace = .handle id :: (below inner).trace ∧
      v.result = (below inner).result) ∨
    (h.CanWalk ∧ ∃ inner e, h.CanFail e ∧ (below inner).result = .ok () ∧
      v.trace = .handle id :: ((below inner).trace ++ [.fail id e]) ∧ v.result = .error e) := by
  cases hact : h.act s with
  | mk action later =>
    have hfirst : (h.act s).1 = action := congrArg Prod.fst hact
    simp only [visit, hact]
    cases action with
    | stop => exact .inl ⟨⟨s, hfirst⟩, rfl, rfl⟩
    | fail e => exact .inr (.inl ⟨e, ⟨s, .inl hfirst⟩, rfl, rfl⟩)
    | walk =>
      -- The handler runs once more behind what is below the node.
      rcases h.andThen_finish id (below later) with ⟨htrace, hresult⟩ |
        ⟨e, hfail, hok, htrace, hresult⟩
      · exact .inr (.inr (.inl ⟨⟨s, hfirst⟩, later, congrArg _ htrace, hresult⟩))
      · exact .inr (.inr (.inr ⟨⟨s, hfirst⟩, later, e, hfail, hok, congrArg _ htrace, hresult⟩))

end Handler

namespace Pass

variable {p : Pass σ} {id : NodeId} {kind : NodeKind} {e : Error}

/-! ## At a node -/

/-- The pass handles a node and can stop there. -/
def CanStop (p : Pass σ) (id : NodeId) (kind : NodeKind) : Prop :=
  ∃ h ∈ p.handler id kind, h.CanStop

/-- The pass can walk on below a node. -/
def CanWalk (p : Pass σ) (id : NodeId) (kind : NodeKind) : Prop :=
  match p.handler id kind with
  | some h => h.CanWalk
  | none => p.policy = .recurse

/-- The pass handles a node and can fail there of itself. -/
def CanFail (p : Pass σ) (id : NodeId) (kind : NodeKind) (e : Error) : Prop :=
  ∃ h ∈ p.handler id kind, h.CanFail e

/-- The pass is strict and does not handle a node. -/
def Refuses (p : Pass σ) (id : NodeId) (kind : NodeKind) : Prop :=
  p.handler id kind = none ∧ p.policy = .strict

/-- How the pass can fail at a node that it has not walked on from. -/
def FailsAt (p : Pass σ) (id : NodeId) (kind : NodeKind) (e : Error) : Prop :=
  p.CanFail id kind e ∨ p.Refuses id kind ∧ e = unhandled kind p.name

/-- The mark that a handler leaves in a trace. -/
def mark (p : Pass σ) (id : NodeId) (kind : NodeKind) : List Moment :=
  if (p.handler id kind).isSome then [.handle id] else []

/-- A mark says no more than that its node is handled. -/
theorem mem_mark {m : Moment} (h : m ∈ p.mark id kind) : m = .handle id := by
  rw [mark] at h
  split at h
  · exact List.mem_singleton.mp h
  · cases h

/-- All that can happen at a node that has been entered. -/
theorem visit_cases (p : Pass σ) (id : NodeId) (kind : NodeKind) (below : σ → Walk σ) (s : σ) :
    let v := p.visit id kind below s
    (p.CanStop id kind ∧ v.trace = p.mark id kind ∧ v.result = .ok ()) ∨
    (∃ e, p.FailsAt id kind e ∧ v.trace = p.mark id kind ++ [.fail id e] ∧
      v.result = .error e) ∨
    (p.CanWalk id kind ∧ ∃ inner, v.trace = p.mark id kind ++ (below inner).trace ∧
      v.result = (below inner).result) ∨
    (p.CanWalk id kind ∧ ∃ inner e, p.CanFail id kind e ∧ (below inner).result = .ok () ∧
      v.trace = p.mark id kind ++ ((below inner).trace ++ [.fail id e]) ∧
      v.result = .error e) := by
  intro v
  cases hhandler : p.handler id kind with
  | none =>
    have hmark : p.mark id kind = [] := by simp only [mark, hhandler]; rfl
    rw [hmark]
    cases hpolicy : p.policy with
    | strict =>
      have hv : v = .failed id (unhandled kind p.name) s := by
        simp only [v, visit, hhandler, hpolicy]
      rw [hv]
      exact .inr (.inl ⟨_, .inr ⟨⟨hhandler, hpolicy⟩, rfl⟩, rfl, rfl⟩)
    | recurse =>
      have hv : v = below s := by simp only [v, visit, hhandler, hpolicy]
      rw [hv]
      exact .inr (.inr (.inl ⟨by simpa only [CanWalk, hhandler], s, rfl, rfl⟩))
  | some h =>
    have hmark : p.mark id kind = [.handle id] := by simp only [mark, hhandler]; rfl
    have hv : v = h.visit id below s := by simp only [v, visit, hhandler]
    have hgo (hwalk : h.CanWalk) : p.CanWalk id kind := by simpa only [CanWalk, hhandler]
    rw [hmark, hv]
    rcases h.visit_cases id below s with ⟨hstop, hend⟩ | ⟨e, hfail, hend⟩ | ⟨hwalk, hend⟩ |
      ⟨hwalk, inner, e, hfail, hend⟩
    · exact .inl ⟨⟨h, hhandler, hstop⟩, hend⟩
    · exact .inr (.inl ⟨e, .inl ⟨h, hhandler, hfail⟩, hend⟩)
    · exact .inr (.inr (.inl ⟨hgo hwalk, hend⟩))
    · exact .inr (.inr (.inr ⟨hgo hwalk, inner, e, ⟨h, hhandler, hfail⟩, hend⟩))

theorem CanStop.isSome (h : p.CanStop id kind) : (p.handler id kind).isSome := by
  obtain ⟨handler, hhandler, -⟩ := h
  exact Option.isSome_of_mem hhandler

/-- A strict pass walks on below nothing but what it handles. -/
theorem CanWalk.isSome (h : p.CanWalk id kind) (hstrict : p.policy = .strict) :
    (p.handler id kind).isSome := by
  cases hhandler : p.handler id kind with
  | some handler => rfl
  | none =>
    simp only [CanWalk, hhandler, hstrict] at h
    cases h

/-! ## The part that is visited -/

/-- The pass visits a part of the given branches, with the given trace and result. Without a failure
that is every branch, and otherwise those up to the failure; below a node it is all or nothing, as
the pass walks on or stops, unless it fails there. -/
inductive Visits (p : Pass σ) :
    List Branch → List Branch → List Moment → Except Error Unit → Prop
  | nil : Visits p [] [] [] (.ok ())
  | stop {id : NodeId} {kind : NodeKind} {children bs part : List Branch} {rest : List Moment}
      {r : Except Error Unit} (h : p.CanStop id kind) (hrest : Visits p bs part rest r) :
      Visits p (.node id kind children :: bs) (.node id kind [] :: part)
        (.enter id :: (p.mark id kind ++ .leave id :: rest)) r
  | walk {id : NodeId} {kind : NodeKind} {children bs below part : List Branch}
      {inside rest : List Moment} {r : Except Error Unit} (h : p.CanWalk id kind)
      (hbelow : Visits p children below inside (.ok ())) (hrest : Visits p bs part rest r) :
      Visits p (.node id kind children :: bs) (.node id kind below :: part)
        (.enter id :: (p.mark id kind ++ (inside ++ .leave id :: rest))) r
  | failBelow {id : NodeId} {kind : NodeKind} {children bs below : List Branch}
      {inside : List Moment} {e : Error} (h : p.CanWalk id kind)
      (hbelow : Visits p children below inside (.error e)) :
      Visits p (.node id kind children :: bs) [.node id kind below]
        (.enter id :: (p.mark id kind ++ (inside ++ [.leave id]))) (.error e)
  | failAt {id : NodeId} {kind : NodeKind} {children bs : List Branch} {e : Error}
      (h : p.FailsAt id kind e) :
      Visits p (.node id kind children :: bs) [.node id kind []]
        (.enter id :: (p.mark id kind ++ [.fail id e, .leave id])) (.error e)
  | failAfter {id : NodeId} {kind : NodeKind} {children bs below : List Branch}
      {inside : List Moment} {e : Error} (h : p.CanWalk id kind) (hfail : p.CanFail id kind e)
      (hbelow : Visits p children below inside (.ok ())) :
      Visits p (.node id kind children :: bs) [.node id kind below]
        (.enter id :: (p.mark id kind ++ (inside ++ [.fail id e, .leave id]))) (.error e)

theorem walkAll_cons_of_ok (p : Pass σ) {children : List Branch} (bs : List Branch) {s : σ}
    (h : (p.visit id kind (p.walkAll children) (p.onEnter id kind s)).result = .ok ()) :
    ∃ later, (p.walkAll (.node id kind children :: bs) s).trace =
        .enter id :: ((p.visit id kind (p.walkAll children) (p.onEnter id kind s)).trace ++
          .leave id :: (p.walkAll bs later).trace) ∧
      (p.walkAll (.node id kind children :: bs) s).result = (p.walkAll bs later).result := by
  have hwalk : (p.walk (.node id kind children) s).result = .ok () := h
  obtain ⟨htrace, hresult⟩ := Walk.andThen_of_ok (p.walkAll bs) hwalk
  refine ⟨_, htrace.trans ?_, hresult⟩
  rw [walk, List.cons_append, List.append_assoc, List.singleton_append]

theorem walkAll_cons_of_error (p : Pass σ) {children : List Branch} (bs : List Branch) {s : σ}
    (h : (p.visit id kind (p.walkAll children) (p.onEnter id kind s)).result = .error e) :
    (p.walkAll (.node id kind children :: bs) s).trace =
        .enter id :: ((p.visit id kind (p.walkAll children) (p.onEnter id kind s)).trace ++
          [.leave id]) ∧
      (p.walkAll (.node id kind children :: bs) s).result = .error e := by
  have hwalk : (p.walk (.node id kind children) s).result = .error e := h
  rw [walkAll, Walk.andThen_of_error _ hwalk]
  exact ⟨rfl, hwalk⟩

theorem walkAll_singleton (p : Pass σ) (b : Branch) (s : σ) :
    (p.walkAll [b] s).trace = (p.walk b s).trace ∧
      (p.walkAll [b] s).result = (p.walk b s).result := by
  cases hresult : (p.walk b s).result with
  | ok =>
    obtain ⟨htrace, hlast⟩ := Walk.andThen_of_ok (p.walkAll []) hresult
    exact ⟨htrace.trans (List.append_nil _), hlast⟩
  | error e =>
    rw [walkAll, Walk.andThen_of_error _ hresult]
    exact ⟨rfl, hresult⟩

/-- Every walk over branches visits a part of them. -/
theorem exists_visits (p : Pass σ) : ∀ (bs : List Branch) (s : σ), ∃ part,
    p.Visits bs part (p.walkAll bs s).trace (p.walkAll bs s).result
  | [], _ => ⟨[], .nil⟩
  | .node id kind children :: bs, s => by
    rcases p.visit_cases id kind (p.walkAll children) (p.onEnter id kind s) with
      ⟨hstop, hvisit, hresult⟩ | ⟨e, hfail, hvisit, hresult⟩ | ⟨hgo, inner, hvisit, hresult⟩ |
      ⟨hgo, inner, e, hfail, hok, hvisit, hresult⟩
    · obtain ⟨later, htrace, hlast⟩ := p.walkAll_cons_of_ok bs hresult
      obtain ⟨part, hpart⟩ := exists_visits p bs later
      rw [htrace, hlast, hvisit]
      exact ⟨_, .stop hstop hpart⟩
    · obtain ⟨htrace, hlast⟩ := p.walkAll_cons_of_error bs hresult
      rw [htrace, hlast, hvisit, List.append_assoc]
      exact ⟨_, .failAt hfail⟩
    · obtain ⟨below, hbelow⟩ := exists_visits p children inner
      -- A failure below the node ends the walk; without one it goes on behind the node.
      cases hinner : (p.walkAll children inner).result with
      | ok =>
        rw [hinner] at hresult hbelow
        obtain ⟨later, htrace, hlast⟩ := p.walkAll_cons_of_ok bs hresult
        obtain ⟨part, hpart⟩ := exists_visits p bs later
        rw [htrace, hlast, hvisit, List.append_assoc]
        exact ⟨_, .walk hgo hbelow hpart⟩
      | error e =>
        rw [hinner] at hresult hbelow
        obtain ⟨htrace, hlast⟩ := p.walkAll_cons_of_error bs hresult
        rw [htrace, hlast, hvisit, List.append_assoc]
        exact ⟨_, .failBelow hgo hbelow⟩
    · obtain ⟨below, hbelow⟩ := exists_visits p children inner
      rw [hok] at hbelow
      obtain ⟨htrace, hlast⟩ := p.walkAll_cons_of_error bs hresult
      rw [htrace, hlast, hvisit, List.append_assoc, List.append_assoc]
      exact ⟨_, .failAfter hgo hfail hbelow⟩

/-! ## Entering a node -/

theorem hooks_enter (p : Pass σ) (id : NodeId) (kind : NodeKind) (rest : List Moment) :
    (Moment.enter id :: (p.mark id kind ++ rest)).filter Moment.isHook =
      .enter id :: rest.filter Moment.isHook := by
  have hmark : (p.mark id kind).filter Moment.isHook = [] :=
    List.filter_eq_nil_iff.mpr fun m hm => by simp [mem_mark hm, Moment.isHook]
  rw [List.filter_cons_of_pos rfl, List.filter_append, hmark, List.nil_append]

theorem quiet_enter (p : Pass σ) (id : NodeId) (kind : NodeKind) :
    ∀ m ∈ Moment.enter id :: p.mark id kind, m.isFailure = false :=
  List.forall_mem_cons.mpr ⟨rfl, fun m hm => by rw [mem_mark hm]; rfl⟩

/-- Of branches of a tree, the first one is a node with its kind and its children. -/
theorem branches_inv {t : Tree} {ids : List NodeId} {children bs : List Branch}
    (h : ids.map t.branch = .node id kind children :: bs) :
    kind = t.kind id ∧ children = (t.children id).map t.branch ∧
      ∃ rest : List NodeId, rest.map t.branch = bs := by
  obtain ⟨first, rest, rfl, hfirst, hrest⟩ := List.map_eq_cons_iff.mp h
  rw [t.branch_eq] at hfirst
  cases hfirst
  exact ⟨rfl, rfl, rest, hrest⟩

/-! ## The first node that is not handled -/

/-- The result of a strict pass that does not fail of itself and has entered the given nodes: the
first of them that it does not handle is named. -/
def refusal (p : Pass σ) (t : Tree) (entered : List NodeId) : Except Error Unit :=
  match entered.find? fun id => (p.handler id (t.kind id)).isNone with
  | none => .ok ()
  | some id => .error (unhandled (t.kind id) p.name)

section Refusal

variable {t : Tree} {rest : List NodeId}

theorem refusal_cons (h : (p.handler id (t.kind id)).isSome) :
    p.refusal t (id :: rest) = p.refusal t rest := by
  have hhandled : (p.handler id (t.kind id)).isNone = false := Option.isNone_eq_false_iff.mpr h
  rw [refusal, refusal, List.find?_cons, hhandled]

theorem refusal_append (first rest : List NodeId) :
    p.refusal t (first ++ rest) = (p.refusal t first).bind fun _ => p.refusal t rest := by
  rw [refusal, refusal, List.find?_append]
  cases first.find? fun id => (p.handler id (t.kind id)).isNone <;> rfl

end Refusal

/-! ## What the part says -/

namespace Visits

variable {bs part : List Branch} {trace : List Moment} {r : Except Error Unit}

/-- The hooks run on the way around the part that is visited. -/
theorem hooks (h : p.Visits bs part trace r) :
    trace.filter Moment.isHook = Branch.tours part := by
  induction h with
  | nil => rfl
  | stop _ _ ih =>
    rw [Branch.tours_cons, ← ih, hooks_enter]
    rfl
  | walk _ _ _ ihbelow ihrest =>
    rw [Branch.tours_cons, ← ihbelow, ← ihrest, hooks_enter, List.filter_append]
    rfl
  | failBelow _ _ ih =>
    rw [Branch.tours_cons, ← ih, hooks_enter, List.filter_append]
    rfl
  | failAt _ =>
    rw [Branch.tours_cons, hooks_enter]
    rfl
  | failAfter _ _ _ ih =>
    rw [Branch.tours_cons, ← ih, hooks_enter, List.filter_append]
    rfl

/-- A failure ends the walk. -/
theorem outcome (h : p.Visits bs part trace r) : Moment.Outcome trace r := by
  have hleave (id : NodeId) : ∀ m ∈ [Moment.leave id], m.isFailure = false :=
    List.forall_mem_singleton.mpr rfl
  have hfailed (id : NodeId) (e : Error) :
      Moment.Outcome [.fail id e, .leave id] (.error e) :=
    ⟨[], id, [id], List.forall_mem_nil _, rfl⟩
  induction h with
  | nil => exact List.forall_mem_nil _
  | stop _ _ ih => exact .append (p.quiet_enter _ _) (.append (hleave _) ih)
  | walk _ _ _ ihbelow ihrest =>
    exact .append (p.quiet_enter _ _) (.append ihbelow (.append (hleave _) ihrest))
  | failBelow _ _ ih => exact .append (p.quiet_enter _ _) (ih.leave _)
  | failAt _ => exact .append (p.quiet_enter _ _) (hfailed _ _)
  | failAfter _ _ _ ih => exact .append (p.quiet_enter _ _) (.append ih (hfailed _ _))

/-- A pass that neither stops nor fails anywhere visits all. -/
theorem whole (h : p.Visits bs part trace r) (hstop : ∀ id kind, ¬p.CanStop id kind)
    (hfail : ∀ id kind e, ¬p.CanFail id kind e) (hrefuse : ∀ id kind, ¬p.Refuses id kind) :
    r = .ok () ∧ part = bs := by
  induction h with
  | nil => exact ⟨rfl, rfl⟩
  | stop h => exact absurd h (hstop _ _)
  | walk _ _ _ ihbelow ihrest =>
    obtain ⟨-, rfl⟩ := ihbelow
    obtain ⟨hr, rfl⟩ := ihrest
    exact ⟨hr, rfl⟩
  | failBelow _ _ ih => cases ih.1
  | failAt h =>
    rcases h with h | ⟨h, -⟩
    · exact absurd h (hfail _ _ _)
    · exact absurd h (hrefuse _ _)
  | failAfter _ h => exact absurd h (hfail _ _ _)

/-- A strict pass that does not fail of itself fails at the first node that it does not handle. -/
theorem refusal {t : Tree} (ids : List NodeId) (h : p.Visits (ids.map t.branch) part trace r)
    (hstrict : p.policy = .strict) (hnever : ∀ id kind e, ¬p.CanFail id kind e) :
    r = p.refusal t (Branch.preorders part) := by
  -- The branches are those of nodes of the tree: a node has the kind that the tree gives it.
  generalize hbs : ids.map t.branch = bs at h
  induction h generalizing ids with
  | nil => rfl
  | stop h _ ih =>
    obtain ⟨rfl, -, rest, rfl⟩ := branches_inv hbs
    rw [Branch.preorders_cons, refusal_cons h.isSome]
    exact ih _ rfl
  | walk h _ _ ihbelow ihrest =>
    obtain ⟨rfl, rfl, rest, rfl⟩ := branches_inv hbs
    rw [Branch.preorders_cons, refusal_cons (h.isSome hstrict), refusal_append, ← ihbelow _ rfl]
    exact ihrest _ rfl
  | failBelow h _ ih =>
    obtain ⟨rfl, rfl, -⟩ := branches_inv hbs
    rw [Branch.preorders_cons, refusal_cons (h.isSome hstrict), refusal_append, ← ih _ rfl]
    rfl
  | @failAt id kind _ _ e h =>
    obtain ⟨rfl, -⟩ := branches_inv hbs
    obtain hfail | ⟨⟨hnone, -⟩, rfl⟩ := h
    · exact absurd hfail (hnever _ _ _)
    · simp only [Branch.preorders_cons, Pass.refusal, List.find?_cons, hnone, Option.isNone_none]
  | failAfter _ h => exact absurd h (hnever _ _ _)

/-- Of one branch one part is visited. -/
theorem singleton {b : Branch} (h : p.Visits [b] part trace r) : ∃ one, part = [one] := by
  cases h with
  | stop _ hrest =>
    cases hrest
    exact ⟨_, rfl⟩
  | walk _ _ hrest =>
    cases hrest
    exact ⟨_, rfl⟩
  | _ => exact ⟨_, rfl⟩

end Visits

/-! ## The walk from a node -/

theorem exists_visits_walk (p : Pass σ) (b : Branch) (s : σ) :
    ∃ part, p.Visits [b] [part] (p.walk b s).trace (p.walk b s).result := by
  obtain ⟨parts, h⟩ := p.exists_visits [b] s
  obtain ⟨htrace, hresult⟩ := p.walkAll_singleton b s
  rw [htrace, hresult] at h
  obtain ⟨part, rfl⟩ := h.singleton
  exact ⟨part, h⟩

/-- The hooks of a walk run on the way around the part that it visits, and so in nested pairs, one
for each node that is entered, and in pre-order; a failure ends the walk. A recursing pass that
handles nothing visits all, and a strict one that does not fail of itself fails at the first node it
enters and does not handle. -/
theorem walk_balanced_complete (p : Pass σ) (t : Tree) (id : NodeId) (s : σ) :
    let w := p.walk (t.branch id) s
    (∃ part, p.Visits [t.branch id] [part] w.trace w.result ∧ w.hooks = part.tour ∧
        w.entered = part.preorder) ∧
      Nested w.hooks ∧ Moment.Outcome w.trace w.result ∧
      (p.policy = .recurse → (∀ n kind, p.handler n kind = none) →
        w.result = .ok () ∧ w.hooks = (t.branch id).tour ∧ w.entered = (t.branch id).preorder) ∧
      (p.policy = .strict → (∀ n kind e, ¬p.CanFail n kind e) →
        w.result = p.refusal t w.entered) := by
  intro w
  obtain ⟨part, h⟩ := p.exists_visits_walk (t.branch id) s
  have hhooks : w.hooks = Branch.tours [part] := h.hooks
  have hentered : w.entered = Branch.preorders [part] := by
    rw [w.entered_eq, hhooks, Branch.entered_tours]
  have htour : w.hooks = part.tour := hhooks.trans (List.append_nil _)
  have hpreorder : w.entered = part.preorder := hentered.trans (List.append_nil _)
  refine ⟨⟨part, h, htour, hpreorder⟩, ?_, h.outcome, fun hpolicy hnone => ?_,
    fun hstrict hnever => ?_⟩
  · rw [hhooks]
    exact Branch.nested_tours _
  · have hstop : ∀ n kind, ¬p.CanStop n kind := by simp [CanStop, hnone]
    have hfail : ∀ n kind e, ¬p.CanFail n kind e := by simp [CanFail, hnone]
    have hrefuse : ∀ n kind, ¬p.Refuses n kind := by simp [Refuses, hpolicy]
    obtain ⟨hresult, hpart⟩ := h.whole hstop hfail hrefuse
    obtain rfl := List.singleton_inj.mp hpart
    exact ⟨hresult, htour, hpreorder⟩
  · rw [hentered]
    exact Visits.refusal [id] h hstrict hnever

/-- A strict pass that counts the numbers below operations, at the sum of a number and a null: the
null is the last of the three nodes that it enters, and the first that it does not handle. -/
theorem walk_balanced_complete_sum :
    let tokens : Array Token := #[⟨.number, "1", ⟨0, 1, 1⟩⟩, ⟨.kwNull, "NULL", ⟨4, 4, 1⟩⟩]
    let leaves := (((Tree.ofTokens "q" tokens).addNode (.number 0) []).1.addNode (.null 1) []).1
    let t := (leaves.addNode (.operation .add) [0, 1]).1
    let p : Pass Nat := ⟨"Numbers", .strict, fun _ _ n => n, fun _ _ n => n, fun _ kind =>
      match kind with
      | .operation _ => some ⟨fun n => (.walk, n), fun n => (.ok (), n)⟩
      | .number _ => some ⟨fun n => (.stop, n + 1), fun n => (.ok (), n)⟩
      | _ => none⟩
    let w := p.walk (t.branch 2) 0
    p.policy = .strict ∧ (∀ n kind e, ¬p.CanFail n kind e) ∧ w.entered = [2, 0, 1] ∧
      w.result = .error (.notImplemented "NullNode in Numbers") ∧
      w.result = p.refusal t w.entered := by
  intro tokens leaves t p w
  have hnever : ∀ n kind e, ¬p.CanFail n kind e := by
    rintro n kind e ⟨h, hh, s, hfail⟩
    cases kind <;> cases hh <;> rcases hfail with hfail | hfail <;> cases hfail
  have hnumber : t.branch 0 = .node 0 (.number 0) [] := t.branch_eq 0
  have hnull : t.branch 1 = .node 1 (.null 1) [] := t.branch_eq 1
  have hbranch : t.branch 2 = .node 2 (.operation .add) [t.branch 0, t.branch 1] := t.branch_eq 2
  have hw : w = p.walk (.node 2 (.operation .add)
      [.node 0 (.number 0) [], .node 1 (.null 1) []]) 0 := by
    rw [← hnumber, ← hnull, ← hbranch]
  obtain ⟨-, -, -, -, hrefusal⟩ := p.walk_balanced_complete t 2 0
  refine ⟨rfl, hnever, ?_, ?_, hrefusal rfl hnever⟩
  · rw [hw]
    rfl
  · rw [hw]
    rfl

end Pass

end SelectEngine
