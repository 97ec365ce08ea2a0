import SelectEngine.Automaton.Expression

/-!
# The automaton of statements

The clauses of `SELECT attribute (, attribute)* FROM source (, source)* [WHERE expression] [;]` are
read by a flat automaton, which hands the tokens of an expression to a builder and adds the nodes of
everything else as soon as it is complete. What a clause leaves for later is kept beside the state,
and is asked for when the statement is accepted; that it is missing then is an internal error.

A token is looked at until a state consumes or refuses it. It is only ever passed on to a later
state (`Automaton.step_ensures`), so that this ends, and the end of the text is never consumed:
behind it the automaton does not wait for more (`Automaton.feed_ensures`).
-/

set_option autoImplicit false

namespace SelectEngine

namespace Automaton

/-- How far a statement has been read. -/
inductive State where
  | start
  /-- An attribute is due. -/
  | attribute
  /-- Inside the expression of an attribute. -/
  | attributeExpr
  /-- Behind the expression of an attribute. -/
  | attributeAlias (value : NodeId)
  /-- Behind `expression AS`. -/
  | attributeName (value keyword : NodeId)
  /-- Behind an attribute. -/
  | attributeEnd (last : NodeId)
  /-- A source is due. -/
  | source
  /-- Behind a part of a source's name. -/
  | sourceParts
  /-- Behind the point of a source's name. -/
  | sourceDot
  /-- Behind `source AS`. -/
  | sourceName (keyword : NodeId)
  /-- Behind a source. -/
  | sourceEnd
  /-- Inside the expression of the WHERE clause. -/
  | condition (keyword : NodeId)
  /-- Behind the WHERE clause. -/
  | conditionEnd
  /-- Behind the semicolon. -/
  | closed
  | accepted

/-- What a look at a token leads to. -/
inductive Step where
  | consumed
  /-- The token is looked at again in another state. -/
  | again
  | accept

/-- What became of a token. -/
inductive Answer where
  | more
  | accepted

end Automaton

/-- The automaton of a statement: its state and the nodes that are not yet part of another one. -/
structure Automaton where
  state : Automaton.State
  select : Option NodeId
  attributes : List NodeId
  list : Option NodeId
  fromKeyword : Option NodeId
  sources : List NodeId
  /-- The parts of the name of a source that is being read. -/
  parts : List NodeId
  from_ : Option NodeId
  where_ : Option NodeId
  expr : Automaton.Builder

namespace Automaton

/-- The automaton before the first token. -/
def initial : Automaton :=
  { state := .start, select := none, attributes := [], list := none, fromKeyword := none,
    sources := [], parts := [], from_ := none, where_ := none, expr := .start true }

variable (a : Automaton) (fed : Fed)

/-- Adds what a token stands for and goes on behind it. -/
def addLeaf (kind : NodeKind) (next : NodeId → Automaton) : Building (Step × Automaton) := do
  let node ← Building.add kind []
  pure (.consumed, next node)

/-- The attribute under the name that the token is. -/
def nameAttribute (value : NodeId) (keyword : List NodeId) : Building (Step × Automaton) := do
  let name ← Building.add (.id fed.id) []
  let renamed ← Building.add .renamed (value :: keyword ++ [name])
  pure (.consumed, { a with state := .attributeEnd renamed })

/-- Joins the parts that have been read to the name of a source. -/
def takeSource : Building (NodeId × Automaton) := do
  let group ← Building.add .name a.parts
  pure (group, { a with parts := [] })

/-- The source under the name that the token is. -/
def nameSource (keyword : List NodeId) : Building (Step × Automaton) := do
  let (group, a) ← a.takeSource
  let name ← Building.add (.id fed.id) []
  let renamed ← Building.add .renamed (group :: keyword ++ [name])
  pure (.consumed, { a with sources := a.sources ++ [renamed], state := .sourceEnd })

/-- A part of the name of a source. -/
def pushPart : Building (Step × Automaton) :=
  addLeaf (.id fed.id) fun part => { a with parts := a.parts ++ [part], state := .sourceParts }

/-- Joins the sources to the FROM clause. -/
def closeFrom : Building Automaton :=
  match a.fromKeyword with
  | some keyword => do
    let from_ ← Building.add .from_ (keyword :: a.sources)
    pure { a with sources := [], from_ := some from_ }
  | none => throw (.internal "FROM clause closed before FROM keyword")

/-- Joins the clauses to the statement. -/
def accept : Building (Step × Automaton) :=
  match a.select, a.list, a.from_ with
  | some keyword, some list, some from_ => do
    let select ← Building.add .select (keyword :: list :: from_ :: a.where_.toList)
    Building.setRoot select
    pure (.accept, { a with state := .accepted })
  | _, _, _ => throw (.internal "statement accepted before it was complete")

/-- A token inside the expression of an attribute. -/
def onAttributeExpr : Building (Step × Automaton) := do
  let (progress, expr) ← a.expr.feed fed
  let a := { a with expr }
  match progress with
  | .consumed => pure (.consumed, a)
  | .finished value => pure (.again, { a with state := .attributeAlias value })
  | .starOf group star => do
    let last ← Building.add .star [group, star]
    pure (.consumed, { a with state := .attributeEnd last })

/-- A token behind the expression of an attribute. -/
def onAttributeAlias (value : NodeId) : Building (Step × Automaton) :=
  match fed.kind with
  | .kwAs => addLeaf (.token fed.id) fun keyword => { a with state := .attributeName value keyword }
  | .ident | .quotedIdent => a.nameAttribute fed value []
  | _ => pure (.again, { a with state := .attributeEnd value })

/-- A token behind an attribute. -/
def onAttributeEnd (last : NodeId) : Building (Step × Automaton) :=
  let attributes := a.attributes ++ [last]
  match fed.kind with
  | .comma => pure (.consumed, { a with attributes, state := .attribute })
  | .kwFrom => do
    let list ← Building.add .attributes attributes
    addLeaf (.token fed.id) fun keyword =>
      { a with attributes := [], list := some list, fromKeyword := some keyword, state := .source }
  | _ => fed.reject

/-- A token behind a part of a source's name, which has at most three parts. -/
def onSourceParts : Building (Step × Automaton) :=
  match fed.kind with
  | .dot =>
    if a.parts.length < 3 then pure (.consumed, { a with state := .sourceDot })
    else fed.reject
  | .kwAs => addLeaf (.token fed.id) fun keyword => { a with state := .sourceName keyword }
  | .ident | .quotedIdent => a.nameSource fed []
  | .comma | .kwWhere | .semicolon | .eof => do
    let (group, a) ← a.takeSource
    pure (.again, { a with sources := a.sources ++ [group], state := .sourceEnd })
  | _ => fed.reject

/-- A token behind a source. -/
def onSourceEnd : Building (Step × Automaton) :=
  match fed.kind with
  | .comma => pure (.consumed, { a with state := .source })
  | .kwWhere => do
    let a ← a.closeFrom
    addLeaf (.token fed.id) fun keyword =>
      { a with expr := .start false, state := .condition keyword }
  | .semicolon => do
    let a ← a.closeFrom
    pure (.consumed, { a with state := .closed })
  | .eof => do
    let a ← a.closeFrom
    a.accept
  | _ => fed.reject

/-- A token inside the expression of the WHERE clause. -/
def onCondition (keyword : NodeId) : Building (Step × Automaton) := do
  let (progress, expr) ← a.expr.feed fed
  let a := { a with expr }
  match progress with
  | .consumed => pure (.consumed, a)
  | .finished test => do
    let where_ ← Building.add .where_ [keyword, test]
    pure (.again, { a with where_ := some where_, state := .conditionEnd })
  | .starOf _ _ => fed.reject

/-- A token behind the WHERE clause. -/
def onConditionEnd : Building (Step × Automaton) :=
  match fed.kind with
  | .semicolon => pure (.consumed, { a with state := .closed })
  | .eof => a.accept
  | _ => fed.reject

/-- Looks at a token once. -/
def step : Building (Step × Automaton) :=
  match a.state with
  | .start =>
    if fed.kind = .kwSelect then
      addLeaf (.token fed.id) fun keyword => { a with select := some keyword, state := .attribute }
    else fed.reject
  | .attribute =>
    if fed.kind = .star then do
      let star ← Building.add (.token fed.id) []
      let last ← Building.add .star [star]
      pure (.consumed, { a with state := .attributeEnd last })
    else pure (.again, { a with expr := .start true, state := .attributeExpr })
  | .attributeExpr => a.onAttributeExpr fed
  | .attributeAlias value => a.onAttributeAlias fed value
  | .attributeName value keyword =>
    if fed.kind.isName then a.nameAttribute fed value [keyword] else fed.reject
  | .attributeEnd last => a.onAttributeEnd fed last
  | .source | .sourceDot => if fed.kind.isName then a.pushPart fed else fed.reject
  | .sourceParts => a.onSourceParts fed
  | .sourceName keyword => if fed.kind.isName then a.nameSource fed [keyword] else fed.reject
  | .sourceEnd => a.onSourceEnd fed
  | .condition keyword => a.onCondition fed keyword
  | .conditionEnd => a.onConditionEnd fed
  | .closed => if fed.kind = .eof then a.accept else fed.reject
  | .accepted => fed.reject

/-! ## Feeding tokens -/

/-- How often a token may still be looked at again. -/
def turnsLeft (a : Automaton) : Nat :=
  match a.state with
  | .attribute => 3
  | .attributeExpr => 2
  | .attributeAlias _ | .sourceParts | .condition _ => 1
  | _ => 0

variable {a : Automaton} {fed : Fed}

/-- What a look at a token leads to: a token is only passed on to a later state, and the end of the
text is never consumed. -/
structure Looked (a : Automaton) (fed : Fed) (result : Step × Automaton) : Prop where
  again : result.1 = .again → result.2.turnsLeft < a.turnsLeft
  atEnd : fed.kind = .eof → result.1 ≠ .consumed

/-- A token that is not the end of the text is consumed. -/
theorem looked_consumed {later : Automaton} (h : fed.kind ≠ .eof) :
    Looked a fed (.consumed, later) :=
  ⟨nofun, fun heof => absurd heof h⟩

theorem looked_again {later : Automaton} (h : later.turnsLeft < a.turnsLeft) :
    Looked a fed (.again, later) :=
  ⟨fun _ => h, nofun⟩

theorem addLeaf_ensures {kind : NodeKind} {next : NodeId → Automaton} (h : fed.kind ≠ .eof) :
    (addLeaf kind next).Ensures (Looked a fed) :=
  Building.ensures_then fun _ => Building.ensures_pure (looked_consumed h)

theorem nameAttribute_ensures {b : Automaton} {value : NodeId} {keyword : List NodeId}
    (h : fed.kind ≠ .eof) : (b.nameAttribute fed value keyword).Ensures (Looked a fed) :=
  Building.ensures_then fun _ => Building.ensures_then fun _ =>
    Building.ensures_pure (looked_consumed h)

theorem nameSource_ensures {b : Automaton} {keyword : List NodeId} (h : fed.kind ≠ .eof) :
    (b.nameSource fed keyword).Ensures (Looked a fed) :=
  Building.ensures_then fun _ => Building.ensures_then fun _ => Building.ensures_then fun _ =>
    Building.ensures_pure (looked_consumed h)

theorem accept_ensures {b : Automaton} : b.accept.Ensures (Looked a fed) := by
  fun_cases accept b with
  | case1 =>
    exact Building.ensures_then fun _ => Building.ensures_then fun _ =>
      Building.ensures_pure ⟨nofun, nofun⟩
  | case2 => exact Building.ensures_throw _ _

theorem closeFrom_accept_ensures {b : Automaton} :
    Building.Ensures (b.closeFrom >>= accept) (Looked a fed) :=
  Building.ensures_then fun _ => accept_ensures

theorem onAttributeExpr_ensures (hleft : a.turnsLeft = 2) :
    (a.onAttributeExpr fed).Ensures (Looked a fed) := by
  have hprogress : (a.expr.feed fed).Ensures fun result =>
      fed.kind = .eof → ∃ root, result.1 = .finished root :=
    fun t result h heof => Builder.feed_ensures heof t result h
  refine Building.ensures_bind hprogress fun (progress, expr) heof => ?_
  cases progress with
  | consumed => exact Building.ensures_pure (looked_consumed fun hkind => nomatch heof hkind)
  | finished root =>
    refine Building.ensures_pure (looked_again ?_)
    rw [hleft]
    exact Nat.one_lt_two
  | starOf group star =>
    exact Building.ensures_then fun _ =>
      Building.ensures_pure (looked_consumed fun hkind => nomatch heof hkind)

theorem onAttributeAlias_ensures {value : NodeId} (hleft : a.turnsLeft = 1) :
    (a.onAttributeAlias fed value).Ensures (Looked a fed) := by
  fun_cases onAttributeAlias a fed value with
  | case1 hkind => exact addLeaf_ensures (by rw [hkind]; decide)
  | case2 hkind | case3 hkind => exact nameAttribute_ensures (by rw [hkind]; decide)
  | case4 =>
    refine Building.ensures_pure (looked_again ?_)
    rw [hleft]
    exact Nat.zero_lt_one

theorem onAttributeEnd_ensures {last : NodeId} :
    (a.onAttributeEnd fed last).Ensures (Looked a fed) := by
  fun_cases onAttributeEnd a fed last with
  | case1 attributes hkind =>
    exact Building.ensures_pure (looked_consumed (by rw [hkind]; decide))
  | case2 attributes hkind =>
    exact Building.ensures_then fun _ => addLeaf_ensures (by rw [hkind]; decide)
  | case3 => exact fed.ensures_reject _

theorem onSourceParts_ensures (hleft : a.turnsLeft = 1) :
    (a.onSourceParts fed).Ensures (Looked a fed) := by
  fun_cases onSourceParts a fed with
  | case1 hkind => exact Building.ensures_pure (looked_consumed (by rw [hkind]; decide))
  | case2 => exact fed.ensures_reject _
  | case3 hkind => exact addLeaf_ensures (by rw [hkind]; decide)
  | case4 hkind | case5 hkind => exact nameSource_ensures (by rw [hkind]; decide)
  | case6 | case7 | case8 | case9 =>
    refine Building.ensures_then fun _ => Building.ensures_pure (looked_again ?_)
    rw [hleft]
    exact Nat.zero_lt_one
  | case10 => exact fed.ensures_reject _

theorem onSourceEnd_ensures : (a.onSourceEnd fed).Ensures (Looked a fed) := by
  fun_cases onSourceEnd a fed with
  | case1 hkind => exact Building.ensures_pure (looked_consumed (by rw [hkind]; decide))
  | case2 hkind => exact Building.ensures_then fun _ => addLeaf_ensures (by rw [hkind]; decide)
  | case3 hkind =>
    exact Building.ensures_then fun _ =>
      Building.ensures_pure (looked_consumed (by rw [hkind]; decide))
  | case4 => exact closeFrom_accept_ensures
  | case5 => exact fed.ensures_reject _

theorem onCondition_ensures {keyword : NodeId} (hleft : a.turnsLeft = 1) :
    (a.onCondition fed keyword).Ensures (Looked a fed) := by
  have hprogress : (a.expr.feed fed).Ensures fun result =>
      fed.kind = .eof → ∃ root, result.1 = .finished root :=
    fun t result h heof => Builder.feed_ensures heof t result h
  refine Building.ensures_bind hprogress fun (progress, expr) heof => ?_
  cases progress with
  | consumed => exact Building.ensures_pure (looked_consumed fun hkind => nomatch heof hkind)
  | finished root =>
    refine Building.ensures_then fun _ => Building.ensures_pure (looked_again ?_)
    rw [hleft]
    exact Nat.zero_lt_one
  | starOf group star => exact fed.ensures_reject _

theorem onConditionEnd_ensures : (a.onConditionEnd fed).Ensures (Looked a fed) := by
  fun_cases onConditionEnd a fed with
  | case1 hkind => exact Building.ensures_pure (looked_consumed (by rw [hkind]; decide))
  | case2 => exact accept_ensures
  | case3 => exact fed.ensures_reject _

theorem step_ensures : (a.step fed).Ensures (Looked a fed) := by
  have hne (h : fed.kind.isName = true) : fed.kind ≠ .eof := fun heof => by
    rw [heof] at h
    cases h
  fun_cases step a fed with
  | case1 hstate hkind => exact addLeaf_ensures (by rw [hkind]; decide)
  | case3 hstate hkind =>
    exact Building.ensures_then fun _ => Building.ensures_then fun _ =>
      Building.ensures_pure (looked_consumed (by rw [hkind]; decide))
  | case4 hstate =>
    refine Building.ensures_pure (looked_again ?_)
    rw [turnsLeft, turnsLeft, hstate]
    exact Nat.lt_succ_self 2
  | case5 hstate => exact onAttributeExpr_ensures (by rw [turnsLeft, hstate])
  | case6 value hstate => exact onAttributeAlias_ensures (by rw [turnsLeft, hstate])
  | case7 value keyword hstate hname => exact nameAttribute_ensures (hne hname)
  | case9 => exact onAttributeEnd_ensures
  | case10 hstate hname | case12 hstate hname => exact addLeaf_ensures (hne hname)
  | case14 hstate => exact onSourceParts_ensures (by rw [turnsLeft, hstate])
  | case15 keyword hstate hname => exact nameSource_ensures (hne hname)
  | case17 => exact onSourceEnd_ensures
  | case18 keyword hstate => exact onCondition_ensures (by rw [turnsLeft, hstate])
  | case19 => exact onConditionEnd_ensures
  | case20 => exact accept_ensures
  | case2 | case8 | case11 | case13 | case16 | case21 | case22 => exact fed.ensures_reject _

/-- Looks at a token until it is consumed or refused, or the statement is accepted. -/
def feed (a : Automaton) (fed : Fed) : Building (Answer × Automaton) := fun t =>
  match h : a.step fed t with
  | .error e => .error e
  | .ok ((.consumed, later), t) => .ok ((.more, later), t)
  | .ok ((.accept, later), t) => .ok ((.accepted, later), t)
  | .ok ((.again, later), t) =>
    have : later.turnsLeft < a.turnsLeft := (step_ensures _ _ h).again rfl
    later.feed fed t
termination_by a.turnsLeft

/-- The end of the text never leaves the automaton waiting for more. -/
theorem feed_ensures (heof : fed.kind = .eof) :
    (a.feed fed).Ensures fun result => result.1 = .accepted := by
  intro t result h
  fun_induction feed a fed t with
  | case1 => cases h
  | case2 a t later t' hstep => exact absurd rfl ((step_ensures _ _ hstep).atEnd heof)
  | case3 a t later t' hstep =>
    cases h
    rfl
  | case4 a t later t' hstep hleft ih => exact ih h

theorem ne_eof_of_more {later : Automaton} {t t' : Tree}
    (h : a.feed fed t = .ok ((.more, later), t')) : fed.kind ≠ .eof :=
  fun heof => nomatch feed_ensures heof t _ h

end Automaton

end SelectEngine
