import SelectEngine.Automaton.Statement
import SelectEngine.Proofs.Automaton.Expression

/-!
# The automaton of statements and the stages of the grammar

A stage of the grammar holds attributes and sources where the automaton holds nodes. `layStage` lays
out what a stage holds and answers with the automaton that has read the same tokens, and feeding a
token to this automaton is feeding it to the stage and laying out what it answers with
(`feed_layStage`): every clause that the automaton asks for when a clause or the statement ends is
there.
-/

set_option autoImplicit false

namespace SelectEngine

open SelectEngine.Tree Building

namespace Automaton

/-- The SELECT clause as far as it has been read. -/
def layHead (head : Grammar.Head TokenId) : StateM Tree Automaton := do
  let select ← placeLeaf (.token head.select)
  let attributes ← head.attributes.reverse.mapM placeAttribute
  pure { initial with select := some select, attributes }

/-- The SELECT clause and the FROM clause as far as it has been read. -/
def layBody (body : Grammar.Body TokenId) : StateM Tree Automaton := do
  let select ← placeLeaf (.token body.select)
  let attributes ← body.attributes.reverse.mapM placeAttribute
  let list ← place .attributes attributes
  let keyword ← placeLeaf (.token body.from_)
  let sources ← body.sources.reverse.mapM placeSource
  pure { initial with
    select := some select, list := some list, fromKeyword := some keyword, sources }

/-- The clauses of a statement. -/
def layClauses (s : Statement TokenId) : StateM Tree Automaton := do
  let select ← placeLeaf (.token s.select)
  let attributes ← s.attributes.mapM placeAttribute
  let list ← place .attributes attributes
  let keyword ← placeLeaf (.token s.from_)
  let sources ← s.sources.mapM placeSource
  let from_ ← place .from_ (keyword :: sources)
  let where_ ← placeRestriction s.restriction
  pure { initial with
    select := some select, list := some list, fromKeyword := some keyword, from_ := some from_,
    where_ := where_.head?, expr := .start s.restriction.isNone }

/-- What a stage holds, laid out: the automaton that has read the same tokens. -/
def layStage : Grammar.Stage TokenId → StateM Tree Automaton
  | .start => pure initial
  | .attribute head => do
    let a ← layHead head
    pure { a with state := .attribute }
  | .attributeExpr head s => do
    let a ← layHead head
    let expr ← layState s
    pure { a with expr, state := .attributeExpr }
  | .attributeName head value keyword => do
    let a ← layHead head
    let value ← placeExpr value
    let keyword ← placeLeaf (.token keyword)
    pure { a with state := .attributeName value keyword }
  | .attributeEnd head last => do
    let a ← layHead head
    let last ← placeAttribute last
    pure { a with state := .attributeEnd last }
  | .source body => do
    let a ← layBody body
    pure { a with state := .source }
  | .sourceParts body parts => do
    let a ← layBody body
    let parts ← placeParts parts
    pure { a with parts, state := .sourceParts }
  | .sourceDot body parts => do
    let a ← layBody body
    let parts ← placeParts parts
    pure { a with parts, state := .sourceDot }
  | .sourceName body parts keyword => do
    let a ← layBody body
    let parts ← placeParts parts
    let keyword ← placeLeaf (.token keyword)
    pure { a with parts, state := .sourceName keyword }
  | .sourceEnd body => do
    let a ← layBody body
    pure { a with state := .sourceEnd }
  | .condition body keyword s => do
    let a ← layBody body
    let from_ ← place .from_ (a.fromKeyword.toList ++ a.sources)
    let keyword ← placeLeaf (.token keyword)
    let expr ← layState s
    pure { a with sources := [], from_ := some from_, expr, state := .condition keyword }
  | .closed statement => do
    let a ← layClauses statement
    pure { a with state := .closed }

/-- What the grammar answers with, laid out. -/
def layOutcome (fed : Fed) : Option (Grammar.Outcome TokenId) → Building (Answer × Automaton)
  | none => fed.reject
  | some (.more stage) => do
    let a ← lay (layStage stage)
    pure (.more, a)
  | some (.accepted statement) => do
    let a ← lay (layClauses statement)
    let (_, a) ← a.accept
    pure (.accepted, a)

variable {fed : Fed}

/-- What follows a look at a token. -/
def passOn (fed : Fed) : Step × Automaton → Building (Answer × Automaton)
  | (.consumed, later) => pure (.more, later)
  | (.accept, later) => pure (.accepted, later)
  | (.again, later) => later.feed fed

/-- A token is looked at again until it is consumed or the statement is accepted. -/
theorem feed_eq (a : Automaton) (fed : Fed) : a.feed fed = a.step fed >>= passOn fed := by
  funext t
  change _ = (a.step fed t >>= _)
  fun_cases feed a fed t with
  | case1 e h => rw [h]; rfl
  | case2 later t' h => rw [h]; rfl
  | case3 later t' h => rw [h]; rfl
  | case4 later t' h => rw [h]; rfl

@[simp] theorem passOn_consumed (a : Automaton) : passOn fed (.consumed, a) = pure (.more, a) := rfl

@[simp] theorem passOn_accept (a : Automaton) : passOn fed (.accept, a) = pure (.accepted, a) := rfl

theorem passOn_again (a : Automaton) : passOn fed (.again, a) = a.feed fed := rfl

/-- A refused token is not looked at again. -/
@[simp] theorem reject_bind {α β : Type} (fed : Fed) (f : α → Building β) :
    fed.reject >>= f = fed.reject := rfl

/-- Behind an attribute. -/
theorem afterAttribute_lay (fed : Fed) (head : Grammar.Head TokenId) (last : Attribute TokenId) :
    (do
      let a ← lay (layHead head)
      let last ← lay (placeAttribute last)
      feed { a with state := .attributeEnd last } fed) =
    layOutcome fed (Grammar.Stage.afterAttribute head last fed.kind fed.id) := by
  simp only [feed_eq, step, onAttributeEnd]
  cases hkind : fed.kind
  case comma => simp [Grammar.Stage.afterAttribute, layOutcome, layStage, layHead]
  case kwFrom =>
    simp [Grammar.Stage.afterAttribute, layOutcome, layStage, layHead, layBody, addLeaf, initial]
  all_goals simp [Grammar.Stage.afterAttribute, layOutcome]

/-- Behind the expression of an attribute. -/
theorem afterValue_lay (head : Grammar.Head TokenId) (value : Expr TokenId) :
    (do
      let a ← lay (layHead head)
      let value ← lay (placeExpr value)
      feed { a with state := .attributeAlias value } fed) =
    layOutcome fed (Grammar.Stage.afterValue head value fed.kind fed.id) := by
  have hend := afterAttribute_lay fed head (.value value none)
  simp only [feed_eq, step, onAttributeAlias]
  cases hkind : fed.kind
  case kwAs => simp [Grammar.Stage.afterValue, layOutcome, layStage, addLeaf]
  case ident | quotedIdent =>
    simp [Grammar.Stage.afterValue, layOutcome, layStage, nameAttribute, placeAttribute,
      placeKeyword]
  -- Without a name the attribute is complete, and the token is looked at again behind it.
  all_goals
    rw [hkind] at hend
    simp [passOn_again]
    exact hend

/-- Inside the expression of an attribute. -/
theorem onAttributeExpr_lay (head : Grammar.Head TokenId) {s : Grammar.State TokenId}
    (hs : s.Readable true) :
    (do
      let a ← lay (layHead head)
      let expr ← lay (layState s)
      feed { a with expr, state := .attributeExpr } fed) =
    layOutcome fed (Grammar.Stage.onAttributeExpr head s fed.kind fed.id) := by
  simp only [feed_eq, step, onAttributeExpr, bind_assoc, feed_then fed hs,
    Grammar.Stage.onAttributeExpr]
  rcases s.feed fed.kind fed.id with _ | (later | value | ⟨parts, star⟩)
  · simp [layProgress, layOutcome]
  · simp [layProgress, layOutcome, layStage]
  · rw [← afterValue_lay]
    simp [layProgress, passOn_again, layHead, initial]
  · simp [layProgress, layOutcome, layStage, layHead, initial, placeAttribute]

/-- Behind a source. -/
theorem afterSource_lay (fed : Fed) (body : Grammar.Body TokenId) :
    (do
      let a ← lay (layBody body)
      feed { a with state := .sourceEnd } fed) =
    layOutcome fed (Grammar.Stage.afterSource body fed.kind fed.id) := by
  simp only [feed_eq, step, onSourceEnd]
  cases hkind : fed.kind
  case comma => simp [Grammar.Stage.afterSource, layOutcome, layStage]
  case kwWhere =>
    simp [Grammar.Stage.afterSource, layOutcome, layStage, layBody, closeFrom, addLeaf, initial,
      layState, layStack, layPhase, Grammar.State.start, Builder.start]
  case semicolon =>
    simp [Grammar.Stage.afterSource, layOutcome, layStage, layBody, layClauses, closeFrom,
      Grammar.Body.close, placeRestriction, initial]
  case eof =>
    simp [Grammar.Stage.afterSource, layOutcome, layBody, layClauses, closeFrom,
      Grammar.Body.close, placeRestriction, accept, initial]
  all_goals simp [Grammar.Stage.afterSource, layOutcome]

/-- Each part of a name is a node. -/
theorem length_lay (parts : List TokenId) :
    (lay (placeParts parts)).Ensures fun ids => ids.length = parts.length := by
  induction parts with
  | nil => exact ensures_pure rfl
  | cons part parts ih =>
    rw [placeParts, List.mapM_cons, lay_bind]
    refine ensures_then fun id => ?_
    rw [lay_bind]
    exact ensures_bind ih fun ids hids => ensures_pure (congrArg Nat.succ hids)

/-- Behind a part of a source's name. -/
theorem onSourceParts_lay (body : Grammar.Body TokenId) (parts : List TokenId) :
    (do
      let a ← lay (layBody body)
      let parts ← lay (placeParts parts)
      feed { a with parts, state := .sourceParts } fed) =
    layOutcome fed (Grammar.Stage.onSourceParts body parts fed.kind fed.id) := by
  have hend := afterSource_lay fed (Grammar.Stage.addSource body parts none)
  simp only [feed_eq, step, onSourceParts]
  cases hkind : fed.kind
  case dot =>
    -- The automaton counts the nodes of the parts, the stage the parts.
    by_cases hshort : parts.length < 3
    · refine (bind_congr fun a => bind_congr_of_ensures (length_lay parts)
        (g := fun ids => pure (.more, { a with parts := ids, state := .sourceDot }))
        fun ids hids => ?_).trans ?_
      · simp [hids, hshort]
      · simp [Grammar.Stage.onSourceParts, hshort, layOutcome, layStage]
    · refine (bind_congr fun a => bind_congr_of_ensures (length_lay parts)
        (g := fun _ => fed.reject) fun ids hids => ?_).trans ?_
      · simp [hids, hshort]
      · simp [Grammar.Stage.onSourceParts, hshort, layOutcome]
  case kwAs =>
    simp [Grammar.Stage.onSourceParts, layOutcome, layStage, addLeaf]
  case ident | quotedIdent =>
    simp [Grammar.Stage.onSourceParts, layOutcome, layStage, nameSource, takeSource, placeSource,
      placeKeyword, layBody, Grammar.Stage.addSource, initial]
  case comma | kwWhere | semicolon | eof =>
    -- The source has no other name, and the token is looked at again behind it.
    rw [hkind] at hend
    simp [passOn_again, Grammar.Stage.onSourceParts, takeSource]
    rw [← hend]
    simp [placeSource, layBody, Grammar.Stage.addSource, initial]
  all_goals simp [Grammar.Stage.onSourceParts, layOutcome]

/-- Inside or behind the expression of the WHERE clause. -/
theorem onCondition_lay (body : Grammar.Body TokenId) (keyword : TokenId)
    {s : Grammar.State TokenId} (hs : s.Readable false) :
    lay (layStage (.condition body keyword s)) >>= (feed · fed) =
      layOutcome fed (Grammar.Stage.onCondition body keyword s fed.kind fed.id) := by
  simp [layStage, feed_eq, step, onCondition, feed_then fed hs,
    Grammar.Stage.onCondition]
  rcases s.feed fed.kind fed.id with _ | (later | test | ⟨parts, star⟩)
  · simp [layProgress, layOutcome]
  · simp [layProgress, layOutcome, layStage]
  · simp [layProgress, passOn_again, feed_eq, step, onConditionEnd]
    cases hkind : fed.kind
    case semicolon =>
      simp [layOutcome, layStage, layClauses, layBody, Grammar.Body.close, placeRestriction,
        initial]
    case eof =>
      simp [layOutcome, layClauses, layBody, Grammar.Body.close, placeRestriction, accept, initial]
    all_goals simp [layOutcome]
  · simp [layProgress, layOutcome]

/-- Feeding a token to the automaton is feeding it to the stage and laying the answer out. -/
theorem feed_layStage (fed : Fed) (stage : Grammar.Stage TokenId) (hstage : stage.Readable) :
    lay (layStage stage) >>= (feed · fed) = layOutcome fed (stage.feed fed.kind fed.id) := by
  cases stage with
  | start =>
    by_cases hkind : fed.kind = .kwSelect
    · simp [layStage, feed_eq, step, hkind, addLeaf, Grammar.Stage.feed, layOutcome, layHead,
        initial]
    · simp [layStage, feed_eq, step, hkind, Grammar.Stage.feed, layOutcome, initial]
  | «attribute» head =>
    by_cases hkind : fed.kind = .star
    · simp [layStage, feed_eq, step, hkind, Grammar.Stage.feed, layOutcome, placeAttribute]
    · -- The token is looked at again as the first one of an expression.
      have hstart := Grammar.State.start_readable (τ := TokenId) true
      rw [Grammar.Stage.feed, if_neg hkind, ← onAttributeExpr_lay head hstart]
      simp [layStage, feed_eq, step, hkind, passOn_again, layState, layStack, layPhase,
        Grammar.State.start, Builder.start]
  | attributeExpr head s =>
    rw [Grammar.Stage.feed, ← onAttributeExpr_lay head hstage]
    simp [layStage]
  | attributeName head value keyword =>
    cases hname : fed.kind.isName with
    | false => simp [layStage, feed_eq, step, hname, Grammar.Stage.feed, layOutcome]
    | true =>
      simp [layStage, feed_eq, step, hname, Grammar.Stage.feed, layOutcome, nameAttribute,
        placeAttribute, placeKeyword]
  | attributeEnd head last =>
    rw [Grammar.Stage.feed, ← afterAttribute_lay]
    simp [layStage]
  | source body =>
    cases hname : fed.kind.isName with
    | false => simp [layStage, feed_eq, step, hname, Grammar.Stage.feed, layOutcome]
    | true =>
      simp [layStage, feed_eq, step, hname, Grammar.Stage.feed, layOutcome, pushPart, addLeaf,
        placeParts, layBody, initial]
  | sourceParts body parts =>
    rw [Grammar.Stage.feed, ← onSourceParts_lay]
    simp [layStage]
  | sourceDot body parts =>
    cases hname : fed.kind.isName with
    | false => simp [layStage, feed_eq, step, hname, Grammar.Stage.feed, layOutcome]
    | true =>
      simp [layStage, feed_eq, step, hname, Grammar.Stage.feed, layOutcome, pushPart, addLeaf,
        placeParts_concat]
  | sourceName body parts keyword =>
    cases hname : fed.kind.isName with
    | false => simp [layStage, feed_eq, step, hname, Grammar.Stage.feed, layOutcome]
    | true =>
      simp [layStage, feed_eq, step, hname, Grammar.Stage.feed, layOutcome, nameSource, takeSource,
        placeSource, placeKeyword, layBody, Grammar.Stage.addSource, initial]
  | sourceEnd body =>
    rw [Grammar.Stage.feed, ← afterSource_lay]
    simp [layStage]
  | condition body keyword s => exact onCondition_lay body keyword hstage
  | closed statement =>
    by_cases hkind : fed.kind = .eof
    · simp [layStage, feed_eq, step, hkind, Grammar.Stage.feed, layOutcome, layClauses, accept]
    · simp [layStage, feed_eq, step, hkind, Grammar.Stage.feed, layOutcome]

end Automaton

end SelectEngine
