import SelectEngine.Automaton.Expression
import SelectEngine.Proofs.Automaton.Readable
import SelectEngine.Tree.OfStatement

/-!
# The builder of expressions and the reader of the grammar

The reader of the grammar holds expressions where the builder holds nodes. `layState` lays out what
the reader holds, in the order in which its tokens were read, and answers with the builder that has
read the same tokens. Feeding a token to this builder is feeding it to the reader and laying out
what it answers with (`feed_lay`): the nodes that an operator, a call or a null test asks for are
there, and a stack never runs short.
-/

set_option autoImplicit false

namespace SelectEngine

open SelectEngine.Tree

namespace Building

variable {α β : Type}

/-- Laying something out, as a step of building that does not fail. -/
def lay (x : StateM Tree α) : Building α := fun t => .ok (x t)

@[simp] theorem lay_pure (a : α) : lay (pure a) = pure a := rfl

@[simp] theorem lay_bind (x : StateM Tree α) (f : α → StateM Tree β) :
    lay (x >>= f) = lay x >>= fun a => lay (f a) := rfl

@[simp] theorem lay_map (f : α → β) (x : StateM Tree α) : lay (f <$> x) = f <$> lay x := rfl

@[simp] theorem lay_place (kind : NodeKind) (children : List NodeId) :
    lay (place kind children) = add kind children := rfl

@[simp] theorem lay_placeLeaf (kind : NodeKind) : lay (placeLeaf kind) = add kind [] := rfl

/-- What has been built before a refusal is lost. -/
@[simp] theorem lay_bind_reject (x : StateM Tree α) (fed : Fed) :
    (lay x >>= fun _ => fed.reject : Building β) = fed.reject := rfl

@[simp] theorem add_bind_reject (kind : NodeKind) (children : List NodeId) (fed : Fed) :
    (add kind children >>= fun _ => fed.reject : Building β) = fed.reject := rfl

end Building

open Building

/-- The last of several expressions is laid out behind the others. -/
theorem placeExprs_concat (es : List (Expr TokenId)) (e : Expr TokenId) :
    placeExprs (es ++ [e]) = (do
      let ids ← placeExprs es
      let id ← placeExpr e
      pure (ids ++ [id])) := by
  induction es with
  | nil => simp [placeExprs]
  | cons first es ih => simp [placeExprs, ih]

/-- The last part of a name is laid out behind the others. -/
theorem placeParts_concat (parts : List TokenId) (part : TokenId) :
    placeParts (parts ++ [part]) = (do
      let ids ← placeParts parts
      let id ← placeLeaf (.id part)
      pure (ids ++ [id])) := by
  simp [placeParts]

namespace Automaton

/-- What is open, laid out from the outermost to the innermost: what a builder has open then and the
operands that it has built. -/
def layStack : List (Grammar.Pending TokenId) → StateM Tree (List Pending × List NodeId)
  | [] => pure ([], [])
  | .binary op left :: stack => do
    let (pending, operands) ← layStack stack
    let node ← placeExpr left
    pure (.binary op :: pending, node :: operands)
  | .leading op :: stack => do
    let (pending, operands) ← layStack stack
    pure (.leading op :: pending, operands)
  | .paren :: stack => do
    let (pending, operands) ← layStack stack
    pure (.paren :: pending, operands)
  | .call function args :: stack => do
    let (pending, operands) ← layStack stack
    let name ← placeLeaf (.id function)
    let ids ← placeExprs args.reverse
    pure (.call name operands.length :: pending, ids.reverse ++ operands)

/-- What has just been read, laid out behind what is open. -/
def layPhase (pending : List Pending) (operands : List NodeId) (allowStar : Bool) :
    Grammar.Phase TokenId → StateM Tree Builder
  | .operand => pure ⟨operands, pending, [], .operand false, allowStar⟩
  | .firstArgument => pure ⟨operands, pending, [], .operand true, allowStar⟩
  | .operator left => do
    let node ← placeExpr left
    pure ⟨node :: operands, pending, [], .operator, allowStar⟩
  | .name parts => do
    let ids ← placeParts parts
    pure ⟨operands, pending, ids, .name, allowStar⟩
  | .nameDot parts => do
    let ids ← placeParts parts
    pure ⟨operands, pending, ids, .nameDot, allowStar⟩
  | .isTest operand => do
    let node ← placeExpr operand
    pure ⟨node :: operands, pending, [], .is, allowStar⟩
  | .isNotTest operand => do
    let node ← placeExpr operand
    pure ⟨node :: operands, pending, [], .isNot, allowStar⟩

/-- What the reader of an expression holds, laid out: the builder that has read the same tokens. -/
def layState (s : Grammar.State TokenId) : StateM Tree Builder := do
  let (pending, operands) ← layStack s.stack
  layPhase pending operands s.allowStar s.phase

/-- What the reader answers with, laid out. -/
def layProgress (fed : Fed) (allowStar : Bool) :
    Option (Grammar.Progress TokenId) → Building (Progress × Builder)
  | none => fed.reject
  | some (.more s) => do
    let b ← lay (layState s)
    pure (.consumed, b)
  | some (.finished e) => do
    let root ← lay (placeExpr e)
    pure (.finished root, .start allowStar)
  | some (.starOf parts star) => do
    let ids ← lay (placeParts parts)
    let group ← add .name ids
    let star ← add (.token star) []
    pure (.starOf group star, .start allowStar)

/-- Applying the open operators that bind tightly enough builds the operand that the reader has
then. The induction is on what is open. -/
theorem reduceWhile_lay (least : Nat) (stack : List (Grammar.Pending TokenId))
    (operand : Expr TokenId) :
    (do
      let (pending, operands) ← lay (layStack stack)
      let node ← lay (placeExpr operand)
      reduceWhile least pending (node :: operands)) =
    (do
      let (pending, operands) ← lay (layStack (Grammar.reduce least operand stack).2)
      let node ← lay (placeExpr (Grammar.reduce least operand stack).1)
      pure (pending, node :: operands)) := by
  induction stack generalizing operand with
  | nil => simp [layStack, reduceWhile, Grammar.reduce]
  | cons top stack ih =>
    cases top with
    | binary op left =>
      by_cases hle : least ≤ op.strength
      · -- What the operator builds is the operand of what is open around it.
        rw [Grammar.reduce, if_pos hle, ← ih]
        simp [layStack, reduceWhile, Pending.strength?, hle, Pending.apply, placeExpr]
      · rw [Grammar.reduce, if_neg hle]
        simp [layStack, reduceWhile, Pending.strength?, hle]
    | leading op =>
      by_cases hle : least ≤ op.strength
      · rw [Grammar.reduce, if_pos hle, ← ih]
        simp [layStack, reduceWhile, Pending.strength?, hle, Pending.apply, placeExpr]
      · rw [Grammar.reduce, if_neg hle]
        simp [layStack, reduceWhile, Pending.strength?, hle]
    | paren => simp [layStack, reduceWhile, Pending.strength?, Grammar.reduce]
    | call function args => simp [layStack, reduceWhile, Pending.strength?, Grammar.reduce]

/-! ## Looking at a token -/

namespace Builder

variable {b : Builder} {fed : Fed}

/-- A token is looked at again as long as there is no progress. -/
theorem feed_eq (b : Builder) (fed : Fed) :
    b.feed fed = b.step fed >>= fun (progress, later) =>
      match progress with
      | some progress => pure (progress, later)
      | none => later.feed fed := by
  funext t
  change _ = (b.step fed t >>= _)
  fun_cases feed b fed t with
  | case1 e h => rw [h]; rfl
  | case2 progress later t' h => rw [h]; rfl
  | case3 later t' h => rw [h]; rfl

variable (fed)

theorem feed_operand {callOpen : Bool} (h : b.phase = .operand callOpen) :
    b.feed fed = b.onOperand fed callOpen := by
  rw [feed_eq, step, h]
  simp

theorem feed_operator (h : b.phase = .operator) : b.feed fed = b.onOperator fed := by
  rw [feed_eq, step, h]
  simp

theorem feed_nameDot (h : b.phase = .nameDot) : b.feed fed = b.onNameDot fed := by
  rw [feed_eq, step, h]
  simp

theorem feed_is (h : b.phase = .is) : b.feed fed = b.onIs fed := by
  rw [feed_eq, step, h]
  simp

theorem feed_isNot (h : b.phase = .isNot) : b.feed fed = b.onIsNot fed := by
  rw [feed_eq, step, h]
  simp

end Builder

/-- A part of what is open is a parenthesis or a call. -/
def isGroup : Grammar.Pending TokenId → Bool
  | .binary _ _ | .leading _ => false
  | .paren | .call _ _ => true

/-- The builder has the same groups open as the reader. -/
theorem hasOpenGroup_lay (stack : List (Grammar.Pending TokenId)) :
    (lay (layStack stack)).Ensures fun found =>
      found.1.any Pending.isGroup = stack.any isGroup := by
  induction stack with
  | nil => exact ensures_pure rfl
  | cons top stack ih =>
    cases top with
    | binary op left =>
      rw [layStack, lay_bind]
      refine ensures_bind ih fun (pending, operands) hpending => ?_
      rw [lay_bind]
      exact ensures_then fun node => ensures_pure hpending
    | leading op =>
      rw [layStack, lay_bind]
      exact ensures_bind ih fun (pending, operands) hpending => ensures_pure hpending
    | paren =>
      rw [layStack, lay_bind]
      exact ensures_then fun (pending, operands) => ensures_pure rfl
    | call function args =>
      rw [layStack, lay_bind]
      refine ensures_then fun (pending, operands) => ?_
      rw [lay_bind]
      refine ensures_then fun name => ?_
      rw [lay_bind]
      exact ensures_then fun ids => ensures_pure rfl

/-- All operators above the innermost open group are applied at its end, and all operators at the
end of the expression if no group is open. -/
inductive Ended (stack : List (Grammar.Pending TokenId)) :
    Expr TokenId × List (Grammar.Pending TokenId) → Prop
  | expression (operand : Expr TokenId) (h : stack.any isGroup = false) : Ended stack (operand, [])
  | paren (operand : Expr TokenId) (rest : List (Grammar.Pending TokenId))
      (h : stack.any isGroup = true) : Ended stack (operand, .paren :: rest)
  | call (operand : Expr TokenId) (function : TokenId) (args : List (Expr TokenId))
      (rest : List (Grammar.Pending TokenId)) (h : stack.any isGroup = true) :
      Ended stack (operand, .call function args :: rest)

theorem Ended.cons {stack : List (Grammar.Pending TokenId)}
    {reduced : Expr TokenId × List (Grammar.Pending TokenId)} (h : Ended stack reduced)
    {top : Grammar.Pending TokenId} (htop : isGroup top = false) :
    Ended (top :: stack) reduced := by
  have hgroups : (top :: stack).any isGroup = stack.any isGroup := by
    rw [List.any_cons, htop, Bool.false_or]
  cases h with
  | expression e h => exact .expression e (hgroups.trans h)
  | paren e rest h => exact .paren e rest (hgroups.trans h)
  | call e function args rest h => exact .call e function args rest (hgroups.trans h)

theorem ended_reduce (stack : List (Grammar.Pending TokenId)) (operand : Expr TokenId) :
    Ended stack (Grammar.reduce 0 operand stack) := by
  induction stack generalizing operand with
  | nil => exact .expression operand rfl
  | cons top stack ih =>
    cases top with
    | binary op left =>
      rw [Grammar.reduce, if_pos (Nat.zero_le _)]
      exact (ih (.binary op left operand)).cons rfl
    | leading op =>
      rw [Grammar.reduce, if_pos (Nat.zero_le _)]
      exact (ih (.unary op operand)).cons rfl
    | paren => exact .paren operand stack rfl
    | call function args => exact .call operand function args stack rfl

section Lay

variable {fed : Fed} {stack : List (Grammar.Pending TokenId)} {allowStar : Bool}

/-- Where an operand is due nothing has been read since the innermost construct was opened. -/
theorem onOperand_lay {phase : Grammar.Phase TokenId} (callOpen : Bool)
    (h : callOpen = true → fed.kind ≠ .rparen) :
    (do
      let (pending, operands) ← lay (layStack stack)
      Builder.onOperand ⟨operands, pending, [], .operand callOpen, allowStar⟩ fed callOpen) =
    layProgress fed allowStar
      (Grammar.State.onOperand ⟨stack, phase, allowStar⟩ fed.kind fed.id) := by
  cases hkind : fed.kind
  case rparen =>
    have hclosed : callOpen = false := Bool.eq_false_iff.mpr fun hopen => h hopen hkind
    simp [Builder.onOperand, Grammar.State.onOperand, hkind, hclosed, Grammar.leading?,
      layProgress]
  all_goals
    simp [Builder.onOperand, Grammar.State.onOperand, hkind, layProgress, layState, layPhase,
      layStack, Builder.pushLeaf, Builder.pushPart, Builder.openPending, placeExpr,
      Grammar.leading?, placeParts]

/-- What follows the application of the open operators follows the reduction of the stack. -/
theorem reduceWhile_then {α : Type} (least : Nat) (operand : Expr TokenId)
    (next : List Pending × List NodeId → Building α) :
    (do
      let found ← lay (layStack stack)
      let node ← lay (placeExpr operand)
      let reduced ← reduceWhile least found.1 (node :: found.2)
      next reduced) =
    (do
      let found ← lay (layStack (Grammar.reduce least operand stack).2)
      let node ← lay (placeExpr (Grammar.reduce least operand stack).1)
      next (found.1, node :: found.2)) := by
  have h := congrArg (· >>= next) (reduceWhile_lay least stack operand)
  simpa using h

/-- The operands above the base of a call are its arguments. -/
theorem closeTop_call (fed : Fed) (b : Builder) (name : NodeId) (pending : List Pending)
    (args below : List NodeId) :
    b.closeTop fed (.call name below.length :: pending, args ++ below) =
      (do
        let call ← add .call (name :: args.reverse)
        pure { b with operands := call :: below, pending, phase := .operator }) := by
  have hbase : ¬args.length + below.length < below.length := by omega
  simp [Builder.closeTop, hbase]

/-- What the reader holds behind the parenthesis that closes the innermost group, laid out. -/
def layClosed (fed : Fed) (allowStar : Bool) :
    Expr TokenId × List (Grammar.Pending TokenId) → Building Builder
  | (operand, .paren :: stack) => lay (layState ⟨stack, .operator operand, allowStar⟩)
  | (operand, .call function args :: stack) =>
    lay (layState ⟨stack, .operator (.call function (operand :: args).reverse), allowStar⟩)
  | _ => fed.reject

theorem closeGroup_lay (operand : Expr TokenId) :
    (do
      let (pending, operands) ← lay (layStack stack)
      let node ← lay (placeExpr operand)
      Builder.closeGroup ⟨node :: operands, pending, [], .operator, allowStar⟩ fed) =
    layClosed fed allowStar (Grammar.reduce 0 operand stack) := by
  refine (reduceWhile_then 0 operand
    (Builder.closeTop ⟨[], [], [], .operator, allowStar⟩ fed)).trans ?_
  obtain ⟨e, _ | ⟨_ | _ | _ | ⟨function, args⟩, rest⟩⟩ := Grammar.reduce 0 operand stack
  · simp [layStack, Builder.closeTop, layClosed]
  · simp [layStack, Builder.closeTop, layClosed]
  · simp [layStack, Builder.closeTop, layClosed]
  · simp [layStack, Builder.closeTop, layClosed, layState, layPhase]
  · have hcall (b : Builder) (name node : NodeId) (pending : List Pending)
        (ids below : List NodeId) := closeTop_call fed b name pending (node :: ids.reverse) below
    simp only [List.cons_append, List.reverse_cons, List.reverse_reverse] at hcall
    simp [layStack, layClosed, layState, layPhase, placeExpr, placeExprs_concat, hcall]

/-- Behind the parenthesis that opens a call the one that closes it ends a call without further
arguments. -/
theorem onOperand_rparen (hkind : fed.kind = .rparen) (function : TokenId)
    (args : List (Expr TokenId)) :
    (do
      let found ← lay (layStack (.call function args :: stack))
      Builder.onOperand ⟨found.2, found.1, [], .operand true, allowStar⟩ fed true) =
    layProgress fed allowStar
      (some (.more ⟨stack, .operator (.call function args.reverse), allowStar⟩)) := by
  simp [layStack, Builder.onOperand, hkind, Builder.closeGroup, reduceWhile, Pending.strength?,
    closeTop_call, layProgress, layState, layPhase, placeExpr]

/-- A condition on what has been built may be replaced where it is known. -/
theorem bind_congr_of_ensures {α β : Type} {x : Building α} {P : α → Prop} (hx : x.Ensures P)
    {f g : α → Building β} (h : ∀ a, P a → f a = g a) : x >>= f = x >>= g := by
  funext t
  change (x t >>= fun result => f result.1 result.2) = (x t >>= fun result => g result.1 result.2)
  cases hx' : x t with
  | error e => rfl
  | ok result => exact congrFun (h result.1 (hx t result hx')) result.2

/-- Behind an operand inside a group a parenthesis closes the group. -/
theorem onOperator_rparen (hkind : fed.kind = .rparen) (hgroup : stack.any isGroup = true)
    (left : Expr TokenId) :
    (do
      let found ← lay (layStack stack)
      let node ← lay (placeExpr left)
      Builder.onOperator ⟨node :: found.2, found.1, [], .operator, allowStar⟩ fed) =
    (Progress.consumed, ·) <$> layClosed fed allowStar (Grammar.reduce 0 left stack) := by
  rw [← closeGroup_lay, map_bind]
  refine bind_congr_of_ensures (hgroup ▸ hasOpenGroup_lay stack) fun found hfound => ?_
  simp [Builder.onOperator, TokenKind.binary?, hkind, Builder.hasOpenGroup, hfound]

/-- What the automaton does with the operators and operands that are left behind a comma. -/
def nextArgument (fed : Fed) (allowStar : Bool) (reduced : List Pending × List NodeId) :
    Building (Progress × Builder) :=
  match reduced.1 with
  | .call _ _ :: _ => pure (.consumed, ⟨reduced.2, reduced.1, [], .operand false, allowStar⟩)
  | _ => fed.reject

/-- Behind an operand inside a group a comma goes on with the next argument of a call. -/
theorem onOperator_comma (hkind : fed.kind = .comma) (hgroup : stack.any isGroup = true)
    (left : Expr TokenId) :
    (do
      let found ← lay (layStack stack)
      let node ← lay (placeExpr left)
      Builder.onOperator ⟨node :: found.2, found.1, [], .operator, allowStar⟩ fed) =
    layProgress fed allowStar (match Grammar.reduce 0 left stack with
      | (operand, .call function args :: rest) =>
        some (.more ⟨.call function (operand :: args) :: rest, .operand, allowStar⟩)
      | _ => none) := by
  refine (bind_congr_of_ensures (hgroup ▸ hasOpenGroup_lay stack) fun found hfound => ?_).trans
    ((reduceWhile_then 0 left (nextArgument fed allowStar)).trans ?_)
  · simp [Builder.onOperator, TokenKind.binary?, hkind, Builder.hasOpenGroup, hfound]
    rfl
  · obtain ⟨e, _ | ⟨_ | _ | _ | ⟨function, args⟩, rest⟩⟩ := Grammar.reduce 0 left stack
    case refine_2.cons.call =>
      simp [layStack, nextArgument, layProgress, layState, layPhase, placeExprs_concat]
    all_goals simp [layStack, nextArgument, layProgress]

/-- Behind an operand outside of groups the expression ends. -/
theorem onOperator_end (hbinary : fed.kind.binary? = none) (his : fed.kind ≠ .kwIs)
    (hgroup : stack.any isGroup = false) {left e : Expr TokenId}
    (hreduce : Grammar.reduce 0 left stack = (e, [])) :
    (do
      let found ← lay (layStack stack)
      let node ← lay (placeExpr left)
      Builder.onOperator ⟨node :: found.2, found.1, [], .operator, allowStar⟩ fed) =
    layProgress fed allowStar (some (.finished e)) := by
  let next (reduced : List Pending × List NodeId) : Building (Progress × Builder) :=
    Builder.finish ⟨reduced.2, reduced.1, [], .operator, allowStar⟩ fed
  refine (bind_congr_of_ensures (hgroup ▸ hasOpenGroup_lay stack) fun found hfound => ?_).trans
    ((reduceWhile_then 0 left next).trans ?_)
  · simp [Builder.onOperator, hbinary, his, Builder.hasOpenGroup, hfound, next]
  · simp [hreduce, layStack, layProgress, next, Builder.finish, Builder.reset]

/-- Behind an operand inside a group nothing else may follow. -/
theorem onOperator_refused (hbinary : fed.kind.binary? = none) (his : fed.kind ≠ .kwIs)
    (hrparen : fed.kind ≠ .rparen) (hcomma : fed.kind ≠ .comma)
    (hgroup : stack.any isGroup = true) (left : Expr TokenId) :
    (do
      let found ← lay (layStack stack)
      let node ← lay (placeExpr left)
      Builder.onOperator ⟨node :: found.2, found.1, [], .operator, allowStar⟩ fed) =
    fed.reject := by
  refine (bind_congr_of_ensures (hgroup ▸ hasOpenGroup_lay stack) fun found hfound => ?_).trans
    (lay_bind_reject (layStack stack) fed)
  simp [Builder.onOperator, hbinary, his, Builder.hasOpenGroup, hfound]

theorem onOperator_lay {phase : Grammar.Phase TokenId} (left : Expr TokenId) :
    (do
      let found ← lay (layStack stack)
      let node ← lay (placeExpr left)
      Builder.onOperator ⟨node :: found.2, found.1, [], .operator, allowStar⟩ fed) =
    layProgress fed allowStar
      (Grammar.State.afterOperand ⟨stack, phase, allowStar⟩ left fed.kind) := by
  cases hbinary : fed.kind.binary? with
  | some op =>
    let next (reduced : List Pending × List NodeId) : Building (Progress × Builder) :=
      pure (.consumed, ⟨reduced.2, .binary op :: reduced.1, [], .operand false, allowStar⟩)
    simp only [Builder.onOperator, Grammar.State.afterOperand, hbinary]
    refine (reduceWhile_then op.strength left next).trans ?_
    simp [next, layProgress, layState, layStack, layPhase]
  | none =>
    by_cases his : fed.kind = .kwIs
    · let next (reduced : List Pending × List NodeId) : Building (Progress × Builder) :=
        pure (.consumed, ⟨reduced.2, reduced.1, [], .is, allowStar⟩)
      simp only [Builder.onOperator, Grammar.State.afterOperand, hbinary, if_pos his]
      refine (reduceWhile_then Operator.isNull.strength left next).trans ?_
      simp [next, layProgress, layState, layPhase]
    · -- The token binds nothing, so that all operators of the innermost group are applied. The
      -- reader looks at the group first, the builder at the token.
      simp only [Grammar.State.afterOperand, hbinary, if_neg his]
      have hended := ended_reduce stack left
      rcases hreduce : Grammar.reduce 0 left stack with ⟨e, rest⟩
      rw [hreduce] at hended
      cases hended with
      | expression e hgroup => exact onOperator_end hbinary his hgroup hreduce
      | paren e rest hgroup =>
        by_cases hrparen : fed.kind = .rparen
        · rw [onOperator_rparen hrparen hgroup, hreduce, hrparen]
          simp [layClosed, layProgress]
        · by_cases hcomma : fed.kind = .comma
          · rw [onOperator_comma hcomma hgroup, hreduce, hcomma]
          · rw [onOperator_refused hbinary his hrparen hcomma hgroup]
            simp [layProgress, hrparen]
      | call e function args rest hgroup =>
        by_cases hrparen : fed.kind = .rparen
        · rw [onOperator_rparen hrparen hgroup, hreduce, hrparen]
          simp [layClosed, layProgress]
        · by_cases hcomma : fed.kind = .comma
          · rw [onOperator_comma hcomma hgroup, hreduce, hcomma]
          · rw [onOperator_refused hbinary his hrparen hcomma hgroup]
            simp [layProgress, hrparen, hcomma]

/-- A token that ends a name is looked at again behind the name. -/
theorem feed_nameEnd {b : Builder} (hphase : b.phase = .name) (hdot : fed.kind ≠ .dot)
    (hlparen : fed.kind ≠ .lparen) :
    b.feed fed = (do
      let group ← add .name b.name
      Builder.onOperator
        { b with operands := group :: b.operands, name := [], phase := .operator } fed) := by
  have hname : b.onName fed = (do
      let taken ← b.takeGroup
      pure (none,
        { taken.2 with operands := taken.1 :: taken.2.operands, phase := .operator })) := by
    fun_cases Builder.onName b fed with
    | case1 h => exact absurd h hdot
    | case2 name _ h => exact absurd h hlparen
    | case3 h => exact absurd h hlparen
    | case4 => rfl
  rw [Builder.feed_eq, Builder.step, hphase]
  simp [hname, Builder.takeGroup, Builder.feed_operator]

/-- The end of a name is an operand of the reader. -/
theorem afterName {parts : List TokenId} {kind : TokenKind} (hdot : kind ≠ .dot)
    (hlparen : kind ≠ .lparen) (s : Grammar.State TokenId) :
    s.onName parts kind = s.afterOperand (.name parts) kind := by
  fun_cases Grammar.State.onName s parts kind with
  | case1 => exact absurd rfl hdot
  | case2 => exact absurd rfl hlparen
  | case3 => exact absurd rfl hlparen
  | case4 => rfl

/-- A parenthesis behind a name opens a call, if the name has one part. -/
theorem feed_lparen {operands name : List NodeId} {pending : List Pending}
    (hkind : fed.kind = .lparen) :
    Builder.feed ⟨operands, pending, name, .name, allowStar⟩ fed = match name with
      | [name] => pure (.consumed,
          ⟨operands, .call name operands.length :: pending, [], .operand true, allowStar⟩)
      | _ => fed.reject := by
  rw [Builder.feed_eq, Builder.step]
  rcases name with _ | ⟨name, _ | ⟨next, rest⟩⟩
  · simp [Builder.onName, hkind]
    rfl
  · simp [Builder.onName, hkind, Builder.openPending]
  · simp [Builder.onName, hkind]
    rfl

theorem onName_lay (parts : List TokenId) :
    (do
      let found ← lay (layStack stack)
      let ids ← lay (placeParts parts)
      Builder.feed ⟨found.2, found.1, ids, .name, allowStar⟩ fed) =
    layProgress fed allowStar
      (Grammar.State.onName ⟨stack, .name parts, allowStar⟩ parts fed.kind) := by
  by_cases hdot : fed.kind = .dot
  · have hfeed (b : Builder) (hphase : b.phase = .name) :
        b.feed fed = pure (.consumed, { b with phase := .nameDot }) := by
      rw [Builder.feed_eq, Builder.step, hphase]
      simp [Builder.onName, hdot]
    simp [hfeed, Grammar.State.onName, hdot, layProgress, layState, layPhase]
  · by_cases hlparen : fed.kind = .lparen
    · simp only [feed_lparen hlparen]
      rcases parts with _ | ⟨function, _ | ⟨next, rest⟩⟩
      · simp [Grammar.State.onName, hlparen, layProgress, placeParts]
      · simp [Grammar.State.onName, hlparen, layProgress, placeParts, layState, layStack, layPhase,
          placeExprs]
      · simp [Grammar.State.onName, hlparen, layProgress, placeParts]
    · rw [afterName hdot hlparen, ← onOperator_lay]
      simp [feed_nameEnd, hdot, hlparen, placeExpr]

theorem onNameDot_lay (parts : List TokenId) :
    (do
      let found ← lay (layStack stack)
      let ids ← lay (placeParts parts)
      Builder.feed ⟨found.2, found.1, ids, .nameDot, allowStar⟩ fed) =
    layProgress fed allowStar
      (Grammar.State.onNameDot ⟨stack, .nameDot parts, allowStar⟩ parts fed.kind fed.id) := by
  have hfeed (b : Builder) (hphase : b.phase = .nameDot) := Builder.feed_nameDot fed hphase
  cases hkind : fed.kind
  case ident | quotedIdent =>
    simp [hfeed, Builder.onNameDot, Builder.pushPart, Grammar.State.onNameDot, hkind, layProgress,
      layState, layPhase, placeParts_concat]
  case star =>
    -- All columns of a source are no operand: nothing may be open around them.
    cases stack with
    | nil =>
      cases allowStar <;>
        simp [hfeed, Builder.onNameDot, Builder.takeGroup, Builder.reset, Grammar.State.onNameDot,
          hkind, layStack, layProgress]
    | cons top stack =>
      cases top <;>
        simp [hfeed, Builder.onNameDot, Grammar.State.onNameDot, hkind, layStack, layProgress]
  all_goals
    simp [hfeed, Builder.onNameDot, Grammar.State.onNameDot, hkind, layProgress]

/-- Feeding a token to the builder is feeding it to the reader and laying the answer out. -/
theorem feed_lay (fed : Fed) {s : Grammar.State TokenId} (hs : s.Readable allowStar) :
    (do
      let b ← lay (layState s)
      b.feed fed) =
    layProgress fed allowStar (s.feed fed.kind fed.id) := by
  obtain ⟨stack, phase, allowStar⟩ := s
  obtain ⟨rfl, hopen⟩ := hs
  cases phase with
  | operand =>
    have hfeed (b : Builder) (hphase : b.phase = .operand false) :=
      Builder.feed_operand fed hphase
    refine Eq.trans ?_ (onOperand_lay false nofun)
    simp [layState, layPhase, hfeed]
  | firstArgument =>
    obtain ⟨function, args, rest, rfl⟩ := hopen rfl
    have hfeed (b : Builder) (hphase : b.phase = .operand true) :=
      Builder.feed_operand fed hphase
    -- Only a parenthesis ends the call here; whatever else may follow begins its first argument.
    by_cases hrparen : fed.kind = .rparen
    · have hfed : Grammar.State.feed ⟨.call function args :: rest, .firstArgument, allowStar⟩
            fed.kind fed.id =
          some (.more ⟨rest, .operator (.call function args.reverse), allowStar⟩) := by
        rw [hrparen]
        rfl
      rw [hfed, ← onOperand_rparen hrparen]
      simp [layState, layPhase, hfeed]
    · have hfed : Grammar.State.feed ⟨.call function args :: rest, .firstArgument, allowStar⟩
            fed.kind fed.id =
          Grammar.State.onOperand ⟨.call function args :: rest, .firstArgument, allowStar⟩ fed.kind
            fed.id := by
        change Grammar.State.onFirstArgument _ _ _ = _
        unfold Grammar.State.onFirstArgument
        split
        · next hkind _ => exact absurd hkind hrparen
        · rfl
      rw [hfed]
      refine Eq.trans ?_ (onOperand_lay true fun _ => hrparen)
      simp [layState, layPhase, hfeed]
  | operator left =>
    simp only [Grammar.State.feed]
    rw [← onOperator_lay]
    simp [layState, layPhase, Builder.feed_operator]
  | name parts =>
    refine Eq.trans ?_ (onName_lay parts)
    simp [layState, layPhase]
  | nameDot parts =>
    refine Eq.trans ?_ (onNameDot_lay parts)
    simp [layState, layPhase]
  | isTest e =>
    have hfeed (b : Builder) (hphase : b.phase = .is) := Builder.feed_is fed hphase
    cases hkind : fed.kind
    case kwNot | kwNull =>
      simp [layState, layPhase, hfeed, Builder.onIs, Builder.testNull, Grammar.State.feed, hkind,
        layProgress, placeExpr]
    all_goals
      simp [layState, layPhase, hfeed, Builder.onIs, Grammar.State.feed, hkind, layProgress]
  | isNotTest e =>
    have hfeed (b : Builder) (hphase : b.phase = .isNot) := Builder.feed_isNot fed hphase
    cases hkind : fed.kind
    case kwNull =>
      simp [layState, layPhase, hfeed, Builder.onIsNot, Builder.testNull, Grammar.State.feed,
        hkind, layProgress, placeExpr]
    all_goals
      simp [layState, layPhase, hfeed, Builder.onIsNot, Grammar.State.feed, hkind, layProgress]

/-- What follows the feeding of a token follows the laying out of the reader's answer. -/
theorem feed_then {α : Type} (fed : Fed) {s : Grammar.State TokenId} (hs : s.Readable allowStar)
    (next : Progress × Builder → Building α) :
    (do
      let b ← lay (layState s)
      let result ← b.feed fed
      next result) =
    layProgress fed allowStar (s.feed fed.kind fed.id) >>= next := by
  have h := congrArg (· >>= next) (feed_lay fed hs)
  simpa using h

end Lay

end Automaton

end SelectEngine
