import SelectEngine.Tree.Basic

/-!
# The automaton of expressions

A tree is built by steps that add nodes to it and may fail. `Building.Ensures` says of such a step
what every result of it is like.

Expressions are read by operator precedence, token by token, while the tree grows. A builder holds
the nodes of the operands that have been built and what is open around the operand that is due:
binary operators, operators in front of their operand, parentheses and calls. An open operator is
applied once one follows that does not bind tighter, and takes its operands from the stack.

A stack that is too short for what is to be applied to it is an internal error. `parse_eq` shows
that no text leads to one.
-/

set_option autoImplicit false

/-! ## Building a tree -/

namespace SelectEngine

/-- A step that adds nodes to a tree, and may fail; a failure leaves no tree. -/
abbrev Building := StateT Tree (Except Error)

namespace Building

variable {α β : Type}

/-- Adds a node. -/
def add (kind : NodeKind) (children : List NodeId) : Building NodeId := fun t =>
  let (t, id) := t.addNode kind children
  .ok (id, t)

/-- Makes a node the statement of its tree. -/
def setRoot (select : NodeId) : Building Unit := fun t => .ok ((), t.setRoot select)

/-- Every result of the step has the property `Q`. -/
def Ensures (x : Building α) (Q : α → Prop) : Prop :=
  ∀ (t : Tree) (result : α × Tree), x t = .ok result → Q result.1

variable {Q : β → Prop}

theorem ensures_pure {b : β} (h : Q b) : Ensures (pure b) Q := by
  rintro t _ ⟨⟩
  exact h

theorem ensures_throw (e : Error) (Q : β → Prop) : Ensures (throw e) Q := nofun

theorem ensures_bind {x : Building α} {f : α → Building β} {P : α → Prop} (hx : Ensures x P)
    (hf : ∀ a, P a → Ensures (f a) Q) : Ensures (x >>= f) Q := by
  intro t result h
  change (x t >>= fun r => f r.1 r.2) = _ at h
  cases hstep : x t with
  | error e =>
    rw [hstep] at h
    cases h
  | ok r =>
    rw [hstep] at h
    exact hf r.1 (hx t r hstep) r.2 result h

theorem ensures_map {x : Building α} {f : α → β} {P : α → Prop} (hx : Ensures x P)
    (hf : ∀ a, P a → Q (f a)) : Ensures (f <$> x) Q := by
  rw [map_eq_pure_bind]
  exact ensures_bind hx fun a ha => ensures_pure (hf a ha)

/-- Of what is built first nothing need be known. -/
theorem ensures_then {x : Building α} {f : α → Building β} (h : ∀ a, Ensures (f a) Q) :
    Ensures (x >>= f) Q :=
  ensures_bind (P := fun _ => True) (fun _ _ _ => trivial) fun a _ => h a

end Building

/-- A token with its number in the tree and the name of the source that it stands in. -/
structure Fed where
  token : Token
  id : TokenId
  source : String

namespace Fed

/-- The kind of the token. -/
def kind (fed : Fed) : TokenKind := fed.token.kind

/-- The token is refused. -/
def reject {α : Type} (fed : Fed) : Building α := throw (fed.token.refusal fed.source)

theorem ensures_reject {α : Type} (fed : Fed) (Q : α → Prop) : fed.reject.Ensures Q :=
  Building.ensures_throw _ Q

end Fed

/-! ## Builders -/

namespace Automaton

/-- What is open around the operand that is due. -/
inductive Pending where
  | binary (op : Operator)
  /-- An operator in front of its operand. -/
  | leading (op : Operator)
  | paren
  /-- A call, with the leaf of its name and the number of operands below its arguments. -/
  | call (name : NodeId) (base : Nat)

namespace Pending

/-- How tightly an operator binds; a group does not bind. -/
def strength? : Pending → Option Nat
  | binary op | leading op => some op.strength
  | paren | call _ _ => none

/-- A parenthesis or a call. -/
def isGroup : Pending → Bool
  | binary _ | leading _ => false
  | paren | call _ _ => true

/-- Applies an operator to the latest operands. -/
def apply : Pending → List NodeId → Building (List NodeId)
  | binary op, right :: left :: operands => do
    let node ← Building.add (.operation op) [left, right]
    pure (node :: operands)
  | binary _, _ => throw (.internal "binary operator without two operands")
  | leading op, operand :: operands => do
    let node ← Building.add (.operation op) [operand]
    pure (node :: operands)
  | leading _, [] => throw (.internal "prefix operator without operand")
  | paren, _ | call _ _, _ => throw (.internal "group marker applied as operator")

end Pending

/-- What may follow. -/
inductive Phase where
  /-- An operand; behind the parenthesis that opens a call also the one that closes it. -/
  | operand (callOpen : Bool)
  /-- An operator or the end of the expression. -/
  | operator
  /-- Behind a part of a name: a point, an opening parenthesis or the end of the name. -/
  | name
  /-- Behind the point of a name. -/
  | nameDot
  /-- Behind `IS`. -/
  | is
  /-- Behind `IS NOT`. -/
  | isNot

/-- The builder of one expression. -/
structure Builder where
  /-- The operands that have been built, the latest first. -/
  operands : List NodeId
  /-- What is open, innermost first. -/
  pending : List Pending
  /-- The parts of the name that is being read. -/
  name : List NodeId
  phase : Phase
  /-- Whether the expression may turn out to be `name.*`. -/
  allowStar : Bool

/-- What became of a token. -/
inductive Progress where
  | consumed
  /-- The expression was complete before the token, which was not consumed. -/
  | finished (root : NodeId)
  /-- The token is the star of `name.*`, and was consumed. -/
  | starOf (group star : NodeId)

/-- Applies the open operators that bind at least as tightly as `least`, innermost first, up to the
innermost open group. -/
def reduceWhile (least : Nat) :
    List Pending → List NodeId → Building (List Pending × List NodeId)
  | [], operands => pure ([], operands)
  | top :: pending, operands =>
    match top.strength? with
    | some strength =>
      if least ≤ strength then do
        let operands ← top.apply operands
        reduceWhile least pending operands
      else pure (top :: pending, operands)
    | none => pure (top :: pending, operands)

namespace Builder

variable (b : Builder) (fed : Fed)

/-- The builder of an expression of which nothing has been read. -/
def start (allowStar : Bool) : Builder := ⟨[], [], [], .operand false, allowStar⟩

/-- The builder once its expression has been handed out. -/
def reset : Builder := start b.allowStar

def hasOpenGroup : Bool := b.pending.any Pending.isGroup

/-- Joins the parts that have been read to a name. -/
def takeGroup : Building (NodeId × Builder) := do
  let group ← Building.add .name b.name
  pure (group, { b with name := [] })

/-- A leaf that is an operand. -/
def pushLeaf (kind : NodeKind) : Building (Progress × Builder) := do
  let node ← Building.add kind []
  pure (.consumed, { b with operands := node :: b.operands, phase := .operator })

/-- A part of a name. -/
def pushPart : Building (Progress × Builder) := do
  let part ← Building.add (.id fed.id) []
  pure (.consumed, { b with name := b.name ++ [part], phase := .name })

/-- Something opens in front of the operand that is due. -/
def openPending (top : Pending) (callOpen : Bool) : Builder :=
  { b with pending := top :: b.pending, phase := .operand callOpen }

/-- Closes a parenthesis or a call that nothing is open above. The arguments of the call are the
operands above its base. -/
def closeTop : List Pending × List NodeId → Building Builder
  | (.paren :: pending, operands) => pure { b with pending, operands, phase := .operator }
  | (.call name base :: pending, operands) =>
    if operands.length < base then throw (.internal "function arguments underflow")
    else do
      let args := operands.take (operands.length - base)
      let call ← Building.add .call (name :: args.reverse)
      let operands := call :: operands.drop (operands.length - base)
      pure { b with pending, operands, phase := .operator }
  | _ => fed.reject

/-- Closes the innermost parenthesis or call. -/
def closeGroup : Building Builder := do
  let reduced ← reduceWhile 0 b.pending b.operands
  b.closeTop fed reduced

/-- Hands the expression out, if nothing is left beside it. -/
def finish : Building (Progress × Builder) :=
  match b.operands, b.pending with
  | [root], [] => pure (.finished root, b.reset)
  | _, _ => fed.reject

/-- A null test of the latest operand. -/
def testNull (op : Operator) : Building (Progress × Builder) :=
  match b.operands with
  | operand :: operands => do
    let node ← Building.add (.operation op) [operand]
    pure (.consumed, { b with operands := node :: operands, phase := .operator })
  | [] => throw (.internal "IS NULL without operand")

/-- A token where an operand is due. -/
def onOperand (callOpen : Bool) : Building (Progress × Builder) :=
  match fed.kind with
  | .number => b.pushLeaf (.number fed.id)
  | .string => b.pushLeaf (.text fed.id)
  | .kwNull => b.pushLeaf (.null fed.id)
  | .question => b.pushLeaf (.param fed.id)
  | .ident | .quotedIdent => b.pushPart fed
  | .lparen => pure (.consumed, b.openPending .paren false)
  | .minus => pure (.consumed, b.openPending (.leading .neg) false)
  | .plus => pure (.consumed, b.openPending (.leading .pos) false)
  | .kwNot => pure (.consumed, b.openPending (.leading .not) false)
  | .rparen =>
    if callOpen then do
      let b ← b.closeGroup fed
      pure (.consumed, b)
    else fed.reject
  | _ => fed.reject

/-- A token behind an operand. -/
def onOperator : Building (Progress × Builder) :=
  match fed.kind.binary? with
  | some op => do
    let (pending, operands) ← reduceWhile op.strength b.pending b.operands
    pure (.consumed, { b with operands, pending }.openPending (.binary op) false)
  | none =>
    if fed.kind = .kwIs then do
      let (pending, operands) ← reduceWhile Operator.isNull.strength b.pending b.operands
      pure (.consumed, { b with operands, pending, phase := .is })
    else if b.hasOpenGroup then
      match fed.kind with
      | .rparen => do
        let b ← b.closeGroup fed
        pure (.consumed, b)
      | .comma => do
        let (pending, operands) ← reduceWhile 0 b.pending b.operands
        match pending with
        | .call _ _ :: _ => pure (.consumed, { b with operands, pending, phase := .operand false })
        | _ => fed.reject
      | _ => fed.reject
    else do
      let (pending, operands) ← reduceWhile 0 b.pending b.operands
      { b with operands, pending }.finish fed

/-- A token behind a part of a name. The end of the name leaves the token to be looked at again. -/
def onName : Building (Option Progress × Builder) :=
  match fed.kind, b.name with
  | .dot, _ => pure (some .consumed, { b with phase := .nameDot })
  | .lparen, [name] =>
    pure (some .consumed, { b with name := [] }.openPending (.call name b.operands.length) true)
  | .lparen, _ => fed.reject
  | _, _ => do
    let (group, b) ← b.takeGroup
    pure (none, { b with operands := group :: b.operands, phase := .operator })

/-- A token behind the point of a name. -/
def onNameDot : Building (Progress × Builder) :=
  match fed.kind with
  | .ident | .quotedIdent => b.pushPart fed
  | .star =>
    if b.allowStar ∧ b.pending.isEmpty ∧ b.operands.isEmpty then do
      let (group, b) ← b.takeGroup
      let star ← Building.add (.token fed.id) []
      pure (.starOf group star, b.reset)
    else fed.reject
  | _ => fed.reject

/-- A token behind `IS`. -/
def onIs : Building (Progress × Builder) :=
  match fed.kind with
  | .kwNot => pure (.consumed, { b with phase := .isNot })
  | .kwNull => b.testNull .isNull
  | _ => fed.reject

/-- A token behind `IS NOT`. -/
def onIsNot : Building (Progress × Builder) :=
  match fed.kind with
  | .kwNull => b.testNull .isNotNull
  | _ => fed.reject

/-- Looks at a token once. Without progress the phase has changed, and the token is looked at
again. -/
def step : Building (Option Progress × Builder) :=
  let seen := fun (progress, b) => (some progress, b)
  match b.phase with
  | .operand callOpen => seen <$> b.onOperand fed callOpen
  | .operator => seen <$> b.onOperator fed
  | .name => b.onName fed
  | .nameDot => seen <$> b.onNameDot fed
  | .is => seen <$> b.onIs fed
  | .isNot => seen <$> b.onIsNot fed

/-- How often a token may still be looked at again. -/
def turnsLeft : Nat :=
  match b.phase with
  | .name => 1
  | _ => 0

variable {b fed}

/-- What a look at a token leads to: without progress fewer looks are left, and the end of the text
is never consumed. -/
structure Looked (b : Builder) (fed : Fed) (result : Option Progress × Builder) : Prop where
  again : result.1 = none → result.2.turnsLeft < b.turnsLeft
  atEnd : fed.kind = .eof → ∀ progress, result.1 = some progress → ∃ root, progress = .finished root

/-- The end of the text is refused where an expression may not end. -/
theorem finish_ensures :
    (b.finish fed).Ensures fun result => ∃ root, result.1 = .finished root := by
  fun_cases finish b fed with
  | case1 root => exact Building.ensures_pure ⟨root, rfl⟩
  | case2 => exact fed.ensures_reject _

theorem onOperator_ensures (heof : fed.kind = .eof) :
    (b.onOperator fed).Ensures fun result => ∃ root, result.1 = .finished root := by
  unfold onOperator
  rw [heof]
  change Building.Ensures (if _ then fed.reject else _) _
  split
  · exact fed.ensures_reject _
  · exact Building.ensures_then fun _ => finish_ensures

theorem looked_seen {x : Building (Progress × Builder)}
    (h : fed.kind = .eof → x.Ensures fun result => ∃ root, result.1 = .finished root) :
    Building.Ensures ((fun (progress, b) => (some progress, b)) <$> x) (Looked b fed) := by
  by_cases heof : fed.kind = .eof
  · refine Building.ensures_map (h heof) fun result hroot => ⟨nofun, fun _ progress hprogress => ?_⟩
    exact Option.some.inj hprogress ▸ hroot
  · exact Building.ensures_map (P := fun _ => True) (fun _ _ _ => trivial) fun result _ =>
      ⟨nofun, fun h => absurd h heof⟩

theorem step_ensures : (b.step fed).Ensures (Looked b fed) := by
  unfold step
  cases hphase : b.phase with
  | operand callOpen =>
    refine looked_seen fun heof => ?_
    rw [onOperand, heof]
    exact fed.ensures_reject _
  | operator => exact looked_seen onOperator_ensures
  | name =>
    -- The only turn that passes a token on: behind it the builder is where an operator may follow.
    dsimp only
    have hleft : b.turnsLeft = 1 := by rw [turnsLeft, hphase]
    fun_cases onName b fed with
    | case1 hdot =>
      exact Building.ensures_pure ⟨nofun, fun heof => by rw [heof] at hdot; cases hdot⟩
    | case2 name hname hparen =>
      exact Building.ensures_pure ⟨nofun, fun heof => by rw [heof] at hparen; cases hparen⟩
    | case3 => exact fed.ensures_reject _
    | case4 =>
      refine Building.ensures_then fun group => Building.ensures_pure ⟨fun _ => ?_, nofun⟩
      rw [hleft]
      exact Nat.zero_lt_one
  | nameDot =>
    refine looked_seen fun heof => ?_
    rw [onNameDot, heof]
    exact fed.ensures_reject _
  | is =>
    refine looked_seen fun heof => ?_
    rw [onIs, heof]
    exact fed.ensures_reject _
  | isNot =>
    refine looked_seen fun heof => ?_
    rw [onIsNot, heof]
    exact fed.ensures_reject _

/-- Looks at a token until it is consumed or refused, or the expression is complete before it. -/
def feed (b : Builder) (fed : Fed) : Building (Progress × Builder) := fun t =>
  match h : b.step fed t with
  | .error e => .error e
  | .ok ((some progress, later), t) => .ok ((progress, later), t)
  | .ok ((none, later), t) =>
    have : later.turnsLeft < b.turnsLeft := (step_ensures _ _ h).again rfl
    later.feed fed t
termination_by b.turnsLeft

theorem feed_ensures (heof : fed.kind = .eof) :
    (b.feed fed).Ensures fun result => ∃ root, result.1 = .finished root := by
  intro t result h
  fun_induction feed b fed t with
  | case1 => cases h
  | case2 b t progress later t' hstep =>
    cases h
    exact (step_ensures _ _ hstep).atEnd heof progress rfl
  | case3 b t later t' hstep hleft ih => exact ih h

end Builder

end Automaton

end SelectEngine
