import SelectEngine.Grammar.Clause
import SelectEngine.Proofs.Loop

/-!
# Passing a token on

A token that ends a construct is passed on to what comes behind the construct. Inside an expression
this happens at the end of a name; inside a statement at the end of an attribute's expression, of a
source and of the WHERE clause, and where an attribute turns out to begin with an expression. The
readers pass it on in one call. `State.turn` and `Station.turn` pass it on turn by turn, as a loop
that ends when the token is consumed or refused, and for every state and kind of token the loop ends
with what the call answers (`State.turn_ends`, `Station.turn_ends`), since it only goes forward.
-/

set_option autoImplicit false

namespace SelectEngine.Grammar

variable {τ : Type}

/-! ## Inside an expression -/

/-- One turn of applying the open operators that bind at least as tightly as `least`. -/
def reduceTurn (least : Nat) :
    Expr τ × List (Pending τ) →
      Loop.Turn (Expr τ × List (Pending τ)) (Expr τ × List (Pending τ))
  | (operand, .binary op left :: stack) =>
    if least ≤ op.strength then .again (.binary op left operand, stack)
    else .done (operand, .binary op left :: stack)
  | (operand, .leading op :: stack) =>
    if least ≤ op.strength then .again (.unary op operand, stack)
    else .done (operand, .leading op :: stack)
  | (operand, stack) => .done (operand, stack)

/-- Each operator that is applied leaves the stack. -/
theorem measured_reduceTurn (least : Nat) :
    Loop.Measured (reduceTurn (τ := τ) least) (fun state => state.2.length)
      (fun state => reduce least state.1 state.2) := by
  rintro ⟨operand, _ | ⟨pending, stack⟩⟩
  · exact rfl
  · cases pending with
    | binary op left =>
      dsimp only
      rw [reduceTurn, reduce]
      split
      · exact ⟨Nat.lt_succ_self _, rfl⟩
      · exact rfl
    | leading op =>
      dsimp only
      rw [reduceTurn, reduce]
      split
      · exact ⟨Nat.lt_succ_self _, rfl⟩
      · exact rfl
    | paren | call => exact rfl

namespace State

/-- One turn with a token: what ends a name is passed on, as a token behind an operand. -/
def turn (kind : TokenKind) (leaf : τ) (s : State τ) : Loop.Turn (State τ) (Option (Progress τ)) :=
  match s.phase with
  | .name parts =>
    match kind, parts with
    | .dot, _ => .done (some (.more { s with phase := .nameDot parts }))
    | .lparen, [function] =>
      .done (some (.more
        { s with stack := .call function [] :: s.stack, phase := .firstArgument }))
    | .lparen, _ => .done none
    | _, _ => .again { s with phase := .operator (.name parts) }
  | _ => .done (s.feed kind leaf)

/-- How many turns may follow. -/
def turnsLeft (s : State τ) : Nat :=
  match s.phase with
  | .name _ => 1
  | _ => 0

theorem measured_turn (kind : TokenKind) (leaf : τ) :
    Loop.Measured (turn kind leaf) turnsLeft (fun s => s.feed kind leaf) := by
  rintro ⟨stack, phase, allowStar⟩
  cases phase with
  | name parts =>
    cases kind with
    | lparen =>
      rcases parts with _ | ⟨part, _ | ⟨next, rest⟩⟩ <;> exact rfl
    | dot => exact rfl
    | _ => exact ⟨Nat.zero_lt_one, rfl⟩
  | _ => exact rfl

/-- The loop of an expression's reader ends for every state and kind of token. -/
theorem turn_ends (kind : TokenKind) (leaf : τ) (s : State τ) :
    Loop.EndsWithin (turn kind leaf) 2 s (s.feed kind leaf) := by
  refine ((measured_turn kind leaf).ends s).mono (Nat.succ_le_succ ?_)
  unfold turnsLeft
  split <;> decide

end State

/-! ## Inside a statement -/

/-- Where a token is looked at: at a stage, or where a construct has ended before it. -/
inductive Station (τ : Type) where
  | stage (stage : Stage τ)
  /-- Behind the expression of an attribute. -/
  | valueEnd (head : Head τ) (value : Expr τ)
  /-- Behind the expression of the WHERE clause. -/
  | conditionEnd (body : Body τ) (keyword : τ) (test : Expr τ)

namespace Station

/-- What becomes of a token. -/
def feed (kind : TokenKind) (leaf : τ) : Station τ → Option (Outcome τ)
  | stage s => s.feed kind leaf
  | valueEnd head value => Stage.afterValue head value kind leaf
  | conditionEnd body keyword test =>
    match kind with
    | .semicolon => some (.more (.closed (body.close (some ⟨keyword, test⟩))))
    | .eof => some (.accepted (body.close (some ⟨keyword, test⟩)))
    | _ => none

/-- One turn with a token. -/
def turn (kind : TokenKind) (leaf : τ) : Station τ → Loop.Turn (Station τ) (Option (Outcome τ))
  | stage (.attribute head) =>
    if kind = .star then .done (some (.more (.attributeEnd head (.star leaf))))
    else .again (stage (.attributeExpr head (State.start true)))
  | stage (.attributeExpr head expr) =>
    match expr.feed kind leaf with
    | some (.more expr) => .done (some (.more (.attributeExpr head expr)))
    | some (.finished value) => .again (valueEnd head value)
    | some (.starOf parts star) => .done (some (.more (.attributeEnd head (.starOf parts star))))
    | none => .done none
  | valueEnd head value =>
    match kind with
    | .kwAs => .done (some (.more (.attributeName head value leaf)))
    | .ident | .quotedIdent =>
      .done (some (.more (.attributeEnd head (.value value (some ⟨none, leaf⟩)))))
    | _ => .again (stage (.attributeEnd head (.value value none)))
  | stage (.sourceParts body parts) =>
    match kind with
    | .comma | .kwWhere | .semicolon | .eof =>
      .again (stage (.sourceEnd (Stage.addSource body parts none)))
    | _ => .done (Stage.onSourceParts body parts kind leaf)
  | stage (.condition body keyword expr) =>
    match expr.feed kind leaf with
    | some (.more expr) => .done (some (.more (.condition body keyword expr)))
    | some (.finished test) => .again (conditionEnd body keyword test)
    | some (.starOf _ _) | none => .done none
  | station => .done (station.feed kind leaf)

/-- How many turns may follow: a token is only passed on to a later place. -/
def turnsLeft : Station τ → Nat
  | stage (.attribute _) => 3
  | stage (.attributeExpr _ _) => 2
  | valueEnd _ _ | stage (.sourceParts _ _) | stage (.condition _ _ _) => 1
  | _ => 0

theorem measured_turn (kind : TokenKind) (leaf : τ) :
    Loop.Measured (turn kind leaf) turnsLeft (feed kind leaf) := by
  rintro (s | ⟨head, value⟩ | ⟨body, keyword, test⟩)
  · cases s with
    | «attribute» head =>
      rw [turn, feed, Stage.feed]
      split
      · exact rfl
      · exact ⟨Nat.lt_succ_self 2, rfl⟩
    | attributeExpr head expr =>
      rw [turn, feed, Stage.feed, Stage.onAttributeExpr]
      rcases expr.feed kind leaf with _ | (expr | value | ⟨parts, star⟩)
      · exact rfl
      · exact rfl
      · exact ⟨Nat.lt_succ_self 1, rfl⟩
      · exact rfl
    | sourceParts body parts =>
      cases kind with
      | comma | kwWhere | semicolon | eof => exact ⟨Nat.lt_succ_self 0, rfl⟩
      | _ => exact rfl
    | condition body keyword expr =>
      rw [turn, feed, Stage.feed, Stage.onCondition]
      rcases expr.feed kind leaf with _ | (expr | test | ⟨parts, star⟩)
      · exact rfl
      · exact rfl
      · exact ⟨Nat.lt_succ_self 0, rfl⟩
      · exact rfl
    | _ => exact rfl
  · cases kind with
    | kwAs | ident | quotedIdent => exact rfl
    | _ => exact ⟨Nat.lt_succ_self 0, rfl⟩
  · exact rfl

/-- The loop of the statement's reader ends at every place and for every kind of token. -/
theorem turn_ends (kind : TokenKind) (leaf : τ) (station : Station τ) :
    Loop.EndsWithin (turn kind leaf) 4 station (station.feed kind leaf) := by
  refine ((measured_turn kind leaf).ends station).mono (Nat.succ_le_succ ?_)
  unfold turnsLeft
  split <;> decide

end Station

end SelectEngine.Grammar
