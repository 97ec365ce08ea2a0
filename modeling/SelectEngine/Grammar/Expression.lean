import SelectEngine.Statement
import SelectEngine.Token

/-!
# Reading an expression token by token

The reader of an expression is an operator-precedence automaton. Its stack holds what is open: a
binary operator with its finished left operand, an operator in front of its operand, a parenthesis,
a call with its finished arguments. Its phase says what may follow, and carries the operand that
has just been read. `State.feed` takes one token and answers with the next state, with the finished
expression (the token is then not consumed), or with `name.*`; `none` refuses the token.

Each token is dispatched once: a token that ends a name is passed on to `State.afterOperand`, which
never passes it back.
-/

set_option autoImplicit false

namespace SelectEngine.Grammar

variable {τ : Type}

/-- What is open around the operand that is being read. -/
inductive Pending (τ : Type) where
  /-- A binary operator behind its left operand. -/
  | binary (op : Operator) (left : Expr τ)
  /-- An operator in front of its operand. -/
  | leading (op : Operator)
  | paren
  /-- A call with the arguments read so far, the latest first. -/
  | call (function : τ) (args : List (Expr τ))

/-- What may follow. -/
inductive Phase (τ : Type) where
  | operand
  /-- Behind the parenthesis that opens a call: an argument or the closing parenthesis. -/
  | firstArgument
  /-- Behind an operand: an operator or the end. -/
  | operator (left : Expr τ)
  /-- Behind a part of a name. -/
  | name (parts : List τ)
  /-- Behind the point of a name. -/
  | nameDot (parts : List τ)
  /-- Behind `IS`. -/
  | isTest (operand : Expr τ)
  /-- Behind `IS NOT`. -/
  | isNotTest (operand : Expr τ)

/-- The reader of one expression. -/
structure State (τ : Type) where
  stack : List (Pending τ)
  phase : Phase τ
  /-- Whether the expression may turn out to be `name.*`. -/
  allowStar : Bool

/-- What a token did to the reader. -/
inductive Progress (τ : Type) where
  /-- The token was consumed. -/
  | more (s : State τ)
  /-- The expression ended before the token. -/
  | finished (e : Expr τ)
  /-- The token is the star of `name.*`, and was consumed. -/
  | starOf (parts : List τ) (star : τ)

/-- Applies the open operators that bind at least as tightly as `least`, innermost first, up to the
innermost open group. -/
def reduce (least : Nat) (operand : Expr τ) : List (Pending τ) → Expr τ × List (Pending τ)
  | .binary op left :: stack =>
    if least ≤ op.strength then reduce least (.binary op left operand) stack
    else (operand, .binary op left :: stack)
  | .leading op :: stack =>
    if least ≤ op.strength then reduce least (.unary op operand) stack
    else (operand, .leading op :: stack)
  | stack => (operand, stack)

/-- The operator that a token is in front of an operand. -/
def leading? : TokenKind → Option Operator
  | .minus => some .neg
  | .plus => some .pos
  | .kwNot => some .not
  | _ => none

namespace State

/-- The reader at the start of an expression. -/
def start (allowStar : Bool) : State τ := ⟨[], .operand, allowStar⟩

/-- A token where an operand is due. -/
def onOperand (s : State τ) (kind : TokenKind) (leaf : τ) : Option (Progress τ) :=
  match kind with
  | .number => some (.more { s with phase := .operator (.number leaf) })
  | .string => some (.more { s with phase := .operator (.text leaf) })
  | .kwNull => some (.more { s with phase := .operator (.null leaf) })
  | .question => some (.more { s with phase := .operator (.param leaf) })
  | .ident | .quotedIdent => some (.more { s with phase := .name [leaf] })
  | .lparen => some (.more { s with stack := .paren :: s.stack, phase := .operand })
  | _ =>
    (leading? kind).map fun op =>
      .more { s with stack := .leading op :: s.stack, phase := .operand }

/-- A token behind the parenthesis that opens a call. -/
def onFirstArgument (s : State τ) (kind : TokenKind) (leaf : τ) : Option (Progress τ) :=
  match kind, s.stack with
  | .rparen, .call function args :: stack =>
    some (.more { s with stack, phase := .operator (.call function args.reverse) })
  | _, _ => s.onOperand kind leaf

/-- A token behind the operand `left`. -/
def afterOperand (s : State τ) (left : Expr τ) (kind : TokenKind) : Option (Progress τ) :=
  match kind.binary? with
  | some op =>
    let (operand, stack) := reduce op.strength left s.stack
    some (.more { s with stack := .binary op operand :: stack, phase := .operand })
  | none =>
    if kind = .kwIs then
      let (operand, stack) := reduce Operator.isNull.strength left s.stack
      some (.more { s with stack, phase := .isTest operand })
    else
      match reduce 0 left s.stack, kind with
      | (operand, .paren :: stack), .rparen =>
        some (.more { s with stack, phase := .operator operand })
      | (operand, .call function args :: stack), .rparen =>
        some (.more
          { s with stack, phase := .operator (.call function (operand :: args).reverse) })
      | (operand, .call function args :: stack), .comma =>
        some (.more
          { s with stack := .call function (operand :: args) :: stack, phase := .operand })
      | (operand, []), _ => some (.finished operand)
      | _, _ => none

/-- A token behind a part of a name. -/
def onName (s : State τ) (parts : List τ) (kind : TokenKind) : Option (Progress τ) :=
  match kind, parts with
  | .dot, _ => some (.more { s with phase := .nameDot parts })
  | .lparen, [function] =>
    some (.more { s with stack := .call function [] :: s.stack, phase := .firstArgument })
  | .lparen, _ => none
  | _, _ => s.afterOperand (.name parts) kind

/-- A token behind the point of a name. -/
def onNameDot (s : State τ) (parts : List τ) (kind : TokenKind) (leaf : τ) :
    Option (Progress τ) :=
  match kind, s.stack with
  | .ident, _ | .quotedIdent, _ => some (.more { s with phase := .name (parts ++ [leaf]) })
  | .star, [] => if s.allowStar then some (.starOf parts leaf) else none
  | _, _ => none

/-- Takes one token. -/
def feed (s : State τ) (kind : TokenKind) (leaf : τ) : Option (Progress τ) :=
  match s.phase with
  | .operand => s.onOperand kind leaf
  | .firstArgument => s.onFirstArgument kind leaf
  | .operator left => s.afterOperand left kind
  | .name parts => s.onName parts kind
  | .nameDot parts => s.onNameDot parts kind leaf
  | .isTest operand =>
    match kind with
    | .kwNot => some (.more { s with phase := .isNotTest operand })
    | .kwNull => some (.more { s with phase := .operator (.unary .isNull operand) })
    | _ => none
  | .isNotTest operand =>
    match kind with
    | .kwNull => some (.more { s with phase := .operator (.unary .isNotNull operand) })
    | _ => none

end State

end SelectEngine.Grammar
