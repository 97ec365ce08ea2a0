import SelectEngine.Operator
import SelectEngine.Value

/-!
# Operators on values

The result of an operator on evaluated operands. Under `NullMode.strict` a null operand of an
arithmetic operator, a comparison or a concatenation is a failure; the logical connectives and the
null tests take nulls in either mode.
-/

set_option autoImplicit false

namespace SelectEngine

/-- What a null operand does. -/
inductive NullMode where
  /-- The result is null. -/
  | propagate
  /-- The operation fails. -/
  | strict
deriving DecidableEq

namespace Operator

/-- Refuses null operands under strict handling. -/
def refuseNulls (op : Operator) (nulls : NullMode) (operands : List Value) : Except Error Unit :=
  if nulls = .strict ∧ operands.any Value.isNull then .error (.nullValue op.symbol) else .ok ()

/-- A comparison that holds for some orders. -/
def comparing (test : Ordering → Bool) (a b : Value) : Except Error Value := do
  let order ← a.compare? b
  .ok (Value.ofTruth (order.map test))

/-- A logical connective. -/
def connecting (connective : Truth → Truth → Truth) (a b : Value) : Except Error Value := do
  let x ← a.truth
  let y ← b.truth
  .ok (Value.ofTruth (connective x y))

/-- The operator on operands that may be null. -/
def combine (op : Operator) (a b : Value) : Except Error Value :=
  match op with
  | add => a.add b
  | sub => a.sub b
  | mul => a.mul b
  | div => a.div b
  | mod => a.mod b
  | concat => a.concat b
  | eq => comparing Ordering.isEq a b
  | ne => comparing Ordering.isNe a b
  | lt => comparing Ordering.isLT a b
  | gt => comparing Ordering.isGT a b
  | le => comparing Ordering.isLE a b
  | ge => comparing Ordering.isGE a b
  | and => connecting Truth.and a b
  | or => connecting Truth.or a b
  | xor => connecting Truth.xor a b
  | not | neg | pos | isNull | isNotNull =>
    .error (.internal s!"unary operator {op.symbol} applied to two operands")

/-- The result of an operator between two operands. -/
def applyBinary (op : Operator) (a b : Value) (nulls : NullMode) : Except Error Value := do
  unless op.isLogical do
    op.refuseNulls nulls [a, b]
  op.combine a b

/-- The result of an operator on one operand. -/
def applyUnary (op : Operator) (a : Value) (nulls : NullMode) : Except Error Value :=
  match op with
  | not => do
    let t ← a.truth
    .ok (Value.ofTruth t.not)
  | neg => do
    op.refuseNulls nulls [a]
    a.neg
  | pos => do
    op.refuseNulls nulls [a]
    a.pos
  | isNull => .ok (.bool a.isNull)
  | isNotNull => .ok (.bool !a.isNull)
  | _ => .error (.internal s!"binary operator {op.symbol} applied to one operand")

end Operator

end SelectEngine
