import SelectEngine.Column
import SelectEngine.Function.Basic
import SelectEngine.Tree.Basic

/-!
# Bound expressions

An expression in which every name and every call has found what it means: a name is a column of a
source with the type that the source declares, a call is a function of the registry. `Bound.type`
finds the type of the result before any row is read. The type `DataType.null` stands for a type that
is not known by then, and an operator refuses only operands whose types are known and do not fit.
-/

set_option autoImplicit false

namespace SelectEngine

/-- A column of a source, both counted from zero, with the descriptor that the source gives. -/
structure ColumnRef where
  source : Nat
  position : Nat
  column : Column
deriving DecidableEq

/-- What an expression was to be resolved by and is not known. -/
inductive Missing where
  /-- The column of a name. -/
  | column (name : String)
  /-- The number of a parameter. -/
  | ordinal
  /-- The function of a call. -/
  | function
deriving DecidableEq

/-- The failure to find the value of an expression that is not resolved. -/
def Missing.error : Missing → Error
  | column name => .internal s!"unresolved identifier {name}"
  | ordinal => .internal "parameter without an ordinal"
  | function => .internal "unresolved function call"

/-- An expression with its names and calls resolved. -/
inductive Bound where
  /-- A literal: the value that it reads as, or why it reads as none. -/
  | literal (reading : Except Error Value)
  /-- A parameter of the statement, counted from one. -/
  | param (ordinal : Nat)
  | column (ref : ColumnRef)
  | call (function : Function) (args : List Bound)
  | operation (op : Operator) (operands : List Bound)
  /-- A name, a parameter or a call of which it is not known what it means, with its arguments. -/
  | unbound (missing : Missing) (args : List Bound)
  /-- A node that is no expression. -/
  | other (kind : NodeKind)

namespace Operator

/-- The failure of an operand of an operator that has a type where another is needed. -/
def operandMismatch (op : Operator) (expected : String) (actual : DataType) : Error :=
  .typeMismatch s!"{expected} operand to {op.symbol}" actual.name

/-- The failure of an operator with a number of operands that it does not take. -/
def operandCount (op : Operator) (count : Nat) : Error :=
  .internal s!"operator {op.symbol} with {count} operands"

/-- Refuses the first operand whose type is known and does not pass a test. -/
def requireAll (op : Operator) (test : DataType → Bool) (expected : String)
    (types : List DataType) :
    Except Error Unit :=
  match types.find? fun t => t != .null && !test t with
  | some t => .error (op.operandMismatch expected t)
  | none => .ok ()

/-- The type of an arithmetic result. An operand of unknown type takes the type of the other, which
must be numeric. -/
def arithmeticType (op : Operator) (l r : DataType) : Except Error DataType :=
  match DataType.arithmetic? l r with
  | some t => .ok t
  | none =>
    let culprit := if l.isNumeric || l == .null then r else l
    .error (op.operandMismatch "numeric" culprit)

/-- The type of a comparison, whose operands must have a common domain. -/
def comparisonType (op : Operator) (l r : DataType) : Except Error DataType :=
  match DataType.comparison? l r with
  | some _ => .ok .boolean
  | none => .error (op.operandMismatch l.name r)

/-- The type of the result of an operator on operands of given types. -/
def resultType (op : Operator) (types : List DataType) : Except Error DataType :=
  match op, types with
  | isNull, _ | isNotNull, _ => .ok .boolean
  | neg, [t] | pos, [t] => do
    op.requireAll DataType.isNumeric "numeric" [t]
    .ok t
  | not, [t] => do
    op.requireAll (· == .boolean) "boolean" [t]
    .ok .boolean
  | and, [l, r] | or, [l, r] | xor, [l, r] => do
    op.requireAll (· == .boolean) "boolean" [l, r]
    .ok .boolean
  | not, _ | and, _ | or, _ | xor, _ => .ok .boolean
  | concat, [l, r] => do
    op.requireAll DataType.isTextual "text" [l, r]
    .ok .text
  | _, [l, r] =>
    if op.isComparison then op.comparisonType l r else op.arithmeticType l r
  | _, _ => .error (op.operandCount types.length)

end Operator

namespace Bound

mutual

/-- The type of the value of an expression. -/
def type : Bound → Except Error DataType
  | literal reading => reading.map Value.type
  | param _ => .ok .null
  | column ref => .ok ref.column.type
  | call function args => do
    let ts ← types args
    .ok (function.returnType ts)
  | operation op operands => do
    let ts ← types operands
    op.resultType ts
  | unbound _ args => do
    let _ ← types args
    .ok .null
  | other kind => .error (.internal s!"{kind.label} inside an expression")

/-- The types of the values of several expressions. -/
def types : List Bound → Except Error (List DataType)
  | [] => .ok []
  | b :: bs => do
    let t ← type b
    let ts ← types bs
    .ok (t :: ts)

end

end Bound

end SelectEngine
