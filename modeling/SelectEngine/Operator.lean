/-!
# Operators

The operators of expressions, with their spelling in messages and outlines, their classes, and how
tightly they bind.
-/

set_option autoImplicit false

namespace SelectEngine

/-- An operator of an expression. -/
inductive Operator where
  | add | sub | mul | div | mod | concat
  | eq | ne | lt | gt | le | ge
  | and | or | xor | not
  | neg | pos
  | isNull | isNotNull
deriving DecidableEq

namespace Operator

/-- The operators in their customary order. -/
def all : List Operator :=
  [add, sub, mul, div, mod, concat, eq, ne, lt, gt, le, ge, and, or, xor, not, neg, pos, isNull,
    isNotNull]

/-- The spelling of an operator. -/
def symbol : Operator → String
  | add | pos => "+"
  | sub | neg => "-"
  | mul => "*"
  | div => "/"
  | mod => "MOD"
  | concat => "||"
  | eq => "="
  | ne => "!="
  | lt => "<"
  | gt => ">"
  | le => "<="
  | ge => ">="
  | and => "AND"
  | or => "OR"
  | xor => "XOR"
  | not => "NOT"
  | isNull => "IS NULL"
  | isNotNull => "IS NOT NULL"

/-- Takes one operand rather than two. -/
def isUnary : Operator → Bool
  | not | neg | pos | isNull | isNotNull => true
  | _ => false

/-- The number of operands that an operator takes. -/
def arity (op : Operator) : Nat := if op.isUnary then 1 else 2

def isArithmetic : Operator → Bool
  | add | sub | mul | div | mod | neg | pos => true
  | _ => false

def isComparison : Operator → Bool
  | eq | ne | lt | gt | le | ge => true
  | _ => false

def isLogical : Operator → Bool
  | and | or | xor | not => true
  | _ => false

/-- How tightly an operator binds, loosest first. Binary operators associate to the left. -/
def strength : Operator → Nat
  | or | xor => 1
  | and => 2
  | not => 3
  | eq | ne | isNull | isNotNull => 4
  | lt | gt | le | ge => 5
  | add | sub => 6
  | mul | div | mod => 7
  | concat => 8
  | neg | pos => 9

end Operator

end SelectEngine
