import SelectEngine.Operator

/-!
# Statements

The abstract form of a SELECT statement. The leaves are of a type `τ` that the reader chooses: the
numbers of the tokens in a parsed statement, or plain text in one that is to be written.
-/

set_option autoImplicit false

namespace SelectEngine

/-- An expression. -/
inductive Expr (τ : Type) where
  /-- Text between single quotes. -/
  | text (leaf : τ)
  | number (leaf : τ)
  | null (leaf : τ)
  /-- A positional parameter. -/
  | param (leaf : τ)
  /-- A column, outermost qualifier first. -/
  | name (parts : List τ)
  | call (function : τ) (args : List (Expr τ))
  /-- A sign, a negation or a null test. -/
  | unary (op : Operator) (operand : Expr τ)
  | binary (op : Operator) (left right : Expr τ)

/-- The name given to an attribute or a source, with the leaf of the keyword before it if it is
written. -/
structure Naming (τ : Type) where
  keyword : Option τ
  name : τ

/-- An attribute of the SELECT list. -/
inductive Attribute (τ : Type) where
  /-- Every column of every source. -/
  | star (leaf : τ)
  /-- Every column of one source. -/
  | starOf (parts : List τ) (leaf : τ)
  | value (e : Expr τ) (naming : Option (Naming τ))

/-- A source of the FROM list: the parts of its table's name, outermost first. -/
structure FromItem (τ : Type) where
  parts : List τ
  naming : Option (Naming τ)

/-- The WHERE clause. -/
structure Restriction (τ : Type) where
  keyword : τ
  condition : Expr τ

/-- A SELECT statement with the leaves of its keywords. -/
structure Statement (τ : Type) where
  select : τ
  attributes : List (Attribute τ)
  from_ : τ
  sources : List (FromItem τ)
  restriction : Option (Restriction τ)

end SelectEngine
