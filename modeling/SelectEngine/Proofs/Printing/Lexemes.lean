import SelectEngine.Proofs.Token.Spelling
import SelectEngine.Statement

/-!
# Printing statements

A statement whose leaves are texts is printed as its tokens with one space between two of them
(`Statement.print`). Names are quoted, and parentheses stand around an operand only if its operator
binds looser than the operator it is an operand of, or as loosely on the right of a binary one.
`Statement.Printable` says which leaves a statement may have; every token that is printed then has a
spelling (`Statement.spelled_lexemes`).
-/

set_option autoImplicit false

namespace SelectEngine

/-- A token without its place. -/
abbrev Lexeme := TokenKind × String

/-- A keyword, a mark or a symbol. -/
def Lexeme.mark (kind : TokenKind) : Lexeme := (kind, kind.label)

/-- Several runs of tokens with a mark between them. -/
def separated (mark : Lexeme) : List (List Lexeme) → List Lexeme
  | [] => []
  | [run] => run
  | run :: rest => run ++ mark :: separated mark rest

/-- The kind of the token that an operator begins with. -/
def Operator.kind : Operator → TokenKind
  | add | pos => .plus
  | sub | neg => .minus
  | mul => .star
  | div => .slash
  | mod => .kwMod
  | concat => .concat
  | eq => .eq
  | ne => .ne
  | lt => .lt
  | gt => .gt
  | le => .le
  | ge => .ge
  | and => .kwAnd
  | or => .kwOr
  | xor => .kwXor
  | not => .kwNot
  | isNull | isNotNull => .kwIs

/-- A test behind its operand, with the tokens that it is written as. -/
def Operator.test? : Operator → Option (List Lexeme)
  | isNull => some [.mark .kwIs, .mark .kwNull]
  | isNotNull => some [.mark .kwIs, .mark .kwNot, .mark .kwNull]
  | _ => none

/-! ## Tokens of a statement -/

/-- How tightly an expression holds together; one without an operator holds tightest. -/
def Expr.strength {τ : Type} : Expr τ → Nat
  | .unary op _ | .binary op _ _ => op.strength
  | _ => 10

/-- Tokens between parentheses if these are needed. -/
def parenthesized (needed : Bool) (tokens : List Lexeme) : List Lexeme :=
  if needed then .mark .lparen :: (tokens ++ [.mark .rparen]) else tokens

/-- The tokens of a name. -/
def nameLexemes (parts : List String) : List Lexeme :=
  separated (.mark .dot) (parts.map fun part => [(.quotedIdent, part)])

namespace Expr

mutual

/-- The tokens of an expression. -/
def lexemes : Expr String → List Lexeme
  | .text leaf => [(.string, leaf)]
  | .number leaf => [(.number, leaf)]
  | .null leaf => [(.kwNull, leaf)]
  | .param leaf => [(.question, leaf)]
  | .name parts => nameLexemes parts
  | .call function args =>
    (.quotedIdent, function) :: .mark .lparen ::
      (separated (.mark .comma) (lexemesOf args) ++ [.mark .rparen])
  | .unary op operand =>
    let tokens := parenthesized (operand.strength < op.strength) operand.lexemes
    match op.test? with
    | some test => tokens ++ test
    | none => .mark op.kind :: tokens
  | .binary op left right =>
    parenthesized (left.strength < op.strength) left.lexemes ++ .mark op.kind ::
      parenthesized (right.strength < op.strength + 1) right.lexemes

/-- The tokens of several expressions. -/
def lexemesOf : List (Expr String) → List (List Lexeme)
  | [] => []
  | e :: es => e.lexemes :: lexemesOf es

end

end Expr

/-- The tokens of a naming. -/
def Naming.lexemes (n : Naming String) : List Lexeme :=
  match n.keyword with
  | some keyword => [(.kwAs, keyword), (.quotedIdent, n.name)]
  | none => [(.quotedIdent, n.name)]

/-- The tokens of a naming that may be absent. -/
def namingLexemes : Option (Naming String) → List Lexeme
  | some naming => naming.lexemes
  | none => []

def Attribute.lexemes : Attribute String → List Lexeme
  | star leaf => [(.star, leaf)]
  | starOf parts leaf => nameLexemes parts ++ [Lexeme.mark .dot, (.star, leaf)]
  | value e naming => e.lexemes ++ namingLexemes naming

def FromItem.lexemes (s : FromItem String) : List Lexeme :=
  nameLexemes s.parts ++ namingLexemes s.naming

/-- The tokens of a WHERE clause that may be absent. -/
def restrictionLexemes : Option (Restriction String) → List Lexeme
  | some r => (.kwWhere, r.keyword) :: r.condition.lexemes
  | none => []

/-- The tokens of a statement. -/
def Statement.lexemes (s : Statement String) : List Lexeme :=
  (.kwSelect, s.select) :: (separated (.mark .comma) (s.attributes.map Attribute.lexemes) ++
    (.kwFrom, s.from_) :: (separated (.mark .comma) (s.sources.map FromItem.lexemes) ++
      restrictionLexemes s.restriction))

/-! ## Text of a statement -/

/-- The characters of a token: names between double quotes, strings between single ones. -/
def Lexeme.spell : Lexeme → List Char
  | (.quotedIdent, text) => '"' :: (doubled '"' text.toList ++ ['"'])
  | (.string, text) => '\'' :: (doubled '\'' text.toList ++ ['\''])
  | (_, text) => text.toList

/-- The characters of several tokens with one space between two of them. -/
def spellAll : List Lexeme → List Char
  | [] => []
  | [token] => token.spell
  | token :: rest => token.spell ++ ' ' :: spellAll rest

/-- The text of a statement. -/
def Statement.print (s : Statement String) : String := String.ofList (spellAll s.lexemes)

/-! ## Statements that can be printed -/

/-- Digits, perhaps with a point and digits behind them. -/
inductive IsNumeral : List Char → Prop
  | whole {d : Char} {ds : List Char} (h : ∀ c ∈ d :: ds, c.isDigit = true) : IsNumeral (d :: ds)
  | decimal {d e : Char} {ds es : List Char} (h : ∀ c ∈ d :: ds, c.isDigit = true)
      (he : ∀ c ∈ e :: es, c.isDigit = true) : IsNumeral (d :: ds ++ '.' :: e :: es)

namespace Expr

mutual

/-- Numbers are numerals, names have parts, and operators the operands that they take. -/
def Printable : Expr String → Prop
  | .text _ => True
  | .number leaf => IsNumeral leaf.toList
  | .null leaf => leaf = "NULL"
  | .param leaf => leaf = "?"
  | .name parts => parts ≠ []
  | .call _ args => AllPrintable args
  | .unary op operand => op.isUnary = true ∧ operand.Printable
  | .binary op left right => op.isUnary = false ∧ left.Printable ∧ right.Printable

def AllPrintable : List (Expr String) → Prop
  | [] => True
  | e :: es => e.Printable ∧ AllPrintable es

end

end Expr

/-- A bare alias or one behind `AS`. -/
def Naming.Printable (n : Naming String) : Prop := ∀ keyword ∈ n.keyword, keyword = "AS"

def Attribute.Printable : Attribute String → Prop
  | star leaf => leaf = "*"
  | starOf parts leaf => parts ≠ [] ∧ leaf = "*"
  | value e naming => e.Printable ∧ ∀ n ∈ naming, n.Printable

/-- A source has a name of one to three parts. -/
def FromItem.Printable (s : FromItem String) : Prop :=
  s.parts ≠ [] ∧ s.parts.length ≤ 3 ∧ ∀ n ∈ s.naming, n.Printable

/-- The leaves of a statement are texts that can stand for them. -/
structure Statement.Printable (s : Statement String) : Prop where
  select : s.select = "SELECT"
  attributes_ne : s.attributes ≠ []
  attributes : ∀ a ∈ s.attributes, a.Printable
  from_ : s.from_ = "FROM"
  sources_ne : s.sources ≠ []
  sources : ∀ source ∈ s.sources, source.Printable
  restriction : ∀ r ∈ s.restriction, r.keyword = "WHERE" ∧ r.condition.Printable

end SelectEngine
