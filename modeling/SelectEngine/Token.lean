import SelectEngine.Operator
import SelectEngine.Span
import SelectEngine.Text.Ascii

/-!
# Tokens

The kinds of tokens, the keywords among them, and the binary operator that a kind spells.
-/

set_option autoImplicit false

namespace SelectEngine

/-- What a token is. -/
inductive TokenKind where
  | kwSelect | kwFrom | kwWhere | kwAnd | kwOr | kwXor | kwIs | kwAs | kwNot | kwNull | kwMod
  /-- A bare word that is no keyword. -/
  | ident
  /-- A name between double quotes or brackets. -/
  | quotedIdent
  /-- Text between single quotes. -/
  | string
  /-- Digits with at most one point among them. -/
  | number
  /-- The mark of a positional parameter. -/
  | question
  | lparen | rparen | semicolon | comma | dot
  | plus | minus | star | slash | percent
  | eq | ne | lt | gt | le | ge
  | pipe | concat
  /-- The end of the text. -/
  | eof
deriving DecidableEq

namespace TokenKind

/-- The kinds in their customary order. -/
def all : List TokenKind :=
  [kwSelect, kwFrom, kwWhere, kwAnd, kwOr, kwXor, kwIs, kwAs, kwNot, kwNull, kwMod, ident,
    quotedIdent, string, number, question, lparen, rparen, semicolon, comma, dot, plus, minus,
    star, slash, percent, eq, ne, lt, gt, le, ge, pipe, concat, eof]

/-- The spelling of a kind in diagnostics. -/
def label : TokenKind → String
  | kwSelect => "SELECT"
  | kwFrom => "FROM"
  | kwWhere => "WHERE"
  | kwAnd => "AND"
  | kwOr => "OR"
  | kwXor => "XOR"
  | kwIs => "IS"
  | kwAs => "AS"
  | kwNot => "NOT"
  | kwNull => "NULL"
  | kwMod => "MOD"
  | ident => "identifier"
  | quotedIdent => "quoted identifier"
  | string => "string"
  | number => "number"
  | question => "?"
  | lparen => "("
  | rparen => ")"
  | semicolon => ";"
  | comma => ","
  | dot => "."
  | plus => "+"
  | minus => "-"
  | star => "*"
  | slash => "/"
  | percent => "%"
  | eq => "="
  | ne => "!="
  | lt => "<"
  | gt => ">"
  | le => "<="
  | ge => ">="
  | pipe => "|"
  | concat => "||"
  | eof => "end of input"

/-- The kind names something. -/
def isName : TokenKind → Bool
  | ident | quotedIdent => true
  | _ => false

/-- The keywords. -/
def keywords : List TokenKind :=
  [kwSelect, kwFrom, kwWhere, kwAnd, kwOr, kwXor, kwIs, kwAs, kwNot, kwNull, kwMod]

def isKeyword (k : TokenKind) : Bool := keywords.contains k

/-- The keyword that a word spells in any letter case. -/
def keyword? (word : String) : Option TokenKind :=
  keywords.find? fun k => k.label == Text.raiseCase word

/-- The operator that a token of this kind is between two operands. -/
def binary? : TokenKind → Option Operator
  | plus => some .add
  | minus => some .sub
  | star => some .mul
  | slash => some .div
  | kwMod | percent => some .mod
  | concat => some .concat
  | eq => some .eq
  | ne => some .ne
  | lt => some .lt
  | gt => some .gt
  | le => some .le
  | ge => some .ge
  | kwAnd => some .and
  | kwOr => some .or
  | kwXor => some .xor
  | _ => none

end TokenKind

/-- A token: its kind, its text and where it stands. The text of a quoted token is what stands
between the quotes, each doubled quote read as one; of any other token it is its spelling. -/
structure Token where
  kind : TokenKind
  text : String
  span : Span
deriving DecidableEq

/-- The refusal of a token: it names the token, or the end of the text, and its place. -/
def Token.refusal (t : Token) (source : String) : Error :=
  .unexpected (if t.kind = .eof then t.kind.label else t.text) (t.span.location source)

end SelectEngine
