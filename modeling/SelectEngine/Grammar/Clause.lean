import SelectEngine.Grammar.Expression
import SelectEngine.Token.Scan
import SelectEngine.Tree.Basic

/-!
# Reading a statement token by token

The grammar is `SELECT attribute (, attribute)* FROM source (, source)* [WHERE expression] [;]`.
`Stage` says how far a statement has been read and holds the parts read so far, the latest first.
`Stage.feed` takes one token: `none` refuses it, and the statement is accepted at the end of the
text only.

A token that ends a construct is handed to the stage behind it in the same call, always to a later
one, so that no token is looked at for ever.

`readStatement` feeds the tokens of a text to the stages, which hold what has been read as
expressions, attributes and sources rather than as nodes. `parse_eq` shows that parsing is this
reading, with the statement laid out as a tree at its end.
-/

set_option autoImplicit false

namespace SelectEngine.Grammar

variable {τ : Type}

/-- What has been read of the SELECT clause. -/
structure Head (τ : Type) where
  select : τ
  attributes : List (Attribute τ)

/-- What has been read of the SELECT and FROM clauses. -/
structure Body (τ : Type) where
  select : τ
  attributes : List (Attribute τ)
  from_ : τ
  sources : List (FromItem τ)

/-- The statement whose clauses have been read. -/
def Body.close (b : Body τ) (restriction : Option (Restriction τ)) : Statement τ :=
  ⟨b.select, b.attributes.reverse, b.from_, b.sources.reverse, restriction⟩

/-- How far a statement has been read. -/
inductive Stage (τ : Type) where
  /-- Nothing read. -/
  | start
  /-- An attribute is due. -/
  | attribute (head : Head τ)
  /-- Inside the expression of an attribute. -/
  | attributeExpr (head : Head τ) (expr : State τ)
  /-- Behind `expression AS`. -/
  | attributeName (head : Head τ) (value : Expr τ) (keyword : τ)
  /-- Behind an attribute. -/
  | attributeEnd (head : Head τ) (last : Attribute τ)
  /-- A source is due. -/
  | source (body : Body τ)
  /-- Behind a part of a source's name. -/
  | sourceParts (body : Body τ) (parts : List τ)
  /-- Behind the point of a source's name. -/
  | sourceDot (body : Body τ) (parts : List τ)
  /-- Behind `source AS`. -/
  | sourceName (body : Body τ) (parts : List τ) (keyword : τ)
  /-- Behind a source. -/
  | sourceEnd (body : Body τ)
  /-- Inside the expression of the WHERE clause. -/
  | condition (body : Body τ) (keyword : τ) (expr : State τ)
  /-- Behind the semicolon. -/
  | closed (statement : Statement τ)

/-- What a token did to the reader. -/
inductive Outcome (τ : Type) where
  | more (stage : Stage τ)
  | accepted (statement : Statement τ)

namespace Stage

/-- A token behind an attribute. -/
def afterAttribute (head : Head τ) (last : Attribute τ) (kind : TokenKind) (leaf : τ) :
    Option (Outcome τ) :=
  match kind with
  | .comma => some (.more (.attribute { head with attributes := last :: head.attributes }))
  | .kwFrom => some (.more (.source ⟨head.select, last :: head.attributes, leaf, []⟩))
  | _ => none

/-- A token behind the expression of an attribute: its name or what follows an attribute. -/
def afterValue (head : Head τ) (value : Expr τ) (kind : TokenKind) (leaf : τ) :
    Option (Outcome τ) :=
  match kind with
  | .kwAs => some (.more (.attributeName head value leaf))
  | .ident | .quotedIdent =>
    some (.more (.attributeEnd head (.value value (some ⟨none, leaf⟩))))
  | _ => afterAttribute head (.value value none) kind leaf

/-- A token inside the expression of an attribute. -/
def onAttributeExpr (head : Head τ) (expr : State τ) (kind : TokenKind) (leaf : τ) :
    Option (Outcome τ) :=
  match expr.feed kind leaf with
  | some (.more expr) => some (.more (.attributeExpr head expr))
  | some (.finished value) => afterValue head value kind leaf
  | some (.starOf parts star) => some (.more (.attributeEnd head (.starOf parts star)))
  | none => none

/-- A token behind a source. -/
def afterSource (body : Body τ) (kind : TokenKind) (leaf : τ) : Option (Outcome τ) :=
  match kind with
  | .comma => some (.more (.source body))
  | .kwWhere => some (.more (.condition body leaf (State.start false)))
  | .semicolon => some (.more (.closed (body.close none)))
  | .eof => some (.accepted (body.close none))
  | _ => none

/-- The clauses with one more source. -/
def addSource (body : Body τ) (parts : List τ) (naming : Option (Naming τ)) : Body τ :=
  { body with sources := ⟨parts, naming⟩ :: body.sources }

/-- A token behind a part of a source's name. A name has at most three parts. -/
def onSourceParts (body : Body τ) (parts : List τ) (kind : TokenKind) (leaf : τ) :
    Option (Outcome τ) :=
  match kind with
  | .dot => if parts.length < 3 then some (.more (.sourceDot body parts)) else none
  | .kwAs => some (.more (.sourceName body parts leaf))
  | .ident | .quotedIdent =>
    some (.more (.sourceEnd (addSource body parts (some ⟨none, leaf⟩))))
  | .comma | .kwWhere | .semicolon | .eof => afterSource (addSource body parts none) kind leaf
  | _ => none

/-- A token inside or behind the expression of the WHERE clause. -/
def onCondition (body : Body τ) (keyword : τ) (expr : State τ) (kind : TokenKind) (leaf : τ) :
    Option (Outcome τ) :=
  match expr.feed kind leaf with
  | some (.more expr) => some (.more (.condition body keyword expr))
  | some (.finished test) =>
    match kind with
    | .semicolon => some (.more (.closed (body.close (some ⟨keyword, test⟩))))
    | .eof => some (.accepted (body.close (some ⟨keyword, test⟩)))
    | _ => none
  | some (.starOf _ _) | none => none

/-- Takes one token. -/
def feed (stage : Stage τ) (kind : TokenKind) (leaf : τ) : Option (Outcome τ) :=
  match stage with
  | .start =>
    if kind = .kwSelect then some (.more (.attribute ⟨leaf, []⟩)) else none
  | .attribute head =>
    if kind = .star then some (.more (.attributeEnd head (.star leaf)))
    else onAttributeExpr head (State.start true) kind leaf
  | .attributeExpr head expr => onAttributeExpr head expr kind leaf
  | .attributeName head value keyword =>
    if kind.isName then
      some (.more (.attributeEnd head (.value value (some ⟨some keyword, leaf⟩))))
    else none
  | .attributeEnd head last => afterAttribute head last kind leaf
  | .source body => if kind.isName then some (.more (.sourceParts body [leaf])) else none
  | .sourceParts body parts => onSourceParts body parts kind leaf
  | .sourceDot body parts =>
    if kind.isName then some (.more (.sourceParts body (parts ++ [leaf]))) else none
  | .sourceName body parts keyword =>
    if kind.isName then
      some (.more (.sourceEnd (addSource body parts (some ⟨some keyword, leaf⟩))))
    else none
  | .sourceEnd body => afterSource body kind leaf
  | .condition body keyword expr => onCondition body keyword expr kind leaf
  | .closed statement => if kind = .eof then some (.accepted statement) else none

end Stage

end SelectEngine.Grammar

/-! ## Reading a text -/

namespace SelectEngine

/-- Reads tokens until the statement is accepted; answers with it and with all tokens read, of which
`tokens` are the first. The leaves of the statement are the numbers of its tokens. -/
def readStatement (source : String) (s : Scan) (stage : Grammar.Stage TokenId)
    (tokens : Array Token) : Except Error (Statement TokenId × Array Token) :=
  match h : s.next source with
  | (.error e, _) => .error e
  | (.ok t, past) =>
    match stage.feed t.kind tokens.size with
    | none => .error (t.refusal source)
    | some (.accepted statement) => .ok (statement, tokens.push t)
    | some (.more stage) =>
      if ht : t.kind = .eof then .error (t.refusal source)
      else
        have : past.rest.length < s.rest.length := Scan.next_shorter h ht
        readStatement source past stage (tokens.push t)
termination_by s.rest.length

end SelectEngine
