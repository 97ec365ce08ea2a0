import SelectEngine.Token
import SelectEngine.Value

/-!
# Trees of parsed statements

A `Tree` owns the tokens and the nodes of one statement. Nodes refer to their children and tokens by
number, and a node is added after its children: `Tree.ordered` says that children have smaller
numbers than their parent, which makes every walk downwards end.

The span of a node is the hull of its own token and its children. `Tree.heightsUpTo` finds the
heights of the nodes in one pass over them, since the children's heights are known when a node is
reached.
-/

set_option autoImplicit false

namespace SelectEngine

/-- The number of a node in its tree. -/
abbrev NodeId := Nat

/-- The number of a token in its tree. -/
abbrev TokenId := Nat

/-- What a node is. The leaves carry the token that they stand for. -/
inductive NodeKind where
  | root
  | select
  /-- The list of attributes. -/
  | attributes
  /-- A star, perhaps behind the name of a source. -/
  | star
  | from_
  | where_
  /-- One part of a name. -/
  | id (token : TokenId)
  /-- The parts of a name, outermost first. -/
  | name
  /-- An attribute or a source with the name given to it. -/
  | renamed
  | text (token : TokenId)
  | number (token : TokenId)
  | null (token : TokenId)
  | operation (op : Operator)
  /-- A function's name and its arguments. -/
  | call
  | param (token : TokenId)
  /-- A keyword or a star. -/
  | token (token : TokenId)
deriving DecidableEq

/-- What a node is, without what it carries. -/
inductive NodeType where
  | root | select | attributes | star | from_ | where_ | id | name | renamed | text | number | null
  | operation | call | param | token
deriving DecidableEq

/-- The name of a node type in outlines and messages. -/
def NodeType.label : NodeType → String
  | root => "ParseTree"
  | select => "SelectNode"
  | attributes => "AttrListNode"
  | star => "AllAttrNode"
  | from_ => "FromNode"
  | where_ => "WhereNode"
  | id => "IdNode"
  | name => "IdGroupNode"
  | renamed => "AliasNode"
  | text => "LiteralNode"
  | number => "NumberNode"
  | null => "NullNode"
  | operation => "ExprNode"
  | call => "FuncCallNode"
  | param => "ParamNode"
  | token => "TokenNode"

namespace NodeKind

def type : NodeKind → NodeType
  | root => .root
  | select => .select
  | attributes => .attributes
  | star => .star
  | from_ => .from_
  | where_ => .where_
  | id _ => .id
  | name => .name
  | renamed => .renamed
  | text _ => .text
  | number _ => .number
  | null _ => .null
  | operation _ => .operation
  | call => .call
  | param _ => .param
  | token _ => .token

/-- The token of a leaf. -/
def token? : NodeKind → Option TokenId
  | id t | text t | number t | null t | param t | token t => some t
  | _ => none

/-- The name of a node's type. -/
def label (k : NodeKind) : String := k.type.label

end NodeKind

/-- A node with its children in order and the text that it covers. -/
structure Node where
  kind : NodeKind
  children : List NodeId
  span : Span
deriving DecidableEq

/-- The tokens and nodes of one statement. -/
structure Tree where
  /-- The name of the statement's source. -/
  source : String
  tokens : Array Token
  nodes : Array Node
  /-- The entry point of the tree. -/
  root : Option NodeId
  /-- Children come before their parent. -/
  ordered : ∀ (i : Nat) (h : i < nodes.size), ∀ c ∈ nodes[i].children, c < i

namespace Tree

/-- A tree of nothing but tokens. -/
def ofTokens (source : String) (tokens : Array Token) : Tree :=
  { source, tokens, nodes := #[], root := none, ordered := fun _ h => absurd h (by simp) }

/-- Adds a token. -/
def addToken (t : Tree) (token : Token) : Tree × TokenId :=
  ({ t with tokens := t.tokens.push token }, t.tokens.size)

/-- The span of a token; a number without a token has none. -/
def tokenSpan (t : Tree) (id : TokenId) : Span :=
  match t.tokens[id]? with
  | some token => token.span
  | none => .empty

/-- The span of a node; a number without a node has none. -/
def span (t : Tree) (id : NodeId) : Span :=
  match t.nodes[id]? with
  | some node => node.span
  | none => .empty

/-- The hull of a leaf's token and of the given children, in order. -/
def hull (t : Tree) (kind : NodeKind) (children : List NodeId) : Span :=
  let own := match kind.token? with
    | some token => t.tokenSpan token
    | none => .empty
  children.foldl (fun span c => span.join (t.span c)) own

/-- Adds a node above the given children, of which those that are in the tree are kept. -/
def addNode (t : Tree) (kind : NodeKind) (children : List NodeId) : Tree × NodeId :=
  let kept := children.filter (· < t.nodes.size)
  ({ t with
      nodes := t.nodes.push ⟨kind, kept, t.hull kind kept⟩
      ordered := by
        intro i h c hc
        rw [Array.getElem_push] at hc
        split at hc
        · next hi => exact t.ordered i hi c hc
        · next hi =>
          have hlt : c < t.nodes.size := by simpa [kept] using (List.mem_filter.mp hc).2
          exact Nat.lt_of_lt_of_le hlt (Nat.le_of_not_lt hi) },
    t.nodes.size)

/-- Puts the root above a statement and makes it the entry point. -/
def setRoot (t : Tree) (select : NodeId) : Tree :=
  let (t, root) := t.addNode .root [select]
  { t with root := some root }

/-- What a node is; a number without a node is a bare root. -/
def kind (t : Tree) (id : NodeId) : NodeKind :=
  match t.nodes[id]? with
  | some node => node.kind
  | none => .root

/-- The children of a node, in order. -/
def children (t : Tree) (id : NodeId) : List NodeId :=
  match t.nodes[id]? with
  | some node => node.children
  | none => []

theorem lt_of_mem_children {t : Tree} {id c : NodeId} (h : c ∈ t.children id) : c < id := by
  unfold children at h
  split at h
  · next node hn =>
    obtain ⟨hi, rfl⟩ := Array.getElem?_eq_some_iff.mp hn
    exact t.ordered id hi c h
  · simp at h

/-- The statement, once the tree has an entry point. -/
def select? (t : Tree) : Option NodeId :=
  t.root.bind fun root => (t.children root).head?.filter fun c => t.kind c = .select

/-- The first child of a type. -/
def child? (t : Tree) (id : NodeId) (type : NodeType) : Option NodeId :=
  (t.children id).find? fun c => (t.kind c).type = type

/-- The text of the token of a leaf. -/
def tokenText? (t : Tree) (id : NodeId) : Option String :=
  (t.kind id).token?.bind fun token => t.tokens[token]?.map Token.text

/-- The parts of a name, outermost first; of any other node the text of its own token, if any. -/
def nameParts (t : Tree) (id : NodeId) : List String :=
  match t.kind id with
  | .name => (t.children id).filterMap t.tokenText?
  | _ => (t.tokenText? id).toList

/-- The value of a literal; no other node has one. -/
def constant? (t : Tree) (id : NodeId) : Except Error (Option Value) :=
  match t.kind id with
  | .text _ => .ok (some (.text ((t.tokenText? id).getD "")))
  | .number _ => (Value.ofNumeral ((t.tokenText? id).getD "")).map some
  | .null _ => .ok (some .null)
  | _ => .ok none

/-- Adds the height of a node behind those of the nodes before it: one more than the greatest height
of a child. -/
def addHeight (heights : Array Nat) (node : Node) : Array Nat :=
  heights.push (1 + (node.children.map (heights.getD · 0)).foldl max 0)

/-- The heights of the first nodes, so many of them, in one pass. -/
def heightsUpTo (t : Tree) (count : Nat) : Array Nat :=
  (t.nodes.toList.take count).foldl addHeight #[]

/-- The heights of all nodes. -/
def heights (t : Tree) : Array Nat := t.heightsUpTo t.nodes.size

/-- The number of nodes on the longest way down from a node, itself included. -/
def height (t : Tree) (id : NodeId) : Nat := (t.heightsUpTo (id + 1)).getD id 0

end Tree

end SelectEngine
