import SelectEngine.Tree.Visit

/-!
# The outline of a tree

An outline has one line for each node, two blanks further in than its parent: the node's type, the
operator of an operation, the text of a leaf, and the bytes that the node covers. It is written by a
pass that counts how deep it is. Trees of a height above `outlineLimit` have none.
-/

set_option autoImplicit false

namespace SelectEngine

/-- The greatest height of a tree that is outlined. -/
def outlineLimit : Nat := 64

/-- The text of an outline so far, and the depth of the node that is entered next. -/
structure Outline where
  text : String
  depth : Nat

namespace Tree

/-- The line of a node at a depth. -/
def outlineLine (t : Tree) (depth : Nat) (id : NodeId) (kind : NodeKind) : String :=
  let indent := String.ofList (List.replicate (2 * depth) ' ')
  let operator := match kind with
    | .operation op => s!"({op.symbol})"
    | _ => ""
  let text := match t.tokenText? id with
    | some text => s!" '{text}'"
    | none => ""
  let span := t.span id
  s!"{indent}{kind.label}{operator}{text} [{span.offset}..{span.stop}]\n"

/-- Writes the line of every node that is entered. -/
def outliner (t : Tree) : Pass Outline where
  name := "Outline"
  policy := .recurse
  onEnter id kind o := ⟨o.text ++ t.outlineLine o.depth id kind, o.depth + 1⟩
  onLeave _ _ o := ⟨o.text, o.depth - 1⟩
  handler _ _ := none

/-- The outline of the tree, empty before it has an entry point; none above the limit. -/
def outline? (t : Tree) : Option String :=
  match t.root with
  | none => some ""
  | some root =>
    if t.height root ≤ outlineLimit then
      some (t.outliner.walk (t.branch root) ⟨"", 0⟩).state.text
    else none

end Tree

end SelectEngine
