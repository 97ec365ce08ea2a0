import SelectEngine.Plan.Bound
import SelectEngine.TableName
import SelectEngine.Tree.Visit

/-!
# The names in scope of a statement

The FROM list gives every source an alias: the one that is written, else the name of the table. No
two aliases are the same up to letter case. A qualifier of one part is an alias; a longer one is the
name of a table and means the first source whose table it fits. A column without a qualifier means
the one source that has a column of that name.

What columns a source has is asked through a `Scope`, whose answers come in any monad that can fail:
from live providers or from tables at rest.
-/

set_option autoImplicit false

namespace SelectEngine

/-- A source of the FROM list: its alias and the table that it names. -/
structure SourceName where
  aliasName : String
  table : TableName
deriving DecidableEq

namespace SourceName

/-- Puts a source behind those before it, under the alias given to it if any. -/
def register (sources : List SourceName) (parts : List String) (given : Option String) :
    Except Error (List SourceName) :=
  match TableName.ofParts parts with
  | none =>
    let shown := ".".intercalate parts
    .error (.internal s!"bad source name {shown}")
  | some table =>
    let aliasName := given.getD table.table
    if sources.any fun s => Text.sameName s.aliasName aliasName then
      .error (.duplicateAlias aliasName)
    else .ok (sources ++ [⟨aliasName, table⟩])

/-- The position of the source of an alias. -/
def position? (sources : List SourceName) (aliasName : String) : Option Nat :=
  sources.findIdx? fun s => Text.sameName s.aliasName aliasName

/-- The position of the source that a qualifier means. -/
def find (sources : List SourceName) (qualifier : List String) : Except Error Nat :=
  let found := match qualifier with
    | [aliasName] => position? sources aliasName
    | _ => (TableName.ofParts qualifier).bind fun wanted =>
      sources.findIdx? fun s => wanted.means s.table
  match found with
  | some i => .ok i
  | none => .error (.noSuchSource (".".intercalate qualifier))

end SourceName

/-- The attribute or source that is given a name, and the name. -/
def Branch.renamedParts (tree : Tree) (children : List Branch) : Except Error (Branch × String) :=
  match children.head?, children.getLast? with
  | some inner, some last =>
    if inner.id = last.id then .error (.internal "malformed alias node")
    else
      match tree.tokenText? last.id with
      | some name => .ok (inner, name)
      | none => .error (.internal "alias without a name")
  | _, _ => .error (.internal "malformed alias node")

mutual

/-- The sources of a FROM list, behind those before it. -/
def Branch.collect (tree : Tree) (sources : List SourceName) :
    Branch → Except Error (List SourceName)
  | .node id kind children =>
    match kind with
    | .from_ => Branch.collectAll tree sources children
    | .name => SourceName.register sources (tree.nameParts id) none
    | .renamed => do
      let (inner, name) ← Branch.renamedParts tree children
      SourceName.register sources (tree.nameParts inner.id) (some name)
    | _ => .error (unhandled kind "SourceCollector")

/-- The sources of several branches in order; keywords name none. -/
def Branch.collectAll (tree : Tree) (sources : List SourceName) :
    List Branch → Except Error (List SourceName)
  | [] => .ok sources
  | b :: bs =>
    match b.kind with
    | .token _ => Branch.collectAll tree sources bs
    | _ => do
      let sources ← Branch.collect tree sources b
      Branch.collectAll tree sources bs

end

/-- The sources of a statement, and how to ask what columns they have. -/
structure Scope (m : Type → Type) where
  sources : List SourceName
  columnCount : (source : Nat) → m Nat
  /-- The position of the column of a name. -/
  columnId? : (source : Nat) → (name : String) → m (Option Nat)
  describe : (source position : Nat) → m Column

namespace Scope

variable {m : Type → Type} [Monad m] [MonadExceptOf Error m]

/-- The first source of those from a position on that has a column of a name. -/
def firstWith (scope : Scope m) (name : String) : List Nat → m (Option (Nat × List Nat))
  | [] => pure none
  | i :: rest => do
    match ← scope.columnId? i name with
    | some _ => pure (some (i, rest))
    | none => scope.firstWith name rest

/-- The one source that has a column of a name. -/
def sourceWith (scope : Scope m) (name : String) : m Nat := do
  match ← scope.firstWith name (List.range scope.sources.length) with
  | none => throw (.noSuchColumn name)
  | some (i, rest) =>
    match ← scope.firstWith name rest with
    | none => pure i
    | some _ => throw (.ambiguousColumn name)

/-- The column that the parts of a name mean. -/
def column (scope : Scope m) (parts : List String) : m ColumnRef := do
  let shown := ".".intercalate parts
  match parts.getLast? with
  | none => throw (.internal "empty identifier group")
  | some name =>
    let source ← match parts.dropLast with
      | [] => scope.sourceWith name
      | qualifier =>
        if 3 < qualifier.length then throw (.noSuchColumn shown)
        else relay (SourceName.find scope.sources qualifier)
    match ← scope.columnId? source name with
    | none => throw (.noSuchColumn shown)
    | some position => do
      let column ← scope.describe source position
      pure (⟨source, position, column⟩)

/-- The columns of a source at the given positions. -/
def columnsAt (scope : Scope m) (source : Nat) : List Nat → m (List ColumnRef)
  | [] => pure []
  | position :: rest => do
    let column ← scope.describe source position
    let more ← scope.columnsAt source rest
    pure (⟨source, position, column⟩ :: more)

/-- All columns of a source. -/
def columnsOf (scope : Scope m) (source : Nat) : m (List ColumnRef) := do
  let count ← scope.columnCount source
  scope.columnsAt source (List.range count)

/-- All columns of several sources, one source after the other. -/
def columnsOfAll (scope : Scope m) : List Nat → m (List ColumnRef)
  | [] => pure []
  | source :: rest => do
    let columns ← scope.columnsOf source
    let more ← scope.columnsOfAll rest
    pure (columns ++ more)

end Scope

end SelectEngine
