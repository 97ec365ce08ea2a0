import SelectEngine.Evaluation
import SelectEngine.Plan.Basic
import SelectEngine.Session.Basic

/-!
# Cursors

A cursor runs a plan: it is executed with the values of the parameters, moved from row to row of the
product of the sources, and read on the rows that satisfy the WHERE clause. Its state says which of
these it admits.

* `prepared`: bound, and not yet executed.
* `opened`: executed, and not yet moved.
* `positioned`: on a row that satisfies the WHERE clause.
* `eof`: past the last row.
* `bad`: a move has failed, and nothing is left but to close.
* `closed`: the plan and the sources are gone.

An operation that the state does not admit fails before it does anything. The value of a computed
field is kept for the row on which it was found; rows are told apart by their generation.
-/

set_option autoImplicit false

namespace SelectEngine

/-- What a cursor is ready for. -/
inductive CursorState where
  | closed
  | prepared
  | opened
  | positioned
  | eof
  | bad
deriving DecidableEq

/-- The wording of a state in messages. -/
def CursorState.text : CursorState → String
  | closed => "closed"
  | prepared => "prepared"
  | opened => "open"
  | positioned => "positioned"
  | eof => "at EOF"
  | bad => "bad"

/-- How a move ended. -/
inductive Landing where
  /-- On a row that satisfies the WHERE clause. -/
  | row
  /-- Past the last row. -/
  | ended
  /-- Given up: the sources have more rows than the backend expects of them. -/
  | givenUp
deriving DecidableEq

/-- The state after a move. -/
def Landing.state : Landing → CursorState
  | row => .positioned
  | ended => .eof
  | givenUp => .bad

/-- A plan at work. -/
structure Cursor (σ γ : Type) where
  /-- The plan, until the cursor is closed. -/
  plan : Option Plan
  session : Session σ γ
  params : Params
  state : CursorState
  settings : Settings
  /-- Counts the rows and the executions. -/
  generation : Nat
  /-- The last value of each computed field with the generation that it belongs to. -/
  cache : Array (Option (Nat × Value))

namespace Session

variable {σ γ : Type}

/-- Binds a statement: reads its FROM list, opens the sources and binds the rest against them. -/
def bind (B : Backend σ γ) (registry : Registry) (settings : Settings) (tree : Tree) :
    Run (Session σ γ) Plan := do
  let select ← relay (Plan.statement tree)
  let names ← relay (Plan.sourceNames tree select)
  openAll B names
  Plan.ofScope tree select (scope B names) registry settings

end Session

namespace Cursor

variable {σ γ α : Type}

/-- Binds a statement that has been read. On failure all sources are closed again. -/
def ofTree (B : Backend σ γ) (registry : Registry) (settings : Settings) (tree : Tree) (world : γ) :
    Except (Error × γ) (Cursor σ γ) :=
  match Session.bind B registry settings tree ⟨[], world⟩ with
  | .ok plan session =>
    .ok { plan := some plan, session, params := .empty, state := .prepared, settings,
          generation := 0, cache := Array.replicate plan.fields.length none }
  | .error e session => .error (e, (session.release B).world)

/-- Reads and binds a statement. -/
def prepare (B : Backend σ γ) (registry : Registry) (settings : Settings) (text : String)
    (world : γ) : Except (Error × γ) (Cursor σ γ) :=
  match parse settings.reading text with
  | .ok tree => ofTree B registry settings tree world
  | .error e => .error (e, world)

/-! ## What an operation asks of the cursor -/

/-- Refuses an operation in a state that is not among the given ones. -/
def demand (operation : String) (allowed : List CursorState) : Run (Cursor σ γ) Unit := do
  let c ← get
  if c.state ∈ allowed then pure () else throw (.cursorState operation c.state.text)

/-- The plan, or the failure of an operation that needs it. -/
def planFor (operation : String) : Run (Cursor σ γ) Plan := do
  let c ← get
  match c.plan with
  | some plan => pure plan
  | none => throw (.cursorState operation CursorState.closed.text)

/-- Runs a computation on the sources. -/
def onSession (x : Run (Session σ γ) α) : Run (Cursor σ γ) α := fun c =>
  match x c.session with
  | .ok a session => .ok a { c with session }
  | .error e session => .error e { c with session }

/-- The surroundings of an expression on the current row. -/
def environment (B : Backend σ γ) (c : Cursor σ γ) : Environment (Run (Session σ γ)) where
  column source position := Session.at_ source (Source.column B position)
  params := c.params
  nulls := c.settings.nulls
  maxDepth := c.settings.maxDepth

/-- The value of an expression on the current row. -/
def evaluate (B : Backend σ γ) (e : Bound) : Run (Cursor σ γ) Value := do
  let c ← get
  onSession (e.value (c.environment B))

/-! ## Moving -/

/-- The current row satisfies the WHERE clause; a predicate that is null does not hold. -/
def satisfied (B : Backend σ γ) : Run (Cursor σ γ) Bool := do
  let plan ← planFor "evaluate WHERE"
  match plan.predicate with
  | none => pure true
  | some (_, predicate) =>
    match ← evaluate B predicate with
    | .bool b => pure b
    | .null => pure false
    | v => throw (v.mismatch "BOOLEAN predicate")

/-- Begins a new row or a new execution. -/
def renew : Run (Cursor σ γ) Unit :=
  modify fun c => { c with generation := c.generation + 1 }

/-- Goes forward to the next row that satisfies the WHERE clause, over at most so many rows. -/
def forward (B : Backend σ γ) : (rows : Nat) → Run (Cursor σ γ) Landing
  | 0 => pure .givenUp
  | rows + 1 => do
    if ← onSession (Session.forward B) then
      renew
      if ← satisfied B then pure .row else forward B rows
    else pure .ended

/-- More than the number of combined rows of sources within the backend's limit. -/
def rowBound (B : Backend σ γ) : Run (Cursor σ γ) Nat := do
  let n ← onSession Session.count
  pure (Nat.pow (B.rowLimit + 1) n)

/-- Goes to the first row that satisfies the WHERE clause. -/
def start (B : Backend σ γ) : Run (Cursor σ γ) Landing := do
  if ← onSession (Session.start B) then
    renew
    if ← satisfied B then pure .row else forward B (← rowBound B)
  else pure .ended

/-- Enters the state in which a move ends; one that fails leaves the cursor bad. -/
def land (move : Run (Cursor σ γ) Landing) : Run (Cursor σ γ) Landing := fun c =>
  match move c with
  | .ok landing c => .ok landing { c with state := landing.state }
  | .error e c => .error e { c with state := .bad }

/-- Takes the values of the parameters. No row is fetched. -/
def execute (params : Params) : Run (Cursor σ γ) Unit := do
  demand "execute" [.prepared, .opened, .positioned, .eof]
  modify fun c => { c with params, state := .opened }
  renew

/-- Takes all sources to their first rows and goes to the first row that satisfies the WHERE
clause. -/
def first (B : Backend σ γ) : Run (Cursor σ γ) Landing := do
  demand "first" [.opened, .positioned, .eof]
  land (start B)

/-- Goes to the next row that satisfies the WHERE clause; past the last row it stays there. -/
def next (B : Backend σ γ) : Run (Cursor σ γ) Landing := do
  let c ← get
  if c.state = .eof then pure .ended
  else do
    demand "next" [.positioned]
    land (do forward B (← rowBound B))

/-- Past the last row. -/
def eof (c : Cursor σ γ) : Bool := c.state == .eof

/-! ## Reading -/

/-- The value of an expression on the current row, found once for each row. -/
def computed (B : Backend σ γ) (n : Nat) (e : Bound) : Run (Cursor σ γ) Value := do
  let c ← get
  match (c.cache.getD n none).filter fun (generation, _) => generation == c.generation with
  | some (_, v) => pure v
  | none => do
    let v ← evaluate B e
    modify fun c => { c with cache := c.cache.setIfInBounds n (some (c.generation, v)) }
    pure v

/-- The value of the field of a position on the current row. -/
def fieldValue (B : Backend σ γ) (n : Nat) (field : Field) : Run (Cursor σ γ) Value := do
  match field.kind with
  | .static v => pure v
  | .param ordinal => do
    let c ← get
    pure (c.params.value ordinal)
  | .data ref => onSession (Session.at_ ref.source (Source.column B ref.position))
  | .computed _ e => computed B n e

/-- The number of columns of the result. -/
def columnCount (c : Cursor σ γ) : Nat :=
  match c.plan with
  | some plan => plan.fields.length
  | none => 0

/-- The number of parameters of the statement. -/
def paramCount (c : Cursor σ γ) : Nat :=
  match c.plan with
  | some plan => plan.params.length
  | none => 0

/-- The number of rows, which is not known before the last is read. -/
def rowCount (_ : Cursor σ γ) : Int := -1

/-- The number of rows changed: a cursor changes none. -/
def affectedRows (_ : Cursor σ γ) : Int := -1

/-- The value of a column of the current row. -/
def column (B : Backend σ γ) (n : Nat) : Run (Cursor σ γ) Value := do
  demand "read a column" [.positioned]
  let plan ← planFor "read a column"
  match plan.fields[n]? with
  | some field => fieldValue B n field
  | none => throw (.columnOutOfRange n plan.fields.length)

/-- The position of the first column of a name, up to letter case. -/
def columnIndex? (c : Cursor σ γ) (name : String) : Option Nat := c.plan.bind (·.field? name)

/-- The value of the first column of a name. -/
def columnByName (B : Backend σ γ) (name : String) : Run (Cursor σ γ) Value := do
  let c ← get
  match c.columnIndex? name with
  | some n => column B n
  | none => throw (.noSuchColumn name)

/-- The values of several columns of the current row, in order. -/
def columns (B : Backend σ γ) : List Nat → Run (Cursor σ γ) (List Value)
  | [] => pure []
  | n :: rest => do
    let v ← column B n
    let vs ← columns B rest
    pure (v :: vs)

/-- The values of all columns of the current row. -/
def row (B : Backend σ γ) : Run (Cursor σ γ) (List Value) := do
  let c ← get
  columns B (List.range c.columnCount)

/-- The descriptor of a column of the result. -/
def describe (n : Nat) : Run (Cursor σ γ) Column := do
  let plan ← planFor "describe a column"
  match plan.fields[n]? with
  | some field => pure field.column
  | none => throw (.columnOutOfRange n plan.fields.length)

/-! ## Closing -/

/-- Closes the sources and gives up the plan. The cursor is closed even if a source fails to close;
the first such failure is the failure of the operation. -/
def close (B : Backend σ γ) : Run (Cursor σ γ) Unit := do
  let outcome ← attempt (onSession (Session.closeAll B))
  modify fun c =>
    { c with plan := none, session := { c.session with sources := [] }, params := .empty,
             state := .closed, cache := #[] }
  relay outcome

/-- Closes the sources and forgets the cursor; what the providers share remains. -/
def release (B : Backend σ γ) (c : Cursor σ γ) : γ := (c.session.release B).world

end Cursor

end SelectEngine
