import SelectEngine.Backend
import SelectEngine.Text.Quoted

/-!
# Sources of a statement

A source is a provider under an alias, with the table that it serves and whether it is open. It is
opened and closed only through `Source.openTable` and `Source.close`; closing a source that is not
open does nothing, and one that fails to close counts as closed.
-/

set_option autoImplicit false

namespace SelectEngine

variable {σ γ α : Type}

/-- The state survives a failure. -/
abbrev Run (s : Type) := EStateM Error s

/-- Runs a computation and answers with its outcome, failure or not. -/
def attempt {s : Type} (x : Run s α) : Run s (Except Error α) := fun state =>
  match x state with
  | .ok a state => .ok (.ok a) state
  | .error e state => .ok (.error e) state

/-- A provider under an alias. -/
structure Source (σ : Type) where
  aliasName : String
  name : TableName
  provider : σ
  isOpen : Bool

namespace Source

/-- A source that is not open. -/
def closed (aliasName : String) (name : TableName) (provider : σ) : Source σ :=
  { aliasName, name, provider, isOpen := false }

/-- Asks the provider. -/
def ask (B : Backend σ γ) (call : Call) : Run (Source σ × γ) call.Answer := fun (s, world) =>
  let (a, provider, world) := B.answer call s.provider world
  .ok a ({ s with provider }, world)

/-- Opens the provider for reading on the source's table. -/
def openTable (B : Backend σ γ) : Run (Source σ × γ) Unit := do
  let (s, _) ← get
  let outcome : Except Error Unit ← ask B (.openTable .read s.name)
  relay outcome
  modify fun (s, world) => ({ s with isOpen := true }, world)

/-- Closes the provider if it is open. -/
def close (B : Backend σ γ) : Run (Source σ × γ) Unit := do
  let (s, _) ← get
  if s.isOpen then
    modify fun (s, world) => ({ s with isOpen := false }, world)
    let outcome : Except Error Unit ← ask B .close
    relay outcome

/-- Goes to the first row. -/
def first (B : Backend σ γ) : Run (Source σ × γ) Unit := do
  let outcome : Except Error Unit ← ask B .first
  relay outcome

/-- Goes to the next row. -/
def next (B : Backend σ γ) : Run (Source σ × γ) Unit := do
  let outcome : Except Error Unit ← ask B .next
  relay outcome

/-- Closes, opens and goes to the first row. -/
def reset (B : Backend σ γ) : Run (Source σ × γ) Unit := do
  close B
  openTable B
  first B

/-- The last row has been passed. -/
def eof (B : Backend σ γ) : Run (Source σ × γ) Bool := ask B .eof

def columnCount (B : Backend σ γ) : Run (Source σ × γ) Nat := ask B .columnCount

/-- The position of a column. -/
def columnId? (B : Backend σ γ) (name : String) : Run (Source σ × γ) (Option Nat) :=
  ask B (.columnId name)

/-- The value of a column of the current row. -/
def column (B : Backend σ γ) (position : Nat) : Run (Source σ × γ) Value := do
  let outcome : Except Error Value ← ask B (.column position)
  relay outcome

/-- The descriptor of a column. -/
def describe (B : Backend σ γ) (position : Nat) : Run (Source σ × γ) Column := do
  let outcome : Except Error Column ← ask B (.describe position)
  relay outcome

/-- A qualifier in diagnostics. -/
def qualifierText : Option String → String
  | some q => s!"Some({Text.quoted q})"
  | none => "None"

/-- The source in diagnostics. -/
def text (s : Source σ) : String :=
  let aliasText := s!"Identifier \x7b name: {Text.quoted s.aliasName} \x7d"
  let catalog := qualifierText s.name.catalog
  let schema := qualifierText s.name.schema
  let table := Text.quoted s.name.table
  let name := s!"ObjectName \x7b catalog: {catalog}, schema: {schema}, table: {table} \x7d"
  s!"DbObject \x7b alias: {aliasText}, name: {name}, open: {s.isOpen}, .. \x7d"

end Source

end SelectEngine
