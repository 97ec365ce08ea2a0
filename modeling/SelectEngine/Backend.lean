import SelectEngine.Column
import SelectEngine.TableName
import SelectEngine.Value

/-!
# Backends

A backend serves the rows of named tables. For each source of a statement it creates a provider, a
forward-only reader with a state of type `σ`; what all providers share, a connection or a record of
calls, is a value of type `γ`. A provider is driven by calls and answers each by the type that goes
with the call. Any function is a backend: a provider may fail, change its mind or answer nonsense.
-/

set_option autoImplicit false

namespace SelectEngine

/-- The purpose for which a provider is opened. -/
inductive OpenMode where
  | read
  | write
deriving DecidableEq

/-- A request to a provider. -/
inductive Call where
  /-- Bind the provider to a table. -/
  | openTable (mode : OpenMode) (name : TableName)
  /-- Go to the first row. -/
  | first
  /-- Go to the next row. -/
  | next
  /-- Release the table. -/
  | close
  /-- Whether the last row has been passed. -/
  | eof
  | columnCount
  /-- The position of the column of a name. -/
  | columnId (name : String)
  /-- The value of a column of the current row. -/
  | column (position : Nat)
  | describe (position : Nat)
deriving DecidableEq

/-- What a provider answers to a call. -/
abbrev Call.Answer : Call → Type
  | .openTable _ _ => Except Error Unit
  | .first => Except Error Unit
  | .next => Except Error Unit
  | .close => Except Error Unit
  | .eof => Bool
  | .columnCount => Nat
  | .columnId _ => Option Nat
  | .column _ => Except Error Value
  | .describe _ => Except Error Column

/-- A server of tables, with providers of state `σ` that share `γ`. -/
structure Backend (σ γ : Type) where
  /-- The provider for a source, not yet open. -/
  create : TableName → γ → Except Error σ × γ
  /-- The answer of a provider to a call. -/
  answer : (call : Call) → σ → γ → call.Answer × σ × γ
  /-- No source is expected to have more rows than this; a scan that finds more is given up. -/
  rowLimit : Nat

end SelectEngine
