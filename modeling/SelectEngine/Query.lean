import SelectEngine.Cursor

/-!
# Queries

A query runs a statement from its text to the list of all its rows: it prepares a cursor, drains it
and closes it. A failure to fetch comes before a failure to close.
-/

set_option autoImplicit false

namespace SelectEngine

variable {σ γ : Type}

namespace Cursor

/-- The current row and those behind it, at most so many; none if the scan is given up. -/
def drain (B : Backend σ γ) : (rows : Nat) → Run (Cursor σ γ) (Option (List (List Value)))
  | 0 => pure none
  | rows + 1 => do
    let current ← row B
    match ← next B with
    | .row => do
      let later ← drain B rows
      pure (later.map (current :: ·))
    | .ended => pure (some [current])
    | .givenUp => pure none

/-- Executes the cursor and reads it from the first row to the last; none if the scan is given
up. -/
def fetchAll (B : Backend σ γ) (params : Params) :
    Run (Cursor σ γ) (Option (List (List Value))) := do
  execute params
  match ← first B with
  | .row => drain B (← rowBound B)
  | .ended => pure (some [])
  | .givenUp => pure none

end Cursor

/-- The rows of a statement, with what the providers share after it. -/
def query (B : Backend σ γ) (registry : Registry) (settings : Settings) (text : String)
    (params : Params) (world : γ) : Except Error (Option (List (List Value))) × γ :=
  match Cursor.prepare B registry settings text world with
  | .error (e, world) => (.error e, world)
  | .ok cursor =>
    let run := do
      let rows ← attempt (Cursor.fetchAll B params)
      let closed ← attempt (Cursor.close B)
      let rows ← relay rows
      relay closed
      pure rows
    match run cursor with
    | .ok rows cursor => (.ok rows, cursor.release B)
    | .error e cursor => (.error e, cursor.release B)

end SelectEngine
