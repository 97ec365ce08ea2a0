import SelectEngine.Plan.Scope
import SelectEngine.Source

/-!
# Sessions

A session holds the sources of one statement in FROM order with what their providers share. Sources
are opened one after the other, each behind those that are open, and closed in the same order.

The sources stand on one row each; together these are a combined row. `Session.start` goes to the
first combined row and `Session.forward` to the next one, the last source moving fastest: a source
that has run out starts again while the one before it moves on.
-/

set_option autoImplicit false

namespace SelectEngine

variable {σ γ α : Type}

/-- The sources of a statement in FROM order, and what their providers share. -/
structure Session (σ γ : Type) where
  sources : List (Source σ)
  world : γ

namespace Session

/-- Runs a computation on the source of a number. -/
def at_ (i : Nat) (x : Run (Source σ × γ) α) : Run (Session σ γ) α := fun session =>
  match session.sources[i]? with
  | none => .error (.internal s!"field bound to missing source {i}") session
  | some source =>
    match x (source, session.world) with
    | .ok a (source, world) => .ok a ⟨session.sources.set i source, world⟩
    | .error e (source, world) => .error e ⟨session.sources.set i source, world⟩

/-- Creates and opens the provider of a source and puts it behind the others. One that does not open
is dropped. -/
def openSource (B : Backend σ γ) (name : SourceName) : Run (Session σ γ) Unit := fun session =>
  match B.create name.table session.world with
  | (.error e, world) => .error e { session with world }
  | (.ok provider, world) =>
    match Source.openTable B (Source.closed name.aliasName name.table provider, world) with
    | .ok () (source, world) => .ok () ⟨session.sources ++ [source], world⟩
    | .error e (_, world) => .error e { session with world }

/-- Opens several sources in order. -/
def openAll (B : Backend σ γ) : List SourceName → Run (Session σ γ) Unit
  | [] => pure ()
  | name :: rest => do
    openSource B name
    openAll B rest

/-- The names in scope, answered by the sources that are open. -/
def scope (B : Backend σ γ) (names : List SourceName) : Scope (Run (Session σ γ)) where
  sources := names
  columnCount i := at_ i (Source.columnCount B)
  columnId? i name := at_ i (Source.columnId? B name)
  describe i position := at_ i (Source.describe B position)

/-- The number of sources. -/
def count : Run (Session σ γ) Nat := do
  let session ← get
  pure session.sources.length

/-- Closes the given sources in order, each whether or not one before it failed; answers with the
first failure. -/
def closeEach (B : Backend σ γ) : List Nat → Run (Session σ γ) (Option Error)
  | [] => pure none
  | i :: rest => do
    let outcome ← attempt (at_ i (Source.close B))
    let later ← closeEach B rest
    match outcome with
    | .ok () => pure later
    | .error e => pure (some e)

/-- Closes all sources in FROM order and fails with the first failure. -/
def closeAll (B : Backend σ γ) : Run (Session σ γ) Unit := do
  let n ← count
  match ← closeEach B (List.range n) with
  | none => pure ()
  | some e => throw e

/-- Closes all sources and drops them; a failure to close is forgotten. -/
def release (B : Backend σ γ) (session : Session σ γ) : Session σ γ :=
  match closeAll B session with
  | .ok _ session | .error _ session => { session with sources := [] }

/-! ## Combined rows -/

/-- Takes each of the given sources to its first row, in order. -/
def firstEach (B : Backend σ γ) : List Nat → Run (Session σ γ) Unit
  | [] => pure ()
  | i :: rest => do
    at_ i (Source.first B)
    firstEach B rest

/-- One of the given sources has passed its last row; those behind it are not asked. -/
def anyEof (B : Backend σ γ) : List Nat → Run (Session σ γ) Bool
  | [] => pure false
  | i :: rest => do
    if ← at_ i (Source.eof B) then pure true else anyEof B rest

/-- Goes to the first combined row, if every source has a row. -/
def start (B : Backend σ γ) : Run (Session σ γ) Bool := do
  let n ← count
  firstEach B (List.range n)
  let empty ← anyEof B (List.range n)
  pure !empty

/-- Goes to the next combined row of the first `n` sources, if there is one. -/
def forwardWithin (B : Backend σ γ) : (n : Nat) → Run (Session σ γ) Bool
  | 0 => pure false
  | i + 1 => do
    at_ i (Source.next B)
    if !(← at_ i (Source.eof B)) then pure true
    else if i = 0 then pure false
    else do
      at_ i (Source.reset B)
      if ← at_ i (Source.eof B) then pure false else forwardWithin B i

/-- Goes to the next combined row, if there is one. -/
def forward (B : Backend σ γ) : Run (Session σ γ) Bool := do
  let n ← count
  forwardWithin B n

end Session

end SelectEngine
