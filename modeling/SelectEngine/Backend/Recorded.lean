import SelectEngine.Backend

/-!
# Recorded backends

`Backend.recorded` passes every call on to another backend and keeps a record of it. A list of
faults makes chosen calls fail on purpose: such a call is recorded and goes no further.
-/

set_option autoImplicit false

namespace SelectEngine

variable {σ γ : Type}

namespace Call

/-- The name of the operation that a call asks for. -/
def method : Call → String
  | openTable .. => "open"
  | first => "first"
  | next => "next"
  | close => "close"
  | eof => "eof"
  | columnCount => "column_count"
  | columnId _ => "column_id"
  | column _ => "column"
  | describe _ => "describe"

/-- The operands of a call in a record; none for a call that only looks. -/
def operands? : Call → Option String
  | openTable mode name =>
    let purpose := match mode with
      | .read => "Read"
      | .write => "Write"
    let schema := name.schema.getD "-"
    let catalog := name.catalog.getD "-"
    some s!" {purpose} {name.table} {schema} {catalog}"
  | first | next | close => some ""
  | column position | describe position => some s!" {position}"
  | eof | columnCount | columnId _ => none

end Call

/-- A call to the provider of a table. -/
structure Recorded where
  table : String
  call : Call
deriving DecidableEq

/-- The line of a call in a record; none for a call that only looks. -/
def Recorded.text? (r : Recorded) : Option String :=
  r.call.operands?.map fun operands => s!"{r.table} {r.call.method}{operands}"

/-- A failure on purpose of the providers of a table. -/
inductive Fault where
  /-- No provider is created. -/
  | create (table : String)
  /-- The call of this name and turn fails; turns count from one for each provider. -/
  | refuse (table method : String) (turn : Nat)
  /-- After so many calls to open it, a provider is past its last row. -/
  | vanish (table : String) (opens : Nat)
deriving DecidableEq

/-- A provider under record, with the names of the calls made to it so far. -/
structure Recorder (σ : Type) where
  table : String
  provider : σ
  made : List String

/-- What providers under record share: the calls to all of them, the latest first. -/
structure Recording (γ : Type) where
  world : γ
  calls : List Recorded

namespace Recorder

/-- Records a call and passes it on. -/
def pass (B : Backend σ γ) (call : Call) (r : Recorder σ) (w : Recording γ) :
    call.Answer × Recorder σ × Recording γ :=
  let (a, provider, world) := B.answer call r.provider w.world
  (a, { r with provider, made := call.method :: r.made }, ⟨world, ⟨r.table, call⟩ :: w.calls⟩)

/-- It is the turn of a fault to make the next call of a name fail. -/
def refused (faults : List Fault) (method : String) (r : Recorder σ) : Bool :=
  faults.any fun
    | .refuse table name turn =>
      table == r.table && name == method && turn == r.made.count method + 1
    | _ => false

/-- Records a call and passes it on, unless a fault makes it fail. -/
def tryPass (B : Backend σ γ) (faults : List Fault) (call : Call) (fail : Error → call.Answer)
    (r : Recorder σ) (w : Recording γ) : call.Answer × Recorder σ × Recording γ :=
  if r.refused faults call.method then
    (fail (.provider s!"injected {call.method} on {r.table}"),
      { r with made := call.method :: r.made }, { w with calls := ⟨r.table, call⟩ :: w.calls })
  else r.pass B call w

/-- A fault holds the provider past its last row. -/
def vanished (faults : List Fault) (r : Recorder σ) : Bool :=
  faults.any fun
    | .vanish table opens => table == r.table && decide (opens ≤ r.made.count "open")
    | _ => false

/-- The answer to a call. -/
def answer (B : Backend σ γ) (faults : List Fault) :
    (call : Call) → Recorder σ → Recording γ → call.Answer × Recorder σ × Recording γ
  | .openTable mode name, r, w => r.tryPass B faults (.openTable mode name) .error w
  | .first, r, w => r.tryPass B faults .first .error w
  | .next, r, w => r.tryPass B faults .next .error w
  | .close, r, w => r.tryPass B faults .close .error w
  | .eof, r, w =>
    let (a, after, w) := r.pass B .eof w
    (a || r.vanished faults, after, w)
  | .columnCount, r, w => r.pass B .columnCount w
  | .columnId name, r, w => r.pass B (.columnId name) w
  | .column position, r, w => r.tryPass B faults (.column position) .error w
  | .describe position, r, w => r.tryPass B faults (.describe position) .error w

end Recorder

/-- The backend that keeps a record of the calls to another one. -/
def Backend.recorded (B : Backend σ γ) (faults : List Fault) :
    Backend (Recorder σ) (Recording γ) where
  create name w :=
    if Fault.create name.table ∈ faults then
      (.error (.provider s!"injected create on {name.text}"), w)
    else
      match B.create name w.world with
      | (.ok provider, world) => (.ok ⟨name.table, provider, []⟩, { w with world })
      | (.error e, world) => (.error e, { w with world })
  answer := Recorder.answer B faults
  rowLimit := B.rowLimit

end SelectEngine
