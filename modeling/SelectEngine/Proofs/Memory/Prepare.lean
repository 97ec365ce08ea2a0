import SelectEngine.Proofs.Correspondence.Binding
import SelectEngine.Proofs.Memory.Running

/-!
# Preparing statements over tables in memory

What a statement means over tables in memory can be said of the tables alone (`Plan.ofText`). The
sources of a statement open at places (`openAll_apply`), and binding asks them for columns as it
would ask the tables (`scopes_atRest`), so that a cursor is prepared exactly if the statement has a
plan, and is then running that plan (`prepare_apply`).
-/

set_option autoImplicit false

namespace SelectEngine

open Memory

/-! ## Scopes of tables -/

/-- The table of a source. -/
def Memory.tableAt (tables : List Table) (source : Nat) : Except Error Table :=
  match tables[source]? with
  | some table => .ok table
  | none => .error (.internal s!"field bound to missing source {source}")

/-- The names in scope over tables at rest. -/
def Scope.ofTables (sources : List SourceName) (tables : List Table) : Scope (Except Error) where
  sources
  columnCount source := do
    let table ← tableAt tables source
    .ok table.columns.length
  columnId? source name := do
    let table ← tableAt tables source
    .ok (table.columnId? name)
  describe source position := do
    let table ← tableAt tables source
    match table.columns[position]? with
    | some column => .ok column
    | none => .error (.columnOutOfRange position table.columns.length)

/-- The tables that sources name, or the failure of the first that names none. -/
def Memory.tablesNamed (catalog : Catalog) : List SourceName → Except Error (List Table)
  | [] => .ok []
  | name :: rest =>
    match catalog.lookup name.table with
    | none => .error (.noSuchTable name.table.text)
    | some table => do
      let tables ← tablesNamed catalog rest
      .ok (table :: tables)

/-- The plan of a statement that has been read, over the tables of a catalog. -/
def Plan.ofTree (catalog : Catalog) (registry : Registry) (settings : Settings) (tree : Tree) :
    Except Error Plan := do
  let select ← Plan.statement tree
  let names ← Plan.sourceNames tree select
  let tables ← tablesNamed catalog names
  Plan.ofScope tree select (.ofTables names tables) registry settings

/-- The plan of a statement over the tables of a catalog. -/
def Plan.ofText (catalog : Catalog) (registry : Registry) (settings : Settings) (text : String) :
    Except Error Plan := do
  let tree ← parse settings.reading text
  Plan.ofTree catalog registry settings tree

/-- A plan has the sources of its scope. -/
theorem Plan.returns_ofScope {s : Type} (tree : Tree) (select : Branch) (scope : Scope (Run s))
    (registry : Registry) (settings : Settings) :
    Run.Returns (Plan.ofScope tree select scope registry settings) fun plan =>
      plan.sources = scope.sources := by
  refine Run.returns_bind (P := fun plan => plan.sources = scope.sources) ?_
    fun _ h => Run.returns_pure h
  refine Run.returns_bind (Run.returns_any _) fun attributes _ => ?_
  refine Run.returns_bind (Run.returns_any _) fun selected _ => ?_
  dsimp only
  split
  · refine Run.returns_bind (Run.returns_any _) fun _ _ => Run.returns_pure rfl
  · refine Run.returns_bind (Run.returns_any _) fun _ _ => ?_
    refine Run.returns_bind (Run.returns_any _) fun _ _ => Run.returns_pure rfl

namespace Memory

variable {catalog : Catalog}

/-- What a source answers without moving is what its table answers. -/
theorem at_table {α : Type} {x : Run (Source Scan × Unit) α} {f : Table → Except Error α}
    (places : List (Place catalog)) (i : Nat)
    (h : ∀ p : Place catalog, x (p.source, ()) = (relay (f p.table) : Run _ α) (p.source, ())) :
    (Correspondence.atRest (session places)).rel (Session.at_ i x)
      (tableAt (places.map Place.table) i >>= f) := by
  show Session.at_ i x (session places) = _
  rw [tableAt, List.getElem?_map]
  cases hp : places[i]? with
  | none =>
    have hnone : (session places).sources[i]? = none := by simp [session, hp]
    exact Session.at_apply_none hnone
  | some p =>
    have hsome : (session places).sources[i]? = some p.source := by simp [session, hp]
    exact Session.at_apply_relay hsome (h p)

/-- Open sources answer for the columns of their tables. -/
theorem scopes_atRest (names : List SourceName) (places : List (Place catalog)) :
    Correspondence.Scopes (Correspondence.atRest (session places))
      (Session.scope (backend catalog) names) (.ofTables names (places.map Place.table)) where
  sources := rfl
  columnCount i := at_table (x := Source.columnCount (backend catalog)) places i fun p => rfl
  columnId i name := at_table (x := Source.columnId? (backend catalog) name) places i fun p => rfl
  describe i position := at_table places i fun p => by
    simp only [Source.describe, Source.ask, Run.bind_apply]
    rfl

/-! ## Opening sources -/

theorem openSource_apply (front : List (Place catalog)) (name : SourceName) {table : Table}
    (h : catalog.lookup name.table = some table) :
    Session.openSource (backend catalog) name (session front) =
      .ok () (session (front ++ [⟨name, table, h, 0⟩])) := by
  have hopen : Source.openTable (backend catalog)
      (Source.closed name.aliasName name.table (Scan.closed catalog), ()) =
      .ok () ((⟨name, table, h, 0⟩ : Place catalog).source, ()) := by
    simp [Source.openTable, Source.ask, Run.bind_apply, backend, Scan.answer, Scan.openTable,
      Scan.closed, Source.closed, Place.source, h]
  have hcreate : (backend catalog).create name.table (session front).world =
      (.ok (Scan.closed catalog), ()) := rfl
  unfold Session.openSource
  rw [hcreate]
  dsimp only
  rw [hopen]
  simp [session]

theorem openSource_of_none (front : List (Place catalog)) (name : SourceName)
    (h : catalog.lookup name.table = none) :
    Session.openSource (backend catalog) name (session front) =
      .error (.noSuchTable name.table.text) (session front) := by
  simp [Session.openSource, Source.openTable, Source.ask, Run.bind_apply, backend, Scan.answer,
    Scan.openTable, Scan.closed, Source.closed, h]

/-- Sources open at the first rows of the tables that they name, one behind the other. -/
theorem openAll_apply (names : List SourceName) (front : List (Place catalog)) :
    ∃ back : List (Place catalog),
      Session.openAll (backend catalog) names (session front) =
        (relay ((tablesNamed catalog names).map fun _ => ()) : Run _ _)
          (session (front ++ back)) ∧
      ∀ tables, tablesNamed catalog names = .ok tables →
        back.map Place.name = names ∧ back.map Place.table = tables := by
  induction names generalizing front with
  | nil =>
    refine ⟨[], by rw [List.append_nil]; rfl, fun tables htables => ?_⟩
    cases htables
    exact ⟨rfl, rfl⟩
  | cons name rest ih =>
    rw [Session.openAll, tablesNamed]
    cases hname : catalog.lookup name.table with
    | none =>
      refine ⟨[], ?_, fun tables htables => ?_⟩
      · rw [Run.bind_of_error (openSource_of_none front name hname), List.append_nil]
        rfl
      · cases htables
    | some table =>
      -- The source that opens stands behind those in front when the others open.
      obtain ⟨back, hrun, hback⟩ := ih (front ++ [⟨name, table, hname, 0⟩])
      refine ⟨⟨name, table, hname, 0⟩ :: back, ?_, fun tables htables => ?_⟩
      · rw [Run.bind_of_ok (openSource_apply front name hname), hrun, List.append_assoc]
        cases tablesNamed catalog rest <;> rfl
      · cases hrest : tablesNamed catalog rest with
        | error e =>
          simp only [hrest] at htables
          cases htables
        | ok others =>
          simp only [hrest] at htables
          cases htables
          obtain ⟨hnames, htables⟩ := hback others hrest
          rw [List.map_cons, List.map_cons, hnames, htables]
          exact ⟨rfl, rfl⟩

/-! ## Prepared cursors -/

variable {registry : Registry} {settings : Settings}

/-- A statement binds as over the tables themselves. -/
theorem bind_apply (catalog : Catalog) (registry : Registry) (settings : Settings) (tree : Tree) :
    ∃ places : List (Place catalog),
      Session.bind (backend catalog) registry settings tree ⟨[], ()⟩ =
        (relay (Plan.ofTree catalog registry settings tree) : Run _ _) (session places) ∧
      ∀ plan, Plan.ofTree catalog registry settings tree = .ok plan →
        places.map Place.name = plan.sources := by
  rw [Session.bind, Plan.ofTree]
  cases Plan.statement tree with
  | error e => exact ⟨[], rfl, nofun⟩
  | ok select =>
    rw [Run.bind_of_ok (Run.relay_ok select _), Outcome.ok_bind]
    cases Plan.sourceNames tree select with
    | error e => exact ⟨[], rfl, nofun⟩
    | ok names =>
      rw [Run.bind_of_ok (Run.relay_ok names _), Outcome.ok_bind]
      obtain ⟨places, hopen, hplaces⟩ := openAll_apply names []
      have hstart : Session.openAll (backend catalog) names ⟨[], ()⟩ = _ := hopen
      cases htables : tablesNamed catalog names with
      | error e =>
        rw [htables] at hstart
        refine ⟨places, ?_, nofun⟩
        rw [Run.bind_of_error hstart]
        rfl
      | ok tables =>
        obtain ⟨rfl, rfl⟩ := hplaces tables htables
        rw [htables] at hstart
        -- Open sources answer as their tables do, so binding against them is binding against these.
        have hrest := Correspondence.ofScope (scopes_atRest (places.map Place.name) places) tree
          select registry settings
        refine ⟨places, ?_, fun plan hplan => ?_⟩
        · rw [Run.bind_of_ok hstart]
          exact hrest
        · rw [Outcome.ok_bind] at hplan
          have hlive := Eq.trans hrest (congrArg (fun y => (relay y : Run _ _) _) hplan)
          exact (Plan.returns_ofScope tree select _ registry settings _ _ _ hlive).symm

/-- A statement that has a plan is prepared, and the cursor is running that plan. -/
theorem prepare_of_plan {text : String} {plan : Plan}
    (h : Plan.ofText catalog registry settings text = .ok plan) :
    ∃ (c : Cursor Scan Unit) (places : List (Place catalog)),
      Cursor.prepare (backend catalog) registry settings text () = .ok c ∧
      c.state = .prepared ∧ Running plan settings places c := by
  obtain ⟨tree, htree, hplan⟩ := Outcome.bind_eq_ok h
  obtain ⟨places, hbind, hnames⟩ := bind_apply catalog registry settings tree
  rw [hplan] at hbind
  refine ⟨⟨some plan, session places, .empty, .prepared, settings, 0,
      Array.replicate plan.fields.length none⟩, places, ?_, rfl, rfl, rfl, rfl, hnames plan hplan,
      nofun, fun n g v hentry => ?_⟩
  · unfold Cursor.prepare
    rw [htree]
    dsimp only
    rw [Cursor.ofTree, hbind]
    rfl
  · rw [Array.getElem?_replicate] at hentry
    split at hentry <;> cases hentry

/-- A statement that has no plan is not prepared, for the same reason. -/
theorem prepare_of_error {text : String} {e : Error}
    (h : Plan.ofText catalog registry settings text = .error e) :
    Cursor.prepare (backend catalog) registry settings text () = .error (e, ()) := by
  unfold Cursor.prepare
  cases htree : parse settings.reading text with
  | error e' =>
    rw [Plan.ofText, htree] at h
    cases h
    rfl
  | ok tree =>
    rw [Plan.ofText, htree, Outcome.ok_bind] at h
    obtain ⟨places, hbind, -⟩ := bind_apply catalog registry settings tree
    rw [h] at hbind
    dsimp only
    rw [Cursor.ofTree, hbind]
    rfl

end Memory

end SelectEngine
