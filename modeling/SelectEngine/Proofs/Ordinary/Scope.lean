import SelectEngine.Proofs.Memory.Prepare
import SelectEngine.Proofs.Ordinary.Expression

/-!
# Names in scope are found or fail ordinarily

Over as many tables as sources, every name in scope is found to mean a column of the tables, or is
refused because of what it names (`Scope.ordinarily_column`). A source that is found is one of the
tables, and so are all columns that are listed.
-/

set_option autoImplicit false

namespace SelectEngine

open Memory

/-- A source that a qualifier means is one of the sources. -/
theorem SourceName.ordinarily_find (sources : List SourceName) (qualifier : List String) :
    Ordinarily (SourceName.find sources qualifier) fun i => i < sources.length := by
  have hposition {p : SourceName → Bool} {i : Nat} (h : sources.findIdx? p = some i) :
      i < sources.length := by
    obtain ⟨hlt, -⟩ := List.findIdx?_eq_some_iff_getElem.mp h
    exact hlt
  unfold SourceName.find
  dsimp only
  split
  · next i hfound =>
    split at hfound
    · exact hposition hfound
    · obtain ⟨wanted, -, hwanted⟩ := Option.bind_eq_some_iff.mp hfound
      exact hposition hwanted
  · trivial

namespace Scope

variable {names : List SourceName} {tables : List Table} {source position : Nat}

/-! ## Answers of the tables -/

theorem tableAt_of_lt (h : source < tables.length) :
    ∃ table, tables[source]? = some table ∧ tableAt tables source = .ok table := by
  have htable := List.getElem?_eq_getElem h
  refine ⟨tables[source], htable, ?_⟩
  rw [tableAt, htable]

theorem ordinarily_columnCount (h : source < tables.length) :
    Ordinarily ((ofTables names tables).columnCount source) fun count =>
      ∀ position < count, HasColumn tables source position := by
  obtain ⟨table, htable, hat⟩ := tableAt_of_lt h
  simp only [ofTables, hat, Outcome.ok_bind]
  intro position hposition
  exact ⟨table, htable, hposition⟩

theorem ordinarily_columnId? (h : source < tables.length) (name : String) :
    Ordinarily ((ofTables names tables).columnId? source name) fun found =>
      ∀ position ∈ found, HasColumn tables source position := by
  obtain ⟨table, htable, hat⟩ := tableAt_of_lt h
  simp only [ofTables, hat, Outcome.ok_bind]
  intro position hposition
  obtain ⟨hlt, -⟩ := List.findIdx?_eq_some_iff_getElem.mp hposition
  exact ⟨table, htable, hlt⟩

theorem ordinarily_describe (h : HasColumn tables source position) :
    Ordinarily ((ofTables names tables).describe source position) fun _ => True := by
  obtain ⟨table, htable, hposition⟩ := h
  simp only [ofTables, tableAt, htable, Outcome.ok_bind, List.getElem?_eq_getElem hposition]
  trivial

/-! ## Sources of a column -/

theorem ordinarily_firstWith (name : String) {sources : List Nat}
    (h : ∀ i ∈ sources, i < tables.length) :
    Ordinarily ((ofTables names tables).firstWith name sources) fun found =>
      ∀ first ∈ found, first.1 < tables.length ∧ ∀ i ∈ first.2, i < tables.length := by
  induction sources with
  | nil => exact (nofun : ∀ first ∈ none, _)
  | cons i rest ih =>
    obtain ⟨hi, hrest⟩ := List.forall_mem_cons.mp h
    rw [firstWith]
    apply ordinarily_bind (ordinarily_columnId? hi name)
    intro found _
    cases found with
    | none => exact ih hrest
    | some position =>
      intro first hfirst
      cases hfirst
      exact ⟨hi, hrest⟩

theorem ordinarily_sourceWith (hlength : names.length = tables.length) (name : String) :
    Ordinarily ((ofTables names tables).sourceWith name) fun i => i < tables.length := by
  have hall : ∀ i ∈ List.range names.length, i < tables.length := by
    intro i hi
    rw [← hlength]
    exact List.mem_range.mp hi
  rw [sourceWith]
  apply ordinarily_bind (ordinarily_firstWith name hall)
  intro found hfound
  cases found with
  | none => exact ordinarily_error trivial
  | some first =>
    obtain ⟨i, rest⟩ := first
    obtain ⟨hi, hrest⟩ := hfound (i, rest) rfl
    apply ordinarily_bind (ordinarily_firstWith name hrest)
    intro second _
    cases second with
    | none => exact ordinarily_ok hi
    | some other => exact ordinarily_error trivial

/-! ## Columns -/

theorem ordinarily_columnIn (h : source < tables.length) (name shown : String) :
    Ordinarily ((ofTables names tables).columnIn source name shown) fun ref =>
      ref.Within tables := by
  rw [columnIn]
  apply ordinarily_bind (ordinarily_columnId? h name)
  intro found hfound
  cases found with
  | none => exact ordinarily_error trivial
  | some position =>
    have hcolumn := hfound position rfl
    apply ordinarily_bind (ordinarily_describe hcolumn)
    intro column _
    exact ordinarily_ok hcolumn

/-- The parts of a name, of which there is one at least, mean a column of the tables. -/
theorem ordinarily_column (hlength : names.length = tables.length) {parts : List String}
    (hparts : parts ≠ []) :
    Ordinarily ((ofTables names tables).column parts) fun ref => ref.Within tables := by
  have located (source : Nat) (h : source < tables.length) (name : String) :
      Ordinarily ((ofTables names tables).columnIn source name (".".intercalate parts)) fun ref =>
        ref.Within tables :=
    ordinarily_columnIn h name _
  unfold column
  dsimp only
  rw [List.getLast?_eq_getLast_of_ne_nil hparts]
  dsimp only
  cases parts.dropLast with
  | nil =>
    exact ordinarily_bind (ordinarily_sourceWith hlength _) fun source h => located source h _
  | cons part more =>
    dsimp only
    split
    · exact ordinarily_error trivial
    · have hfind := SourceName.ordinarily_find names (part :: more)
      rw [hlength] at hfind
      exact ordinarily_bind (ordinarily_relay hfind) fun source h => located source h _

theorem ordinarily_columnsAt {positions : List Nat}
    (h : ∀ position ∈ positions, HasColumn tables source position) :
    Ordinarily ((ofTables names tables).columnsAt source positions) fun refs =>
      ∀ ref ∈ refs, ref.Within tables := by
  induction positions with
  | nil => exact (nofun : ∀ ref ∈ [], _)
  | cons position rest ih =>
    obtain ⟨hposition, hrest⟩ := List.forall_mem_cons.mp h
    rw [columnsAt]
    apply ordinarily_bind (ordinarily_describe hposition)
    intro column _
    apply ordinarily_bind (ih hrest)
    intro refs hrefs
    exact ordinarily_ok (List.forall_mem_cons.mpr ⟨hposition, hrefs⟩)

theorem ordinarily_columnsOf (h : source < tables.length) :
    Ordinarily ((ofTables names tables).columnsOf source) fun refs =>
      ∀ ref ∈ refs, ref.Within tables := by
  rw [columnsOf]
  apply ordinarily_bind (ordinarily_columnCount h)
  intro count hcount
  apply ordinarily_columnsAt
  intro position hposition
  exact hcount position (List.mem_range.mp hposition)

theorem ordinarily_columnsOfAll {sources : List Nat} (h : ∀ i ∈ sources, i < tables.length) :
    Ordinarily ((ofTables names tables).columnsOfAll sources) fun refs =>
      ∀ ref ∈ refs, ref.Within tables := by
  induction sources with
  | nil => exact (nofun : ∀ ref ∈ [], _)
  | cons source rest ih =>
    obtain ⟨hsource, hrest⟩ := List.forall_mem_cons.mp h
    rw [columnsOfAll]
    apply ordinarily_bind (ordinarily_columnsOf hsource)
    intro columns hcolumns
    apply ordinarily_bind (ih hrest)
    intro more hmore
    exact ordinarily_ok (List.forall_mem_append.mpr ⟨hcolumns, hmore⟩)

end Scope

end SelectEngine
