import SelectEngine.Proofs.Alike.Names
import SelectEngine.Proofs.Plan.Aliases

/-!
# What a name denotes

A name of one part denotes a column of the one source that has a column of this name, and is
refused if none has or several have. A name of two parts denotes a column of the source with the
alias in front, and is refused if there is no such source or it has no such column. Of the columns
of a source the first of the name is meant. `Scope.column_eq_iff` says that this is what the lookup
finds, for any number of sources with distinct aliases.
-/

set_option autoImplicit false

namespace SelectEngine

open Memory

/-! ## Columns of a table -/

namespace Memory.Table

variable {t : Table} {name : String} {position : Nat} {column : Column}

/-- The table has a column of the name, up to letter case. -/
def Has (t : Table) (name : String) : Prop :=
  ∃ column ∈ t.columns, Text.sameName column.name name = true

/-- The column is the first of the name in the table. -/
structure First (t : Table) (name : String) (position : Nat) (column : Column) : Prop where
  found : t.columns[position]? = some column
  same : Text.sameName column.name name = true
  before : ∀ m < position, ∀ other, t.columns[m]? = some other →
    Text.sameName other.name name = false

theorem First.has (h : t.First name position column) : t.Has name :=
  ⟨column, List.mem_of_getElem? h.found, h.same⟩

theorem columnId?_eq_none_iff : t.columnId? name = none ↔ ¬t.Has name := by
  rw [columnId?, List.findIdx?_eq_none_iff, Has]
  constructor
  · rintro hnone ⟨column, hcolumn, hsame⟩
    rw [hnone column hcolumn] at hsame
    cases hsame
  · intro hnot column hcolumn
    exact eq_false_of_ne_true fun hsame => hnot ⟨column, hcolumn, hsame⟩

theorem First.columnId? (h : t.First name position column) : t.columnId? name = some position := by
  obtain ⟨hlt, hget⟩ := List.getElem?_eq_some_iff.mp h.found
  rw [Table.columnId?, List.findIdx?_eq_some_iff_getElem]
  refine ⟨hlt, ?_, fun m hm => ?_⟩
  · rw [hget]
    exact h.same
  · have hother := h.before m hm _ (List.getElem?_eq_getElem (hm.trans hlt))
    rw [hother]
    exact Bool.false_ne_true

theorem Has.exists_first (h : t.Has name) : ∃ position column, t.First name position column := by
  cases hfound : t.columnId? name with
  | none => exact absurd h (columnId?_eq_none_iff.mp hfound)
  | some position =>
    obtain ⟨hlt, hsame, hbefore⟩ := List.findIdx?_eq_some_iff_getElem.mp hfound
    refine ⟨position, t.columns[position], List.getElem?_eq_getElem hlt, hsame, ?_⟩
    intro m hm other hother
    obtain ⟨_, rfl⟩ := List.getElem?_eq_some_iff.mp hother
    exact eq_false_of_ne_true (hbefore m hm)

end Memory.Table

/-! ## What a name denotes -/

/-- What a name of one or two parts denotes among sources and their tables, or why it denotes
nothing. -/
inductive Denotes (sources : List SourceName) (tables : List Table) :
    List String → Except Error ColumnRef → Prop
  /-- The one source that has a column of the name has it. -/
  | column {name : String} {source position : Nat} {table : Table} {column : Column}
      (htable : tables[source]? = some table) (hcolumn : table.First name position column)
      (honly : ∀ (i : Nat) (t : Table), tables[i]? = some t → t.Has name → i = source) :
      Denotes sources tables [name] (.ok ⟨source, position, column⟩)
  | noColumn {name : String} (hnone : ∀ t ∈ tables, ¬t.Has name) :
      Denotes sources tables [name] (.error (.noSuchColumn name))
  | ambiguous {name : String} {i j : Nat} {t u : Table} (hi : tables[i]? = some t)
      (ht : t.Has name) (hj : tables[j]? = some u) (hu : u.Has name) (hne : i ≠ j) :
      Denotes sources tables [name] (.error (.ambiguousColumn name))
  /-- The source with the alias has a column of the name. -/
  | qualified {aliasName name : String} {source position : Nat} {s : SourceName} {table : Table}
      {column : Column} (hsource : sources[source]? = some s)
      (hsame : Text.sameName s.aliasName aliasName = true) (htable : tables[source]? = some table)
      (hcolumn : table.First name position column) :
      Denotes sources tables [aliasName, name] (.ok ⟨source, position, column⟩)
  | noSource {aliasName name : String}
      (hnone : ∀ s ∈ sources, Text.sameName s.aliasName aliasName = false) :
      Denotes sources tables [aliasName, name] (.error (.noSuchSource aliasName))
  | lacks {aliasName name : String} {source : Nat} {s : SourceName} {table : Table}
      (hsource : sources[source]? = some s) (hsame : Text.sameName s.aliasName aliasName = true)
      (htable : tables[source]? = some table) (hlacks : ¬table.Has name) :
      Denotes sources tables [aliasName, name] (.error (.noSuchColumn s!"{aliasName}.{name}"))

namespace Scope

variable {sources : List SourceName} {tables : List Table} {name shown : String}
variable {source position : Nat} {table : Table} {column : Column}

/-! ## Answers of the tables -/

theorem columnId?_ofTables (h : tables[source]? = some table) (name : String) :
    (ofTables sources tables).columnId? source name = .ok (table.columnId? name) := by
  simp only [ofTables, tableAt, h, Outcome.ok_bind]

theorem columnIn_of_first (htable : tables[source]? = some table)
    (h : table.First name position column) :
    (ofTables sources tables).columnIn source name shown = .ok ⟨source, position, column⟩ := by
  have hdescribe : (ofTables sources tables).describe source position = .ok column := by
    simp only [ofTables, tableAt, htable, Outcome.ok_bind, h.found]
  rw [columnIn, columnId?_ofTables htable, h.columnId?, Outcome.ok_bind]
  dsimp only
  rw [hdescribe]
  rfl

theorem columnIn_of_lacks (htable : tables[source]? = some table) (h : ¬table.Has name) :
    (ofTables sources tables).columnIn source name shown = .error (.noSuchColumn shown) := by
  rw [columnIn, columnId?_ofTables htable, Table.columnId?_eq_none_iff.mpr h]
  rfl

/-! ## The source of a column -/

/-- The source of this number has a column of the name. -/
def HasAt (tables : List Table) (name : String) (i : Nat) : Prop :=
  ∃ t, tables[i]? = some t ∧ t.Has name

/-- Sources without such a column are passed by. -/
theorem firstWith_append {front rest : List Nat}
    (hfront : ∀ i ∈ front, i < tables.length ∧ ¬HasAt tables name i) :
    (ofTables sources tables).firstWith name (front ++ rest) =
      (ofTables sources tables).firstWith name rest := by
  induction front with
  | nil => rfl
  | cons i front ih =>
    obtain ⟨⟨hlt, hlacks⟩, hothers⟩ := List.forall_mem_cons.mp hfront
    have htable : tables[i]? = some tables[i] := List.getElem?_eq_getElem hlt
    have hnone : tables[i].columnId? name = none :=
      Table.columnId?_eq_none_iff.mpr fun h => hlacks ⟨_, htable, h⟩
    rw [List.cons_append, firstWith, columnId?_ofTables htable, hnone]
    exact ih hothers

theorem firstWith_of_lacks {is : List Nat}
    (h : ∀ i ∈ is, i < tables.length ∧ ¬HasAt tables name i) :
    (ofTables sources tables).firstWith name is = .ok none := by
  have happend : (ofTables sources tables).firstWith name (is ++ []) =
      (ofTables sources tables).firstWith name [] := firstWith_append h
  rw [List.append_nil] at happend
  exact happend

theorem firstWith_of_has {i : Nat} {rest : List Nat} (h : HasAt tables name i) :
    (ofTables sources tables).firstWith name (i :: rest) = .ok (some (i, rest)) := by
  obtain ⟨t, htable, hhas⟩ := h
  obtain ⟨position, column, hfirst⟩ := hhas.exists_first
  rw [firstWith, columnId?_ofTables htable, hfirst.columnId?]
  rfl

/-- Sources some of which have such a column are passed by up to the first that has. -/
theorem exists_firstWith (sources : List SourceName) {is : List Nat}
    (hlt : ∀ i ∈ is, i < tables.length) {i : Nat} (hi : i ∈ is) (h : HasAt tables name i) :
    ∃ front first rest, is = front ++ first :: rest ∧ HasAt tables name first ∧
      (∀ j ∈ front, ¬HasAt tables name j) ∧
      (ofTables sources tables).firstWith name is = .ok (some (first, rest)) := by
  induction is with
  | nil => cases hi
  | cons j is ih =>
    obtain ⟨hj, hothers⟩ := List.forall_mem_cons.mp hlt
    by_cases hhas : HasAt tables name j
    · exact ⟨[], j, is, rfl, hhas, nofun, firstWith_of_has hhas⟩
    · have hmem : i ∈ is := by
        rcases List.mem_cons.mp hi with rfl | hmem
        · exact absurd h hhas
        · exact hmem
      obtain ⟨front, first, rest, rfl, hfirst, hfront, hrun⟩ := ih hothers hmem
      have hpass : (ofTables sources tables).firstWith name ([j] ++ (front ++ first :: rest)) =
          (ofTables sources tables).firstWith name (front ++ first :: rest) :=
        firstWith_append (List.forall_mem_singleton.mpr ⟨hj, hhas⟩)
      exact ⟨j :: front, first, rest, rfl, hfirst, List.forall_mem_cons.mpr ⟨hhas, hfront⟩,
        hpass.trans hrun⟩

theorem hasAt_lt {i : Nat} (h : HasAt tables name i) : i < tables.length := by
  obtain ⟨t, htable, -⟩ := h
  exact (List.getElem?_eq_some_iff.mp htable).1

theorem lt_of_mem_range (hlength : sources.length = tables.length) :
    ∀ i ∈ List.range sources.length, i < tables.length := by
  intro i hi
  rw [← hlength]
  exact List.mem_range.mp hi

theorem sourceWith_of_none (hlength : sources.length = tables.length)
    (h : ∀ t ∈ tables, ¬t.Has name) :
    (ofTables sources tables).sourceWith name = .error (.noSuchColumn name) := by
  have hrun : (ofTables sources tables).firstWith name (List.range sources.length) = .ok none := by
    refine firstWith_of_lacks fun i hi => ⟨lt_of_mem_range hlength i hi, ?_⟩
    rintro ⟨t, htable, hhas⟩
    exact h t (List.mem_of_getElem? htable) hhas
  rw [sourceWith]
  show ((ofTables sources tables).firstWith name (List.range sources.length) >>= _) = _
  rw [hrun]
  rfl

/-- The first source with such a column is found, and those behind it are searched for another. -/
theorem exists_sourceWith (hlength : sources.length = tables.length)
    (h : HasAt tables name source) :
    ∃ first rest, HasAt tables name first ∧
      (∀ i, HasAt tables name i → i ≠ first → i ∈ rest) ∧ first ∉ rest ∧
      (∀ i ∈ rest, i < tables.length) ∧
      (ofTables sources tables).sourceWith name =
        ((ofTables sources tables).firstWith name rest >>= fun second => match second with
          | none => .ok first
          | some _ => .error (.ambiguousColumn name)) := by
  have hrange : ∀ i, HasAt tables name i → i ∈ List.range sources.length := fun i hi =>
    List.mem_range.mpr (hlength ▸ hasAt_lt hi)
  obtain ⟨front, first, rest, hsplit, hfirst, hfront, hrun⟩ :=
    exists_firstWith sources (lt_of_mem_range hlength) (hrange source h) h
  have hnodup : (front ++ first :: rest).Nodup := hsplit ▸ List.nodup_range
  refine ⟨first, rest, hfirst, fun i hi hne => ?_, ?_, fun i hi => ?_, ?_⟩
  · have hmem := hrange i hi
    rw [hsplit] at hmem
    rcases List.mem_append.mp hmem with hmem | hmem
    · exact absurd hi (hfront i hmem)
    · exact (List.mem_cons.mp hmem).resolve_left hne
  · exact (List.nodup_cons.mp (List.nodup_append.mp hnodup).2.1).1
  · refine lt_of_mem_range hlength i ?_
    rw [hsplit]
    exact List.mem_append_right _ (List.mem_cons_of_mem _ hi)
  · rw [sourceWith]
    show ((ofTables sources tables).firstWith name (List.range sources.length) >>= _) = _
    rw [hrun]
    rfl

theorem sourceWith_of_one (hlength : sources.length = tables.length)
    (h : HasAt tables name source) (honly : ∀ i, HasAt tables name i → i = source) :
    (ofTables sources tables).sourceWith name = .ok source := by
  obtain ⟨first, rest, hfirst, -, hnot, hlt, hrun⟩ := exists_sourceWith hlength h
  obtain rfl := honly first hfirst
  rw [hrun, firstWith_of_lacks fun i hi => ⟨hlt i hi, ?_⟩]
  · rfl
  · intro hhas
    rw [honly i hhas] at hi
    exact hnot hi

theorem sourceWith_of_two (hlength : sources.length = tables.length) {i j : Nat}
    (hi : HasAt tables name i) (hj : HasAt tables name j) (hne : i ≠ j) :
    (ofTables sources tables).sourceWith name = .error (.ambiguousColumn name) := by
  obtain ⟨first, rest, -, hothers, -, hlt, hrun⟩ := exists_sourceWith hlength hi
  -- One of the two is not the first, and is found behind it.
  obtain ⟨k, hk, hkne⟩ : ∃ k, HasAt tables name k ∧ k ≠ first := by
    by_cases hsame : i = first
    · exact ⟨j, hj, fun h => hne (hsame.trans h.symm)⟩
    · exact ⟨i, hi, hsame⟩
  obtain ⟨-, second, others, -, -, -, hsecond⟩ :=
    exists_firstWith sources hlt (hothers k hk hkne) hk
  rw [hrun, hsecond]
  rfl

/-! ## The source of an alias -/

theorem position?_of_distinct {s : SourceName} {aliasName : String}
    (hdistinct : SourceName.Distinct sources) (hsource : sources[source]? = some s)
    (hsame : Text.sameName s.aliasName aliasName = true) :
    SourceName.position? sources aliasName = some source := by
  obtain ⟨hlt, rfl⟩ := List.getElem?_eq_some_iff.mp hsource
  rw [SourceName.position?, List.findIdx?_eq_some_iff_getElem]
  refine ⟨hlt, hsame, fun m hm hearlier => ?_⟩
  have hne := List.pairwise_iff_getElem.mp hdistinct m source (hm.trans hlt) hlt hm
  rw [Text.sameName_iff] at hsame hearlier
  have heq : Text.sameName sources[m].aliasName sources[source].aliasName = true :=
    (Text.sameName_iff _ _).mpr (hearlier.trans hsame.symm)
  rw [hne] at heq
  cases heq

theorem find_of_distinct {s : SourceName} {aliasName : String}
    (hdistinct : SourceName.Distinct sources) (hsource : sources[source]? = some s)
    (hsame : Text.sameName s.aliasName aliasName = true) :
    SourceName.find sources [aliasName] = .ok source := by
  rw [SourceName.find_alias, position?_of_distinct hdistinct hsource hsame]
  rfl

theorem find_of_none {aliasName : String}
    (h : ∀ s ∈ sources, Text.sameName s.aliasName aliasName = false) :
    SourceName.find sources [aliasName] = .error (.noSuchSource aliasName) := by
  have hnone : SourceName.position? sources aliasName = none := List.findIdx?_eq_none_iff.mpr h
  rw [SourceName.find_alias, hnone]
  rfl

/-! ## Names -/

theorem column_one (name : String) :
    (ofTables sources tables).column [name] =
      ((ofTables sources tables).sourceWith name >>= fun source =>
        (ofTables sources tables).columnIn source name name) := rfl

theorem column_two (aliasName name : String) :
    (ofTables sources tables).column [aliasName, name] =
      (SourceName.find sources [aliasName] >>= fun source =>
        (ofTables sources tables).columnIn source name s!"{aliasName}.{name}") := by
  have hshown : ".".intercalate [aliasName, name] = s!"{aliasName}.{name}" := rfl
  rw [← hshown, ← Outcome.relay_eq (SourceName.find sources [aliasName])]
  rfl

/-- A name that denotes something is found to mean it. -/
theorem column_of_denotes {parts : List String} {outcome : Except Error ColumnRef}
    (hdistinct : SourceName.Distinct sources) (hlength : sources.length = tables.length)
    (h : Denotes sources tables parts outcome) :
    (ofTables sources tables).column parts = outcome := by
  cases h with
  | @column name source position table column htable hcolumn honly =>
    have hsource : (ofTables sources tables).sourceWith name = .ok source :=
      sourceWith_of_one hlength ⟨table, htable, hcolumn.has⟩ fun i ⟨t, ht, hhas⟩ =>
        honly i t ht hhas
    rw [column_one, hsource]
    exact columnIn_of_first htable hcolumn
  | noColumn hnone =>
    rw [column_one, sourceWith_of_none hlength hnone]
    rfl
  | ambiguous hi ht hj hu hne =>
    rw [column_one, sourceWith_of_two hlength ⟨_, hi, ht⟩ ⟨_, hj, hu⟩ hne]
    rfl
  | qualified hsource hsame htable hcolumn =>
    rw [column_two, find_of_distinct hdistinct hsource hsame]
    exact columnIn_of_first htable hcolumn
  | noSource hnone =>
    rw [column_two, find_of_none hnone]
    rfl
  | lacks hsource hsame htable hlacks =>
    rw [column_two, find_of_distinct hdistinct hsource hsame]
    exact columnIn_of_lacks htable hlacks

/-- A name of one part denotes a column, or there are none or several of the name. -/
theorem exists_denotes_one (sources : List SourceName) (tables : List Table) (name : String) :
    ∃ outcome, Denotes sources tables [name] outcome := by
  by_cases hnone : ∃ i, HasAt tables name i
  · obtain ⟨source, table, htable, hhas⟩ := hnone
    obtain ⟨position, column, hcolumn⟩ := hhas.exists_first
    by_cases honly : ∀ (i : Nat) (t : Table), tables[i]? = some t → t.Has name → i = source
    · exact ⟨_, .column htable hcolumn honly⟩
    · push Not at honly
      obtain ⟨i, t, ht, hhas', hne⟩ := honly
      exact ⟨_, .ambiguous ht hhas' htable hhas hne⟩
  · refine ⟨_, .noColumn fun t ht hhas => ?_⟩
    obtain ⟨i, hi⟩ := List.getElem?_of_mem ht
    exact hnone ⟨i, t, hi, hhas⟩

/-- A name of two parts denotes a column of the source in front, or there is no such source or it
lacks the column. -/
theorem exists_denotes_two (hlength : sources.length = tables.length) (aliasName name : String) :
    ∃ outcome, Denotes sources tables [aliasName, name] outcome := by
  by_cases hsource : ∃ s ∈ sources, Text.sameName s.aliasName aliasName = true
  · obtain ⟨s, hs, hsame⟩ := hsource
    obtain ⟨source, hget⟩ := List.getElem?_of_mem hs
    have hlt : source < tables.length := hlength ▸ (List.getElem?_eq_some_iff.mp hget).1
    have htable : tables[source]? = some tables[source] := List.getElem?_eq_getElem hlt
    by_cases hhas : tables[source].Has name
    · obtain ⟨position, column, hcolumn⟩ := hhas.exists_first
      exact ⟨_, .qualified hget hsame htable hcolumn⟩
    · exact ⟨_, .lacks hget hsame htable hhas⟩
  · exact ⟨_, .noSource fun s hs => eq_false_of_ne_true fun hsame => hsource ⟨s, hs, hsame⟩⟩

/-- Among sources with distinct aliases the lookup of a name of one or two parts finds what it
denotes. -/
theorem column_eq_iff {parts : List String} {outcome : Except Error ColumnRef}
    (hdistinct : SourceName.Distinct sources) (hlength : sources.length = tables.length)
    (hparts : parts.length = 1 ∨ parts.length = 2) :
    (ofTables sources tables).column parts = outcome ↔ Denotes sources tables parts outcome := by
  refine ⟨?_, column_of_denotes hdistinct hlength⟩
  rintro rfl
  obtain ⟨outcome, hdenotes⟩ : ∃ outcome, Denotes sources tables parts outcome := by
    rcases hparts with hone | htwo
    · obtain ⟨name, rfl⟩ := List.length_eq_one_iff.mp hone
      exact exists_denotes_one sources tables name
    · obtain ⟨aliasName, name, rfl⟩ := List.length_eq_two.mp htwo
      exact exists_denotes_two hlength aliasName name
  rw [column_of_denotes hdistinct hlength hdenotes]
  exact hdenotes

end Scope

end SelectEngine
