import SelectEngine.Proofs.Memory.Descriptor
import SelectEngine.Proofs.Plan.Listing

/-!
# Statements over tables in memory

A statement over sources with distinct aliases that have tables in memory is `Sourced`. It is
prepared exactly if its SELECT list and its WHERE clause mean something over these tables, is else
refused for their failure (`Memory.Sourced.refused_iff`), and its plan means what they mean
(`Memory.Sourced.meaningOver_of_plan`). No other statement is prepared
(`Memory.Sourced.exists_of_prepare`).
-/

set_option autoImplicit false

namespace SelectEngine

open Memory

namespace Memory

variable {catalog : Catalog} {registry : Registry} {settings : Settings} {text : String}
variable {tree : Tree} {ts : List Token} {s : Statement (Fin tree.tokens.size)}
variable {sources : List SourceName} {tables : List Table} {m : Meaning}

/-- The tables are those that the sources name. -/
def Tabled (catalog : Catalog) (sources : List SourceName) (tables : List Table) : Prop :=
  List.Forall₂ (fun source table => catalog.lookup source.table = some table) sources tables

theorem tablesNamed_eq_ok_iff :
    tablesNamed catalog sources = .ok tables ↔ Tabled catalog sources tables := by
  constructor
  · intro h
    induction sources generalizing tables with
    | nil =>
      cases h
      exact .nil
    | cons source sources ih =>
      rw [tablesNamed] at h
      cases hfound : catalog.lookup source.table with
      | none =>
        rw [hfound] at h
        cases h
      | some table =>
        rw [hfound] at h
        obtain ⟨rest, hrest, h⟩ := Outcome.bind_eq_ok h
        cases h
        exact .cons hfound (ih hrest)
  · intro h
    induction h with
    | nil => rfl
    | cons hfound _ ih =>
      rw [tablesNamed, hfound]
      dsimp only
      rw [ih]
      rfl

/-- What the statement of a tree is bound against over these sources and tables. -/
def binderOf (tree : Tree) (s : Statement (Fin tree.tokens.size)) (sources : List SourceName)
    (tables : List Table) (registry : Registry) (settings : Settings) : Binder TokenId :=
  (s.map Fin.val).binder tree.word sources tables registry settings

/-- The text is a statement over sources of distinct aliases, which have these tables. -/
structure Sourced (catalog : Catalog) (settings : Settings) (text : String) (tree : Tree)
    (ts : List Token) (s : Statement (Fin tree.tokens.size)) (sources : List SourceName)
    (tables : List Table) : Prop where
  parsed : parse settings.reading text = .ok tree
  read : tree.ReadAs settings.reading text ts s
  names : List.Forall₂ (FromItem.Names tree.spelling) s.sources sources
  distinct : SourceName.Distinct sources
  tabled : Tabled catalog sources tables

/-- A text has a plan that means what its statement means. -/
theorem map_meaning_ofText (catalog : Catalog) (registry : Registry)
    (htree : parse settings.reading text = .ok tree)
    (hread : tree.ReadAs settings.reading text ts s) :
    (Plan.ofText catalog registry settings text).map Plan.meaning =
      (s.map Fin.val).meaning tree.word catalog registry settings := by
  rw [Plan.ofText, htree, Outcome.ok_bind]
  exact Plan.meaning_ofTree hread.holds hread.nodup_params catalog registry settings

theorem meaning_of_distinct (hnames : List.Forall₂ (FromItem.Names tree.spelling) s.sources sources)
    (hdistinct : SourceName.Distinct sources) :
    (s.map Fin.val).meaning tree.word catalog registry settings =
      (tablesNamed catalog sources >>= fun tables =>
        (s.map Fin.val).meaningOver (binderOf tree s sources tables registry settings) sources
          settings) := by
  have hregister : (s.map Fin.val).sources.foldlM (FromItem.register tree.word) [] = .ok sources :=
    Eq.trans (Statement.foldlM_register s.sources [] fun leaf _ _ => Tree.word_val leaf.2)
      (SourceName.foldlM_register_of_distinct hnames hdistinct)
  rw [Statement.meaning, hregister]
  rfl

/-- A statement is prepared, or it is refused as it is without a cursor. -/
theorem prepare_cases (catalog : Catalog) (registry : Registry) (settings : Settings)
    (text : String) :
    (∃ c plan places, Cursor.prepare (backend catalog) registry settings text () = .ok c ∧
        Plan.ofText catalog registry settings text = .ok plan ∧
        @Running catalog plan settings places c) ∨
      ∃ e, Cursor.prepare (backend catalog) registry settings text () = .error (e, ()) ∧
        Plan.ofText catalog registry settings text = .error e := by
  cases hplan : Plan.ofText catalog registry settings text with
  | error e => exact Or.inr ⟨e, prepare_of_error hplan, rfl⟩
  | ok plan =>
    obtain ⟨c, places, hprepare, -, hrunning⟩ := prepare_of_plan hplan
    exact Or.inl ⟨c, plan, places, hprepare, rfl, hrunning⟩

/-- A cursor that was prepared is running a plan of its text. -/
theorem exists_running_of_prepare {c : Cursor Scan Unit}
    (h : Cursor.prepare (backend catalog) registry settings text () = .ok c) :
    ∃ plan places, Plan.ofText catalog registry settings text = .ok plan ∧
      @Running catalog plan settings places c := by
  rcases prepare_cases catalog registry settings text with
    ⟨c', plan, places, hprepare, hplan, hrunning⟩ | ⟨e, hprepare, -⟩
  · obtain rfl : c' = c := Except.ok.inj (hprepare.symm.trans h)
    exact ⟨plan, places, hplan, hrunning⟩
  · cases hprepare.symm.trans h

namespace Sourced

theorem length (h : Sourced catalog settings text tree ts s sources tables) :
    sources.length = tables.length :=
  h.tabled.length_eq

theorem map_meaning (h : Sourced catalog settings text tree ts s sources tables) :
    (Plan.ofText catalog registry settings text).map Plan.meaning =
      (s.map Fin.val).meaningOver (binderOf tree s sources tables registry settings) sources
        settings := by
  rw [map_meaning_ofText catalog registry h.parsed h.read, meaning_of_distinct h.names h.distinct,
    tablesNamed_eq_ok_iff.mpr h.tabled, Outcome.ok_bind]

theorem meaningOver_of_plan (h : Sourced catalog settings text tree ts s sources tables)
    {plan : Plan} (hplan : Plan.ofText catalog registry settings text = .ok plan) :
    (s.map Fin.val).meaningOver (binderOf tree s sources tables registry settings) sources
      settings = .ok plan.meaning := by
  rw [← h.map_meaning, hplan]
  rfl

/-- A statement is refused for the failure of its SELECT list or its WHERE clause. -/
theorem refused_iff (h : Sourced catalog settings text tree ts s sources tables) (e : Error) :
    (s.map Fin.val).meaningOver (binderOf tree s sources tables registry settings) sources
        settings = .error e ↔
      Cursor.prepare (backend catalog) registry settings text () = .error (e, ()) := by
  rw [← h.map_meaning]
  rcases prepare_cases catalog registry settings text with
    ⟨c, plan, places, hprepare, hplan, -⟩ | ⟨e', hprepare, hplan⟩
  · rw [hprepare, hplan]
    exact ⟨nofun, nofun⟩
  · rw [hprepare, hplan]
    constructor
    · rintro ⟨⟩
      rfl
    · rintro ⟨⟩
      rfl

/-- The sources of a running cursor have the tables of the statement. -/
theorem tables_eq (h : Sourced catalog settings text tree ts s sources tables) {plan : Plan}
    {places : List (Place catalog)} {c : Cursor Scan Unit}
    (hplan : Plan.ofText catalog registry settings text = .ok plan)
    (hrunning : Running plan settings places c) :
    places.map Place.name = sources ∧ places.map Place.table = tables := by
  have hsources : plan.meaning.sources = sources :=
    (Statement.meaningOver_eq_ok (h.meaningOver_of_plan hplan)).1
  have hnames : places.map Place.name = sources := hrunning.names.trans hsources
  refine ⟨hnames, ?_⟩
  have hplaces := tablesNamed_places places
  rw [hnames, tablesNamed_eq_ok_iff.mpr h.tabled] at hplaces
  exact (Except.ok.inj hplaces).symm

/-- The sources of a statement that is prepared have tables. -/
theorem exists_of_distinct {c : Cursor Scan Unit} (htree : parse settings.reading text = .ok tree)
    (hread : tree.ReadAs settings.reading text ts s)
    (hnames : List.Forall₂ (FromItem.Names tree.spelling) s.sources sources)
    (hdistinct : SourceName.Distinct sources)
    (h : Cursor.prepare (backend catalog) registry settings text () = .ok c) :
    ∃ tables, Sourced catalog settings text tree ts s sources tables := by
  obtain ⟨plan, places, hplan, -⟩ := exists_running_of_prepare h
  have hmeaning := map_meaning_ofText catalog registry htree hread
  rw [hplan, meaning_of_distinct hnames hdistinct] at hmeaning
  obtain ⟨tables, htables, -⟩ := Outcome.bind_eq_ok hmeaning.symm
  exact ⟨tables, htree, hread, hnames, hdistinct, tablesNamed_eq_ok_iff.mp htables⟩

/-- A text that is prepared is a statement over sources with distinct aliases and with tables. -/
theorem exists_of_prepare {c : Cursor Scan Unit}
    (h : Cursor.prepare (backend catalog) registry settings text () = .ok c) :
    ∃ tree ts s sources tables, Sourced catalog settings text tree ts s sources tables := by
  obtain ⟨tree, plan, session, htree, -, -⟩ := Cursor.prepare_eq_ok h
  obtain ⟨ts, s, hread⟩ := Tree.exists_readAs_of_parse htree
  obtain ⟨sources, hnames⟩ :=
    FromItem.forall₂_names tree.spelling hread.holds.wellFormed.sources
  have hdistinct : SourceName.Distinct sources := by
    by_contra hnot
    obtain ⟨aliasName, -, hrefused⟩ :=
      Cursor.prepare_of_not_distinct registry htree hread.holds hnames hnot
    cases (hrefused _ _ (backend catalog) ()).symm.trans h
  obtain ⟨tables, hsourced⟩ := exists_of_distinct htree hread hnames hdistinct h
  exact ⟨tree, ts, s, sources, tables, hsourced⟩

end Sourced

/-- Two tables with a column of one name. -/
def overlapping : Catalog :=
  ⟨[(⟨none, none, "t"⟩, ⟨[.ofType "a" .integer, .ofType "b" .integer],
      [[.integer 1, .integer 2], [.integer 3, .integer 4]], by decide⟩),
    (⟨none, none, "u"⟩, ⟨[.ofType "B" .integer, .ofType "c" .integer],
      [[.integer 5, .integer 6]], by decide⟩)]⟩

end Memory

end SelectEngine
