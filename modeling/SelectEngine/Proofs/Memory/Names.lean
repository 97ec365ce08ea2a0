import SelectEngine.Proofs.Memory.Sourced
import SelectEngine.Proofs.Plan.Listing
import SelectEngine.Proofs.Plan.Operand

/-!
# What names read over tables in memory

A statement over tables in memory is refused for an alias exactly if two sources of its FROM list
have the same alias, and over any backend such a statement is refused before anything is asked of
the backend. Else, where every source has its table, a name of one part or two stands for the column
that it denotes, in the SELECT list and inside expressions alike, and on every row this column is
read from the current row of its source (`Memory.names_resolve`).
-/

set_option autoImplicit false

namespace SelectEngine

open Memory

variable {τ : Type} {β : Binder τ}

/-- Outcomes with one image are the same if no two values have one. -/
theorem Outcome.map_inj {α γ : Type} {f : α → γ} (hf : ∀ a b, f a = f b → a = b)
    {x y : Except Error α} : x.map f = y.map f ↔ x = y := by
  refine ⟨fun heq => ?_, congrArg _⟩
  rcases map_eq_map heq with ⟨e, rfl, rfl⟩ | ⟨a, b, rfl, rfl, hsame⟩
  · rfl
  · rw [hf a b hsame]

/-! ## Operands -/

namespace Expr

theorem exists_getElem?_of_bindAll {depth i : Nat} {es : List (Expr τ)} {bs : List Bound}
    {e : Expr τ} (h : bindAll β depth es = .ok bs) (he : es[i]? = some e) :
    ∃ b, bs[i]? = some b ∧ e.bind β depth = .ok b := by
  induction es generalizing bs i with
  | nil => cases he
  | cons first es ih =>
    rw [bindAll] at h
    obtain ⟨b, hb, h⟩ := Outcome.bind_eq_ok h
    obtain ⟨rest, hrest, h⟩ := Outcome.bind_eq_ok h
    cases h
    cases i with
    | zero =>
      cases he
      exact ⟨b, rfl, hb⟩
    | succ i =>
      obtain ⟨found, hfound, hbind⟩ := ih hrest he
      exact ⟨found, hfound, hbind⟩

theorem exists_bindAll_operands {depth : Nat} {e : Expr τ} {b : Bound}
    (h : e.bind β depth = .ok b) : ∃ inner, bindAll β inner e.operands = .ok b.operands := by
  cases e with
  | text | number | null | param =>
    cases h
    exact ⟨depth, rfl⟩
  | name parts =>
    obtain ⟨ref, -, h⟩ := Outcome.bind_eq_ok h
    cases h
    exact ⟨depth, rfl⟩
  | call function args =>
    obtain ⟨f, -, h⟩ := Outcome.bind_eq_ok h
    obtain ⟨-, -, h⟩ := Outcome.bind_eq_ok h
    obtain ⟨es, hargs, h⟩ := Outcome.bind_eq_ok h
    cases h
    exact ⟨depth + 1, hargs⟩
  | unary op operand =>
    obtain ⟨-, -, h⟩ := Outcome.bind_eq_ok h
    obtain ⟨inner, hoperand, h⟩ := Outcome.bind_eq_ok h
    cases h
    refine ⟨depth + 1, ?_⟩
    simp only [operands, bindAll, hoperand, Outcome.ok_bind, Bound.operands]
  | binary op left right =>
    obtain ⟨-, -, h⟩ := Outcome.bind_eq_ok h
    obtain ⟨l, hleft, h⟩ := Outcome.bind_eq_ok h
    obtain ⟨r, hright, h⟩ := Outcome.bind_eq_ok h
    cases h
    refine ⟨depth + 1, ?_⟩
    simp only [operands, bindAll, hleft, hright, Outcome.ok_bind, Bound.operands]

/-- What an expression is bound to has at a path what the operand at the path is bound to. -/
theorem exists_at?_of_bind {path : List Nat} {depth : Nat} {e o : Expr τ} {b : Bound}
    (h : e.bind β depth = .ok b) (ho : e.at? path = some o) :
    ∃ operand inner, b.at? path = some operand ∧ o.bind β inner = .ok operand := by
  induction path generalizing e b depth with
  | nil =>
    cases ho
    exact ⟨b, depth, rfl, h⟩
  | cons i path ih =>
    rw [at?] at ho
    obtain ⟨e', he', hpath⟩ := Option.bind_eq_some_iff.mp ho
    obtain ⟨inner, hoperands⟩ := exists_bindAll_operands h
    obtain ⟨b', hb', hbind⟩ := exists_getElem?_of_bindAll hoperands he'
    rw [Bound.at?, hb']
    exact ih hbind hpath

/-- A name inside an expression is bound to the column of the same path. -/
theorem exists_column_of_bind {path : List Nat} {depth : Nat} {e : Expr τ} {parts : List τ}
    {b : Bound} (h : e.bind β depth = .ok b) (hname : e.at? path = some (.name parts)) :
    ∃ ref, b.at? path = some (.column ref) ∧ β.column parts = .ok ref := by
  obtain ⟨operand, inner, hoperand, hbind⟩ := exists_at?_of_bind h hname
  obtain ⟨ref, href, hbind⟩ := Outcome.bind_eq_ok hbind
  cases hbind
  exact ⟨ref, hoperand, href⟩

end Expr

/-- An expression of a plan: that of a column, or the condition. -/
def Meaning.Has (m : Meaning) (b : Bound) : Prop :=
  b ∈ m.outputs.map Output.expression ∨ m.condition = some b

/-- Every expression of a statement is bound to one of the expressions that it means. -/
theorem Statement.exists_bind_of_meaningOver {s : Statement τ} {sources : List SourceName}
    {tables : List Table} {settings : Settings} {m : Meaning}
    (hscope : β.scope = .ofTables sources tables) (hlength : sources.length = tables.length)
    (h : s.meaningOver β sources settings = .ok m) {e : Expr τ} (he : e ∈ s.expressions) :
    ∃ b, m.Has b ∧ e.bind β 0 = .ok b := by
  obtain ⟨-, ⟨generated, houtputs⟩, hcondition⟩ := meaningOver_eq_ok h
  rcases List.mem_append.mp he with hattribute | hrestriction
  · -- An attribute gives a group of the columns, in which the expression is that of the one column.
    obtain ⟨a, ha, hvalue⟩ := List.mem_filterMap.mp hattribute
    obtain ⟨k, hk⟩ := List.getElem?_of_mem ha
    obtain ⟨groups, hgroups, hgrouped⟩ :=
      Attribute.exists_groups_of_outputsAll hscope hlength houtputs
    obtain ⟨g, hg, hlists⟩ := hgrouped.lists k a hk
    cases a with
    | star | starOf => cases hvalue
    | value e' naming =>
      cases hvalue
      obtain ⟨o, rfl, hbind⟩ := hlists.bind
      have hmem : o ∈ groups.flatten :=
        List.mem_flatten.mpr ⟨[o], List.mem_of_getElem? hg, List.mem_singleton.mpr rfl⟩
      have houtput : o ∈ m.outputs := Eq.mpr (congrArg (o ∈ ·) hgroups) hmem
      exact ⟨o.expression, Or.inl (List.mem_map_of_mem houtput), hbind⟩
  · obtain ⟨r, hr, rfl⟩ := List.mem_map.mp hrestriction
    obtain ⟨b, hb, hbound⟩ := hcondition r (Option.mem_toList.mp hr)
    exact ⟨b, Or.inr hb, Expr.bind_of_condition hbound⟩

/-! ## Columns of the current row -/

theorem Denotes.describedBy {sources : List SourceName} {tables : List Table} {parts : List String}
    {ref : ColumnRef} (h : Denotes sources tables parts (.ok ref)) : ref.DescribedBy tables := by
  cases h with
  | column htable hcolumn _ => exact ⟨_, htable, hcolumn.found⟩
  | qualified _ _ htable hcolumn => exact ⟨_, htable, hcolumn.found⟩

namespace Memory

variable {catalog : Catalog} {registry : Registry} {settings : Settings} {text : String}
variable {tree : Tree} {ts : List Token} {s : Statement (Fin tree.tokens.size)}
variable {sources : List SourceName} {tables : List Table} {parts : List String} {ref : ColumnRef}
variable {plan : Plan} {places : List (Place catalog)} {c : Cursor Scan Unit}

/-- The source of this number has its table open and stands on this row of it. -/
structure OnRow (c : Cursor Scan Unit) (n : Nat) (source : Source Scan) (table : Table)
    (row : List Value) : Prop where
  found : c.session.sources[n]? = some source
  opened : source.provider.table = some table
  current : table.rows[source.provider.position]? = some row

/-- The value is that of the column in the current row of its source. -/
def Current (sources : List SourceName) (tables : List Table) (c : Cursor Scan Unit)
    (ref : ColumnRef) (v : Value) : Prop :=
  ∃ source table row, OnRow c ref.source source table row ∧
    sources[ref.source]? = some ⟨source.aliasName, source.name⟩ ∧
    tables[ref.source]? = some table ∧ table.columns[ref.position]? = some ref.column ∧
    row[ref.position]? = some v

/-- What a column reads: the value of the current row, inside expressions and as a column of the
result. -/
structure Reads (catalog : Catalog) (sources : List SourceName) (tables : List Table)
    (c : Cursor Scan Unit) (ref : ColumnRef) (v : Value) : Prop where
  current : Current sources tables c ref v
  inside : ∀ depth, (Bound.column ref).eval (c.environment (backend catalog)) depth c.session =
    .ok v c.session
  field : ∀ n o, output? c n = some o → o.expression = .column ref →
    (Cursor.column (backend catalog) n).outcome c = .ok v

/-- A column of the table of a source is read on every row. -/
theorem Running.exists_reads (h : Running plan settings places c) (hpos : c.state = .positioned)
    (hnames : places.map Place.name = sources) (htables : places.map Place.table = tables)
    (href : ref.DescribedBy tables) : ∃ v, Reads catalog sources tables c ref v := by
  obtain ⟨table, htable, hcolumn⟩ := href
  have hplace := htable
  rw [← htables, List.getElem?_map] at hplace
  obtain ⟨p, hp, rfl⟩ := Option.map_eq_some_iff.mp hplace
  have hin := h.inside hpos
  obtain ⟨row, hrow, hcurrent⟩ := exists_row hin hp
  -- A row is as wide as its table, so that it has a value where the table has a column.
  have hwidth : ref.position < row.length := by
    rw [p.table.width row (List.mem_of_getElem? hrow)]
    exact (List.getElem?_eq_some_iff.mp hcolumn).1
  have hvalue : row[ref.position]? = some row[ref.position] := List.getElem?_eq_getElem hwidth
  have hcell : columnOf (combination (entries places)) ref.source ref.position =
      .ok row[ref.position] := by
    rw [columnOf, hcurrent]
    dsimp only
    rw [cellOf, hvalue]
  refine ⟨row[ref.position], ?_, fun depth => ?_, fun n o houtput hexpression => ?_⟩
  · refine ⟨p.source, p.table, row, ⟨?_, rfl, hrow⟩, ?_, htable, hcolumn, hvalue⟩
    · rw [h.session_eq]
      exact List.getElem?_map.trans (congrArg (Option.map Place.source) hp)
    · rw [← hnames, List.getElem?_map, hp]
      rfl
  · have hread := atRest_column hin ref.source ref.position
    rw [hcell, ← h.session_eq] at hread
    exact hread
  · obtain ⟨field, hfield, rfl⟩ := Option.map_eq_some_iff.mp houtput
    rw [h.plan_eq, Option.bind_some] at hfield
    obtain ⟨cache, hrun, -⟩ := h.column hpos hfield
    have hmeant : field.expression = .column ref := hexpression
    rw [Run.outcome_relay hrun, Field.eval_expression, hmeant]
    exact hcell

/-! ## Names of statements -/

/-- Where a statement over these sources and tables is bound, its names stand for what they denote,
and on a row they read it. -/
structure Resolves (catalog : Catalog) (registry : Registry) (settings : Settings) (text : String)
    (s : Statement TokenId) (β : Binder TokenId) (sources : List SourceName)
    (tables : List Table) : Prop where
  /-- A name inside an expression is bound to the column that it denotes, or refused. -/
  inside : ∀ (depth : Nat) (parts : List TokenId) (outcome : Except Error ColumnRef),
    parts.length = 1 ∨ parts.length = 2 →
      ((Expr.name parts).bind β depth = outcome.map Bound.column ↔
        Denotes sources tables (parts.map β.word) outcome)
  /-- A name of the SELECT list gives the column that it denotes, or is refused. -/
  listed : ∀ (given : Option String) (generated : Nat) (parts : List TokenId)
    (outcome : Except Error ColumnRef), parts.length = 1 ∨ parts.length = 2 →
      ((Expr.name parts).outputs β settings given generated =
          outcome.map (fun ref => ([Output.data given ref], generated)) ↔
        Denotes sources tables (parts.map β.word) outcome)
  /-- The first failure of the SELECT list and the condition is the failure of the statement. -/
  refused : ∀ e, s.meaningOver β sources settings = .error e ↔
    Cursor.prepare (backend catalog) registry settings text () = .error (e, ())
  /-- The plan has at every place of a name the column that the name denotes. -/
  bound : ∀ c, Cursor.prepare (backend catalog) registry settings text () = .ok c →
    ∃ plan, c.plan = some plan ∧ ∀ e ∈ s.expressions, ∃ b, plan.meaning.Has b ∧
      ∀ path parts, e.at? path = some (.name parts) → parts.length = 1 ∨ parts.length = 2 →
        ∃ ref, b.at? path = some (.column ref) ∧
          Denotes sources tables (parts.map β.word) (.ok ref)
  /-- On every row the columns are read from the current rows of their sources. -/
  reads : ∀ c, Cursor.prepare (backend catalog) registry settings text () = .ok c →
    ∀ requests : List Cursor.Request, (c.after (backend catalog) requests).state = .positioned →
      ∀ parts ref, Denotes sources tables parts (.ok ref) →
        ∃ v, Reads catalog sources tables (c.after (backend catalog) requests) ref v

/-- A name of one part or two is found to mean what it denotes. -/
theorem Sourced.column_iff (h : Sourced catalog settings text tree ts s sources tables)
    {parts : List TokenId} {outcome : Except Error ColumnRef}
    (hparts : parts.length = 1 ∨ parts.length = 2) :
    (binderOf tree s sources tables registry settings).column parts = outcome ↔
      Denotes sources tables (parts.map tree.word) outcome :=
  Scope.column_eq_iff h.distinct h.length (by rwa [List.length_map])

/-- Over sources with distinct aliases and with tables, names resolve. -/
theorem Sourced.resolves (h : Sourced catalog settings text tree ts s sources tables)
    (registry : Registry) :
    Resolves catalog registry settings text (s.map Fin.val)
      (binderOf tree s sources tables registry settings) sources tables where
  inside depth parts outcome hparts := by
    refine Iff.trans (Outcome.map_inj fun ref ref' hsame => ?_) (h.column_iff hparts)
    cases hsame
    rfl
  listed given generated parts outcome hparts := by
    refine Iff.trans (Outcome.map_inj fun ref ref' hsame => ?_) (h.column_iff hparts)
    have houtput : Output.data given ref = Output.data given ref' :=
      List.singleton_inj.mp (congrArg Prod.fst hsame)
    cases congrArg Output.expression houtput
    rfl
  refused := h.refused_iff
  bound c hprepare := by
    obtain ⟨plan, places, hplan, hrunning⟩ := exists_running_of_prepare hprepare
    refine ⟨plan, hrunning.plan_eq, fun e he => ?_⟩
    obtain ⟨b, hb, hbind⟩ := Statement.exists_bind_of_meaningOver rfl h.length
      (h.meaningOver_of_plan hplan) he
    refine ⟨b, hb, fun path parts hname hparts => ?_⟩
    obtain ⟨ref, href, hcolumn⟩ := Expr.exists_column_of_bind hbind hname
    exact ⟨ref, href, (h.column_iff hparts).mp hcolumn⟩
  reads c hprepare requests hpos parts ref hdenotes := by
    obtain ⟨plan, places, hplan, hrunning⟩ := exists_running_of_prepare hprepare
    rcases Standing.after (Or.inr ⟨places, hrunning⟩) requests with hclosed | ⟨others, hafter⟩
    · rw [hclosed] at hpos
      cases hpos
    · obtain ⟨hnames, htables⟩ := h.tables_eq hplan hafter
      exact hafter.exists_reads hpos hnames htables hdenotes.describedBy

/-- Over tables in memory a statement is refused for an alias exactly if two sources have the
same. -/
theorem refused_alias_iff (htree : parse settings.reading text = .ok tree)
    (hread : tree.ReadAs settings.reading text ts s)
    (hnames : List.Forall₂ (FromItem.Names tree.spelling) s.sources sources) :
    (∃ aliasName, Cursor.prepare (backend catalog) registry settings text () =
        .error (.duplicateAlias aliasName, ())) ↔ ¬SourceName.Distinct sources := by
  constructor
  · rintro ⟨aliasName, hrefused⟩ hdistinct
    have hmeaning := map_meaning_ofText catalog registry htree hread
    rw [meaning_of_distinct hnames hdistinct] at hmeaning
    rcases prepare_cases catalog registry settings text with
      ⟨c, plan, places, hprepare, -, -⟩ | ⟨e, hprepare, hplan⟩
    · cases hprepare.symm.trans hrefused
    · -- What comes behind the FROM list fails for other reasons.
      cases hprepare.symm.trans hrefused
      rw [hplan] at hmeaning
      have hlate : Late (tablesNamed catalog sources >>= fun tables =>
          (s.map Fin.val).meaningOver (binderOf tree s sources tables registry settings) sources
            settings) :=
        failsIn_bind (late_tablesNamed catalog sources) fun tables =>
          Statement.late_meaningOver rfl settings _
      exact hlate.of_error hmeaning.symm aliasName rfl
  · intro hnot
    obtain ⟨aliasName, -, hrefused⟩ :=
      Cursor.prepare_of_not_distinct registry htree hread.holds hnames hnot
    exact ⟨aliasName, hrefused _ _ (backend catalog) ()⟩

/-- A statement is refused for an alias exactly if two sources of its FROM list have the same alias,
and then over any backend before this is asked for anything. Else, if every source has its table, a
name of one part or two stands for the column that it denotes, wherever it stands, and is refused if
it denotes none. On every row the column is read from the current row of its source. -/
theorem names_resolve (catalog : Catalog) (registry : Registry)
    (htree : parse settings.reading text = .ok tree) :
    ∃ (ts : List Token) (s : Statement (Fin tree.tokens.size)) (sources : List SourceName),
      tree.ReadAs settings.reading text ts s ∧
      List.Forall₂ (FromItem.Names tree.spelling) s.sources sources ∧
      ((∃ aliasName, Cursor.prepare (backend catalog) registry settings text () =
          .error (.duplicateAlias aliasName, ())) ↔ ¬SourceName.Distinct sources) ∧
      (¬SourceName.Distinct sources → ∃ aliasName, SourceName.Repeats sources aliasName ∧
        ∀ (σ γ : Type) (B : Backend σ γ) (world : γ),
          Cursor.prepare B registry settings text world =
            .error (.duplicateAlias aliasName, world)) ∧
      ∀ tables, SourceName.Distinct sources → Tabled catalog sources tables →
        Resolves catalog registry settings text (s.map Fin.val)
          (binderOf tree s sources tables registry settings) sources tables := by
  obtain ⟨ts, s, hread⟩ := Tree.exists_readAs_of_parse htree
  obtain ⟨sources, hnames⟩ := FromItem.forall₂_names tree.spelling hread.holds.wellFormed.sources
  refine ⟨ts, s, sources, hread, hnames, refused_alias_iff htree hread hnames,
    Cursor.prepare_of_not_distinct registry htree hread.holds hnames,
    fun tables hdistinct htabled => ?_⟩
  exact Sourced.resolves ⟨htree, hread, hnames, hdistinct, htabled⟩ registry

/-- Names with an alias in front and without, in the SELECT list and inside expressions, on the
second row. -/
theorem names_resolve_overlapping :
    ∃ tree c, parse Settings.default.reading
        "SELECT a, X.b, Y.b + c FROM t AS x, u AS y WHERE x.b < c" = .ok tree ∧
      Cursor.prepare (backend overlapping) .empty .default
        "SELECT a, X.b, Y.b + c FROM t AS x, u AS y WHERE x.b < c" () = .ok c ∧
      (c.after (backend overlapping) [.execute .empty, .first, .next]).state = .positioned ∧
      ∃ s sources tables, SourceName.Distinct sources ∧ Tabled overlapping sources tables ∧
        Resolves overlapping .empty .default
          "SELECT a, X.b, Y.b + c FROM t AS x, u AS y WHERE x.b < c" (s.map Fin.val)
          (binderOf tree s sources tables .empty .default) sources tables := by
  have hrun : ((Cursor.prepare (backend overlapping) .empty .default
      "SELECT a, X.b, Y.b + c FROM t AS x, u AS y WHERE x.b < c" ()).toOption.map fun c =>
        (c.after (backend overlapping) [.execute .empty, .first, .next]).state) =
      some .positioned := by
    decide +kernel
  cases hprepare : Cursor.prepare (backend overlapping) .empty .default
      "SELECT a, X.b, Y.b + c FROM t AS x, u AS y WHERE x.b < c" () with
  | error e =>
    rw [hprepare] at hrun
    cases hrun
  | ok c =>
    rw [hprepare] at hrun
    obtain ⟨tree, plan, session, htree, -, -⟩ := Cursor.prepare_eq_ok hprepare
    obtain ⟨ts, s, sources, hread, hnames, hrefused, -, hresolves⟩ :=
      names_resolve overlapping .empty htree
    -- The statement is not refused for an alias, so its aliases are distinct.
    have hdistinct : SourceName.Distinct sources := by
      by_contra hnot
      obtain ⟨aliasName, herror⟩ := hrefused.mpr hnot
      cases hprepare.symm.trans herror
    obtain ⟨tables, hsourced⟩ :=
      Sourced.exists_of_distinct htree hread hnames hdistinct hprepare
    exact ⟨tree, c, htree, rfl, Option.some.inj hrun, s, sources, tables, hdistinct,
      hsourced.tabled, hresolves tables hdistinct hsourced.tabled⟩

end Memory

end SelectEngine
