import SelectEngine.Proofs.Alike.Reading
import SelectEngine.Proofs.Ordinary.Query
import SelectEngine.Proofs.Plan.Graft

/-!
# Layout and letter case do not matter

Two texts whose tokens differ in their places and in the letter case of keywords and names alone
have the same rows over tables in memory, or fail with the same variant of failure
(`Memory.query_alike`). Their columns have the same types and, up to letter case, the same names.
-/

set_option autoImplicit false

namespace SelectEngine

open Outcome Text

/-! ## Plans -/

theorem Output.folded_eq {o o' : Output} (h : o.folded = o'.folded) :
    o.column.type = o'.column.type ∧ sameName o.column.name o'.column.name = true ∧
      o.expression = o'.expression := by
  obtain ⟨hcolumn, hexpression⟩ := Output.mk.inj h
  have htype : o.column.folded.type = o'.column.folded.type := congrArg Column.type hcolumn
  have hname : o.column.folded.name = o'.column.folded.name := congrArg Column.name hcolumn
  exact ⟨htype, (sameName_iff _ _).mpr hname, hexpression⟩

namespace Plan

variable {plan plan' : Plan}

theorem tableRows_congr (catalog : Memory.Catalog) {source source' : SourceName}
    (h : source.folded = source'.folded) : tableRows catalog source = tableRows catalog source' := by
  rw [tableRows, tableRows, catalog.lookup_congr (SourceName.mk.inj h).2]

/-- Sources of the same names but for their letter case have the same rows. -/
theorem map_tableRows_congr (catalog : Memory.Catalog) {sources sources' : List SourceName}
    (h : sources.map SourceName.folded = sources'.map SourceName.folded) :
    sources.map (tableRows catalog) = sources'.map (tableRows catalog) := by
  have hnames := forall₂_of_map_eq h
  rw [← List.forall₂_eq_eq_eq, List.forall₂_map_left_iff, List.forall₂_map_right_iff]
  exact hnames.imp fun _ _ hname => tableRows_congr catalog hname

/-- Columns of the same names but for their letter case have the same values. -/
theorem allAgree_of_folded (params : Params) {outputs outputs' : List Output}
    (h : outputs.map Output.folded = outputs'.map Output.folded) :
    Output.AllAgree params params outputs outputs' :=
  (forall₂_of_map_eq h).imp fun o o' ho => by
    rw [(Output.folded_eq ho).2.2]
    exact fun _ _ _ => rfl

/-- Plans that mean the same but for the letter case of names have the same answer. -/
theorem answer_eq_of_folded (h : plan.meaning.folded = plan'.meaning.folded)
    (catalog : Memory.Catalog) (settings : Settings) (params : Params) :
    plan.answer catalog settings params = plan'.answer catalog settings params := by
  obtain ⟨hsources, houtputs, hcondition⟩ := Meaning.mk.inj h
  have hrows : plan.sources.map (tableRows catalog) = plan'.sources.map (tableRows catalog) :=
    map_tableRows_congr catalog hsources
  rw [answer, answer, hrows]
  refine rowsOf_eq_of_agree (allAgree_of_folded params houtputs) ?_ settings _
  have hpredicate : plan.predicate.map Prod.snd = plan'.predicate.map Prod.snd := hcondition
  rw [hpredicate]
  cases plan'.predicate with
  | none => exact .none
  | some found => exact .some fun _ _ _ => rfl

end Plan

/-! ## Columns -/

/-- The descriptors are of columns of one type, and have one name but for its letter case. -/
def Column.Alike (c c' : Column) : Prop := c.type = c'.type ∧ sameName c.name c'.name = true

/-- The cursors have as many columns, and describe each alike or refuse to. -/
def Cursor.SameColumns {σ γ : Type} (c c' : Cursor σ γ) : Prop :=
  c.columnCount = c'.columnCount ∧
    ∀ n, Outcome.Alike Column.Alike ((Cursor.describe n).outcome c) ((Cursor.describe n).outcome c')

theorem Cursor.sameColumns_of_folded {σ γ : Type} {c c' : Cursor σ γ} {plan plan' : Plan}
    (hplan : c.plan = some plan) (hplan' : c'.plan = some plan')
    (h : plan.meaning.folded = plan'.meaning.folded) : c.SameColumns c' := by
  have hfields : (plan.fields.map Field.output).map Output.folded =
      (plan'.fields.map Field.output).map Output.folded := (Meaning.mk.inj h).2.1
  have hlength : plan.fields.length = plan'.fields.length := by
    simpa using congrArg List.length hfields
  refine ⟨?_, fun n => ?_⟩
  · rw [columnCount, columnCount, hplan, hplan']
    exact hlength
  · rw [describe, Run.outcome_bind_of_ok (planFor_of_some hplan),
      Run.outcome_bind_of_ok (planFor_of_some hplan')]
    have hfield : (plan.fields[n]?.map Field.output).map Output.folded =
        (plan'.fields[n]?.map Field.output).map Output.folded := by
      rw [← List.getElem?_map, ← List.getElem?_map, hfields, List.getElem?_map, List.getElem?_map]
    rw [Option.map_map, Option.map_map] at hfield
    obtain ⟨hnone, hnone'⟩ | ⟨field, field', hfound, hfound', hfolded⟩ := map_eq_cases hfield
    · rw [hnone, hnone']
      exact .error rfl
    · rw [hfound, hfound']
      obtain ⟨htype, hname, -⟩ := Output.folded_eq hfolded
      exact .ok ⟨htype, hname⟩

/-! ## Queries -/

namespace Memory

variable {catalog : Catalog} {registry : Registry} {settings : Settings}

/-- Layout and letter case do not matter. Let two texts within the limit have tokens of the same
kinds and the same texts, but for the letter case of keywords and names. Over the same tables, with
the same functions, settings and parameters, both queries have the same rows or fail with the same
variant of failure. Both texts are prepared, with columns of the same types and of the same names but
for their letter case, or neither is. -/
theorem query_alike {source text text' : String} {ts ts' : List Token}
    (hlength : text.utf8ByteSize ≤ settings.reading.maxLength)
    (hlength' : text'.utf8ByteSize ≤ settings.reading.maxLength)
    (htokens : tokenize source text = .ok ts) (htokens' : tokenize source text' = .ok ts')
    (hts : List.Forall₂ Token.Alike ts ts') (params : Params) :
    Outcome.Alike (fun found found' => ∃ rows, found = some rows ∧ found' = some rows)
      (query (backend catalog) registry settings text params ()).1
      (query (backend catalog) registry settings text' params ()).1 ∧
    Outcome.Alike Cursor.SameColumns
      ((Cursor.prepare (backend catalog) registry settings text ()).mapError Prod.fst)
      ((Cursor.prepare (backend catalog) registry settings text' ()).mapError Prod.fst) := by
  have hplans := Plan.ofText_alike catalog registry hlength hlength'
    (drain_of_tokenize htokens settings.reading.sourceName)
    (drain_of_tokenize htokens' settings.reading.sourceName) hts
  constructor
  · rw [query_eq_answer, query_eq_answer]
    refine hplans.bind fun plan plan' hmeaning => ?_
    rw [Plan.answer_eq_of_folded hmeaning]
    cases plan'.answer catalog settings params with
    | ok rows => exact .ok ⟨rows, rfl, rfl⟩
    | error e => exact .error rfl
  · rcases hplans.cases with ⟨plan, plan', hplan, hplan', h⟩ | ⟨e, e', hplan, hplan', h⟩
    · obtain ⟨c, places, hprepare, -, hrunning⟩ := prepare_of_plan hplan
      obtain ⟨c', places', hprepare', -, hrunning'⟩ := prepare_of_plan hplan'
      rw [hprepare, hprepare']
      exact .ok (Cursor.sameColumns_of_folded hrunning.plan_eq hrunning'.plan_eq h)
    · rw [prepare_of_error hplan, prepare_of_error hplan']
      exact .error h

/-- A statement in another letter case, with a comment and other blanks. -/
theorem query_alike_commented :
    (query (backend oneTable) .empty .default "SELECT x.a FROM t x WHERE x.a = ?"
        (.ofList [.integer 2]) ()).1 = .ok (some [[.integer 2]]) ∧
    Outcome.Alike (fun found found' => ∃ rows, found = some rows ∧ found' = some rows)
      (query (backend oneTable) .empty .default "SELECT x.a FROM t x WHERE x.a = ?"
        (.ofList [.integer 2]) ()).1
      (query (backend oneTable) .empty .default "select X.A\nfrom T /* one */ x where x.a=?"
        (.ofList [.integer 2]) ()).1 ∧
    Outcome.Alike Cursor.SameColumns
      ((Cursor.prepare (backend oneTable) .empty .default "SELECT x.a FROM t x WHERE x.a = ?"
        ()).mapError Prod.fst)
      ((Cursor.prepare (backend oneTable) .empty .default
        "select X.A\nfrom T /* one */ x where x.a=?" ()).mapError Prod.fst) := by
  have htokens : tokenize "<sql>" "SELECT x.a FROM t x WHERE x.a = ?" = .ok
      [⟨.kwSelect, "SELECT", ⟨0, 6, 1⟩⟩, ⟨.ident, "x", ⟨7, 1, 1⟩⟩, ⟨.dot, ".", ⟨8, 1, 1⟩⟩,
        ⟨.ident, "a", ⟨9, 1, 1⟩⟩, ⟨.kwFrom, "FROM", ⟨11, 4, 1⟩⟩, ⟨.ident, "t", ⟨16, 1, 1⟩⟩,
        ⟨.ident, "x", ⟨18, 1, 1⟩⟩, ⟨.kwWhere, "WHERE", ⟨20, 5, 1⟩⟩, ⟨.ident, "x", ⟨26, 1, 1⟩⟩,
        ⟨.dot, ".", ⟨27, 1, 1⟩⟩, ⟨.ident, "a", ⟨28, 1, 1⟩⟩, ⟨.eq, "=", ⟨30, 1, 1⟩⟩,
        ⟨.question, "?", ⟨32, 1, 1⟩⟩, ⟨.eof, "", ⟨33, 0, 1⟩⟩] := by
    decide +kernel
  have htokens' : tokenize "<sql>" "select X.A\nfrom T /* one */ x where x.a=?" = .ok
      [⟨.kwSelect, "select", ⟨0, 6, 1⟩⟩, ⟨.ident, "X", ⟨7, 1, 1⟩⟩, ⟨.dot, ".", ⟨8, 1, 1⟩⟩,
        ⟨.ident, "A", ⟨9, 1, 1⟩⟩, ⟨.kwFrom, "from", ⟨11, 4, 2⟩⟩, ⟨.ident, "T", ⟨16, 1, 2⟩⟩,
        ⟨.ident, "x", ⟨28, 1, 2⟩⟩, ⟨.kwWhere, "where", ⟨30, 5, 2⟩⟩, ⟨.ident, "x", ⟨36, 1, 2⟩⟩,
        ⟨.dot, ".", ⟨37, 1, 2⟩⟩, ⟨.ident, "a", ⟨38, 1, 2⟩⟩, ⟨.eq, "=", ⟨39, 1, 2⟩⟩,
        ⟨.question, "?", ⟨40, 1, 2⟩⟩, ⟨.eof, "", ⟨41, 0, 2⟩⟩] := by
    decide +kernel
  refine ⟨by decide +kernel, query_alike (by decide +kernel) (by decide +kernel) htokens htokens'
    ?_ _⟩
  repeat' first | exact .nil | refine .cons (by decide) ?_

end Memory

end SelectEngine
