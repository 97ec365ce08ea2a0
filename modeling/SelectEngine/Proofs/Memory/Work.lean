import Mathlib.Algebra.BigOperators.Group.List.Basic
import Mathlib.Data.Nat.Cast.Basic
import SelectEngine.Proofs.Memory.Fetch
import SelectEngine.Proofs.Memory.Odometer
import SelectEngine.Proofs.Protocol.Query

/-!
# The work of a whole scan

A statement over tables in memory is prepared with its sources open (`stands_of_prepare`) and is
read to the end by `Cursor.fetchAll`, whatever its WHERE clause keeps. What each provider has been
asked for is then known call by call (`scanned_of_fetchAll`), and with it how often it went to a
next row and how often it started again (`work_of_fetchAll`).
-/

set_option autoImplicit false

namespace SelectEngine

/-- The row counts of the tables of a statement. -/
def Plan.rowCounts (catalog : Memory.Catalog) (plan : Plan) : List Nat :=
  plan.sources.map fun source => (Plan.tableRows catalog source).length

namespace Memory

variable {catalog : Catalog}

/-! ## Opening -/

theorem leads_openSource (tracks : List (Track catalog)) (name : SourceName) :
    Run.Leads (Stands tracks) (Session.openSource (backend catalog).watched name)
      (fun _ session => ∃ p : Place catalog, Stands (tracks ++ [p.opened]) session)
      fun _ => True := by
  intro session h
  cases hfound : catalog.lookup name.table with
  | none =>
    obtain ⟨later, hrun⟩ : ∃ later, Session.openSource (backend catalog).watched name session =
        .error (.noSuchTable name.table.text) later := by
      simp [Session.openSource, Source.openTable, Source.ask, Run.bind_apply, Backend.watched,
        backend, Scan.answer, Scan.openTable, Scan.closed, Source.closed, hfound]
    rw [hrun]
    trivial
  | some table =>
    have hrun : Session.openSource (backend catalog).watched name session =
        .ok () ⟨session.sources ++ [(⟨name, table, hfound, 0⟩ : Place catalog).watched
          session.world.created], (), session.world.created + 1,
          ⟨session.world.created, .openTable .read name.table, true⟩ ::
            session.world.exchanges⟩ := by
      simp [Session.openSource, Source.openTable, Source.ask, Run.bind_apply, Backend.watched,
        backend, Scan.answer, Scan.openTable, Scan.closed, Source.closed, Place.watched,
        Place.source, Call.granted, Except.isOk, Except.toBool, hfound]
    rw [hrun]
    refine ⟨⟨name, table, hfound, 0⟩, ?_, ?_, fun n => ?_⟩
    · rw [h.sources, h.created, List.mapIdx_concat]
      rfl
    · rw [h.created, List.length_append, List.length_singleton]
    · rw [movesOf_cons_moves n _ rfl, h.moves, h.created]
      -- The new provider is the only one that is asked.
      rcases Nat.lt_trichotomy n tracks.length with hlt | rfl | hgt
      · simp [List.getElem?_append_left hlt, Nat.ne_of_gt hlt]
      · simp [Place.opened]
      · have hnone : tracks.length + 1 ≤ n := hgt
        simp [Nat.ne_of_lt hgt, List.getElem?_eq_none (Nat.le_of_lt hgt),
          List.getElem?_eq_none (l := tracks ++ [_]) (by simpa using hnone)]

theorem leads_openAll (names : List SourceName) (front : List (Place catalog)) :
    Run.Leads (Stands (front.map Place.opened))
      (Session.openAll (backend catalog).watched names)
      (fun _ session => ∃ places : List (Place catalog),
        Stands (places.map Place.opened) session)
      fun _ => True := by
  induction names generalizing front with
  | nil => exact Run.leads_pure fun _ h => ⟨front, h⟩
  | cons name rest ih =>
    apply Run.leads_bind (leads_openSource _ name)
    rintro _ session ⟨p, h⟩
    have hrest := ih (front ++ [p])
    rw [List.map_append] at hrest
    exact hrest session h

theorem Stands.named {tracks : List (Track catalog)}
    {session : Session (Watched Scan) (Watch Unit)} (h : Stands tracks session) :
    session.sources.map Source.named = (tracks.map Track.place).map Place.name := by
  refine List.ext_getElem? fun i => ?_
  rw [List.getElem?_map, h.source, List.getElem?_map, List.getElem?_map, Option.map_map,
    Option.map_map]
  rfl

section

variable {registry : Registry} {settings : Settings} {text : String} {params : Params}
variable {c later : Cursor (Watched Scan) (Watch Unit)} {rows : Option (List (List Value))}

/-- The providers of a statement that has been prepared have been opened and asked for nothing
else. -/
theorem stands_of_prepare
    (h : Cursor.prepare (backend catalog).watched registry settings text (Watch.start ()) = .ok c) :
    ∃ (plan : Plan) (tables : List (Place catalog)), c.plan = some plan ∧
      tables.map Place.name = plan.sources ∧ Stands (tables.map Place.opened) c.session := by
  obtain ⟨plan, hplan, hnamed⟩ := Cursor.named_of_prepare h
  obtain ⟨tree, bound, session, -, hbind, rfl⟩ := Cursor.prepare_eq_ok h
  have hleads : Run.Leads (Stands ([] : List (Track catalog)))
      (Session.bind (backend catalog).watched registry settings tree)
      (fun _ session => ∃ tables : List (Place catalog), Stands (tables.map Place.opened) session)
      fun _ => True := by
    apply Run.leads_bind (Run.keeps_relay _)
    intro select
    apply Run.leads_bind (Run.keeps_relay _)
    intro names
    apply Run.leads_bind (leads_openAll names [])
    rintro _ session ⟨tables, hstands⟩
    have hscope := Correspondence.ofScope (scopes_stands names (tables.map Place.opened)) tree
      select registry settings
    exact (Run.Leads.weaken hscope (fun _ h => h) (fun _ _ h => ⟨tables, h⟩) fun _ _ => trivial)
      session hstands
  obtain ⟨tables, hstands⟩ := hleads.of_ok ⟨rfl, rfl, fun _ => rfl⟩ hbind
  refine ⟨plan, tables, hplan, ?_, hstands⟩
  have hplaces : (tables.map Place.opened).map Track.place = tables := by
    rw [List.map_map]
    exact List.map_id tables
  have hnames := hstands.named
  rw [hplaces] at hnames
  exact hnames.symm.trans hnamed

/-- Reading all rows takes the providers through all combined rows, and does not give up. -/
theorem scanned_of_fetchAll
    (hprepare : Cursor.prepare (backend catalog).watched registry settings text (Watch.start ()) =
      .ok c)
    (hfetch : Cursor.fetchAll (backend catalog).watched params c = .ok rows later) :
    ∃ (plan : Plan) (tables : List (Place catalog)), c.plan = some plan ∧
      tables.map Place.name = plan.sources ∧ rows.isSome = true ∧ Scanned tables later.session := by
  obtain ⟨plan, tables, hplan, hnames, hstands⟩ := stands_of_prepare hprepare
  obtain ⟨hrows, hscanned⟩ := ((counted tables).leads_fetchAll params).of_ok hstands hfetch
  exact ⟨plan, tables, hplan, hnames, hrows, hscanned⟩

end

/-! ## Counting the moves -/

/-- How often a provider was closed, opened and taken to its first row, each right after the
other. -/
def resetsIn : List Call → Nat
  | .close :: .openTable _ _ :: .first :: rest => resetsIn rest + 1
  | _ :: rest => resetsIn rest
  | [] => 0

/-- What the provider of source `i` has done in a whole scan over tables of the given row counts. -/
structure Worked (counts : List Nat) (i : Nat) (moves : List Call) : Prop where
  /-- It went to a next row once for each combined row of the sources up to its own. -/
  nexts : moves.count .next = (counts.take (i + 1)).prod
  /-- It started again once for each combined row of the sources in front of it. -/
  resets : resetsIn moves = if i = 0 then 0 else (counts.take i).prod
  opens : moves.countP Call.opens = resetsIn moves + 1

theorem resetsIn_nexts_append (n : Nat) (moves : List Call) :
    resetsIn (List.replicate n .next ++ moves) = resetsIn moves := by
  induction n with
  | zero => rfl
  | succ n ih => exact ih

theorem resetsIn_passes_append (passes : Nat) (p : Place catalog) (moves : List Call) :
    resetsIn ((List.replicate passes
      (List.replicate p.table.rowCount .next ++ p.restart)).flatten ++ moves) =
      passes + resetsIn moves := by
  induction passes with
  | zero => exact (Nat.zero_add _).symm
  | succ passes ih =>
    rw [List.replicate_succ, List.flatten_cons, List.append_assoc, List.append_assoc,
      resetsIn_nexts_append, Nat.succ_add, ← ih]
    rfl

/-- A provider starts again at the end of each pass. -/
theorem resetsIn_movesTo (passes : Nat) (p : Place catalog) :
    resetsIn (movesTo passes p) = passes := by
  have hnexts := resetsIn_nexts_append p.position []
  rw [List.append_nil] at hnexts
  have hpasses := resetsIn_passes_append passes p (List.replicate p.position .next)
  rw [hnexts] at hpasses
  exact hpasses

theorem count_next_movesTo (passes : Nat) (p : Place catalog) :
    (movesTo passes p).count .next = passes * p.table.rowCount + p.position := by
  simp [movesTo, Place.restart, List.count_flatten]

theorem countP_opens_movesTo (passes : Nat) (p : Place catalog) :
    (movesTo passes p).countP Call.opens = passes + 1 := by
  simp [movesTo, Place.restart, List.countP_flatten, List.countP_cons, List.countP_replicate,
    Call.opens]

/-- The row counts of the tables of places. -/
def rowCounts (places : List (Place catalog)) : List Nat := places.map fun p => p.table.rowCount

theorem rowCounts_cons (p : Place catalog) (rest : List (Place catalog)) :
    rowCounts (p :: rest) = p.table.rowCount :: rowCounts rest := rfl

/-- While the places behind are on their first rows, each table multiplies the number. -/
theorem rankFrom_of_position_eq_zero {places : List (Place catalog)}
    (h : ∀ p ∈ places, p.position = 0) (rank : Nat) :
    rankFrom rank places = rank * (rowCounts places).prod := by
  induction places generalizing rank with
  | nil => exact (Nat.mul_one rank).symm
  | cons p rest ih =>
    have hp : p.position = 0 := h p List.mem_cons_self
    rw [rankFrom_cons, ih (fun q hq => h q (List.mem_cons_of_mem _ hq)), hp, Nat.add_zero,
      rowCounts_cons, List.prod_cons, Nat.mul_assoc]

/-- Past the last combined row the sources in front of one have passed all their combined rows. -/
theorem Exhausted.rankFrom_take {places : List (Place catalog)} (h : Exhausted places) {i : Nat}
    (hi : i < places.length) (hne : i ≠ 0) :
    rankFrom 0 (places.take i) = ((rowCounts places).take i).prod := by
  cases places with
  | nil => exact absurd hi (Nat.not_lt_zero i)
  | cons first rest =>
    obtain ⟨n, rfl⟩ := Nat.exists_eq_succ_of_ne_zero hne
    have htail : ∀ q ∈ rest.take n, q.position = 0 := fun q hq => h.2 q (List.mem_of_mem_take hq)
    have hcounts : rowCounts (rest.take n) = (rowCounts rest).take n := List.map_take
    rw [List.take_succ_cons, rankFrom_cons, Nat.zero_mul, Nat.zero_add, h.1,
      rankFrom_of_position_eq_zero htail, hcounts, rowCounts_cons, List.take_succ_cons,
      List.prod_cons]

theorem Exhausted.position {places : List (Place catalog)} (h : Exhausted places) {i : Nat}
    {p : Place catalog} (hp : places[i]? = some p) :
    p.position = if i = 0 then p.table.rowCount else 0 := by
  cases places with
  | nil => cases hp
  | cons first rest =>
    cases i with
    | zero =>
      cases hp
      exact h.1
    | succ i => exact h.2 p (List.mem_of_getElem? hp)

/-- Past the last combined row each provider has done its work. -/
theorem Exhausted.worked {places : List (Place catalog)} (h : Exhausted places) {i : Nat}
    {p : Place catalog} (hp : places[i]? = some p) :
    Worked (rowCounts places) i (movesTo (rankFrom 0 (places.take i)) p) := by
  obtain ⟨hi, hget⟩ := List.getElem?_eq_some_iff.mp hp
  have hcounts : i < (rowCounts places).length := Nat.lt_of_lt_of_eq hi (List.length_map _).symm
  have hcount : (rowCounts places)[i] = p.table.rowCount := by simp [rowCounts, hget]
  have hresets := resetsIn_movesTo (rankFrom 0 (places.take i)) p
  refine ⟨?_, ?_, ?_⟩
  · rw [count_next_movesTo, h.position hp, List.prod_take_succ _ _ hcounts, hcount]
    by_cases hzero : i = 0
    · -- The first source has gone through its table once.
      subst hzero
      exact (Nat.zero_mul _).symm ▸ (Nat.zero_add _).trans (Nat.one_mul _).symm
    · rw [h.rankFrom_take hi hzero, if_neg hzero, Nat.add_zero]
  · rw [hresets]
    by_cases hzero : i = 0
    · subst hzero
      rfl
    · rw [if_neg hzero, h.rankFrom_take hi hzero]
  · rw [countP_opens_movesTo, hresets]

/-- The row counts are those of the tables that the statement names. -/
theorem rowCounts_eq {places : List (Place catalog)} {plan : Plan}
    (h : places.map Place.name = plan.sources) : rowCounts places = plan.rowCounts catalog := by
  have htables := congrArg (List.map List.length) (tablesOf_eq h)
  rw [tablesOf, List.map_map, List.map_map] at htables
  exact htables

/-! ## A whole scan -/

section

variable {places : List (Place catalog)} {session : Session (Watched Scan) (Watch Unit)}

/-- What the provider of a place has been asked for. -/
theorem Stands.movesOf_odometer (h : Stands (odometer 0 places) session) (i : Nat) :
    movesOf i session.world.exchanges =
      (places[i]?.map fun p => movesTo (rankFrom 0 (places.take i)) p).getD [] := by
  rw [h.moves, getElem?_odometer, Option.map_map]
  rfl

/-- The sources are those of the places, and their providers are numbered in order. -/
theorem Stands.exists_place (h : Stands (odometer 0 places) session) {i : Nat}
    {source : Source (Watched Scan)} (hsource : session.sources[i]? = some source) :
    source.provider.number = i ∧ ∃ p, places[i]? = some p := by
  rw [h.source, getElem?_odometer, Option.map_map] at hsource
  obtain ⟨p, hp, rfl⟩ := Option.map_eq_some_iff.mp hsource
  exact ⟨rfl, p, hp⟩

end

/-- A provider that was only taken to its first row has not gone on or started again. -/
theorem idle_movesOf {tables : List (Place catalog)}
    {session : Session (Watched Scan) (Watch Unit)}
    (h : Stands (odometer 0 (tables.map Place.rewound)) session) (i : Nat) :
    (movesOf i session.world.exchanges).count .next = 0 ∧
      resetsIn (movesOf i session.world.exchanges) = 0 := by
  -- The sources in front have passed none of their combined rows.
  have hrank : rankFrom 0 ((tables.map Place.rewound).take i) = 0 := by
    rw [← List.map_take, rankFrom_rewound]
  rw [h.movesOf_odometer, hrank, List.getElem?_map]
  cases tables[i]? with
  | none => exact ⟨rfl, rfl⟩
  | some p => exact ⟨rfl, rfl⟩

/-- Whatever a statement selects, reading all its rows once takes each provider to a next row as
often as there are combined rows of the tables up to its own, and starts it again as often as there
are combined rows of those in front of it, the first one never. If a table is empty, no provider
goes to a next row or starts again. -/
theorem work_of_fetchAll {registry : Registry} {settings : Settings} {text : String}
    {params : Params} {c later : Cursor (Watched Scan) (Watch Unit)}
    {rows : Option (List (List Value))}
    (hprepare : Cursor.prepare (backend catalog).watched registry settings text (Watch.start ()) =
      .ok c)
    (hfetch : Cursor.fetchAll (backend catalog).watched params c = .ok rows later) :
    ∃ plan, c.plan = some plan ∧ rows.isSome = true ∧
      later.session.sources.map Source.named = plan.sources ∧
      (∀ (i : Nat) (source : Source (Watched Scan)), later.session.sources[i]? = some source →
        source.provider.number = i ∧
        ((∀ n ∈ plan.rowCounts catalog, 1 ≤ n) →
          Worked (plan.rowCounts catalog) i (movesOf i later.session.world.exchanges))) ∧
      (0 ∈ plan.rowCounts catalog → ∀ i,
        (movesOf i later.session.world.exchanges).count .next = 0 ∧
          resetsIn (movesOf i later.session.world.exchanges) = 0) := by
  obtain ⟨plan, tables, hplan, hnames, hrows, hscanned⟩ := scanned_of_fetchAll hprepare hfetch
  have hcounts : rowCounts tables = plan.rowCounts catalog := rowCounts_eq hnames
  refine ⟨plan, hplan, hrows, ?_⟩
  rw [← hcounts]
  cases hscanned with
  | passed hfull hpassed =>
    obtain ⟨places, htables, hexhausted, hstands⟩ := hpassed
    -- The places that are left are on the same tables, with the same row counts.
    have hplaces : places.map Place.name = plan.sources := htables.names.trans hnames
    have hsame : rowCounts places = rowCounts tables := (rowCounts_eq hplaces).trans hcounts.symm
    refine ⟨?_, fun i source hsource => ?_, fun hzero => ?_⟩
    · rw [hstands.named, map_place_odometer, hplaces]
    · obtain ⟨hnumber, p, hp⟩ := hstands.exists_place hsource
      refine ⟨hnumber, fun _ => ?_⟩
      rw [hstands.movesOf_odometer, hp, ← hsame]
      exact hexhausted.worked hp
    · obtain ⟨p, hp, hempty⟩ := List.mem_map.mp hzero
      exact absurd (List.length_eq_zero_iff.mp hempty) (hfull p hp)
  | none hempty hstands =>
    have hplaces : (tables.map Place.rewound).map Place.name = plan.sources := by
      rw [List.map_map]
      exact hnames
    refine ⟨?_, fun i source hsource => ?_, fun _ => idle_movesOf hstands⟩
    · rw [hstands.named, map_place_odometer, hplaces]
    · obtain ⟨hnumber, -⟩ := hstands.exists_place hsource
      refine ⟨hnumber, fun hpositive => ?_⟩
      obtain ⟨p, hp, hrows⟩ := hempty
      have hlength : 1 ≤ p.table.rows.length := hpositive _ (List.mem_map_of_mem hp)
      rw [hrows] at hlength
      exact absurd hlength (Nat.not_succ_le_zero 0)

/-- A self join of a table of two rows: the inner source passes it for each of its rows. -/
theorem work_of_fetchAll_self_join :
    ∃ (c later : Cursor (Watched Scan) (Watch Unit)) (rows : Option (List (List Value))),
      Cursor.prepare (backend oneTable).watched .empty .default
        "SELECT x.a, y.a + 1 FROM t x, t y WHERE y.a > 1" (Watch.start ()) = .ok c ∧
      Cursor.fetchAll (backend oneTable).watched .empty c = .ok rows later ∧
      (movesOf 1 later.session.world.exchanges).count .next = 4 ∧
      resetsIn (movesOf 1 later.session.world.exchanges) = 2 ∧
      (movesOf 1 later.session.world.exchanges).countP Call.opens = 3 := by
  have hrun : ((Cursor.prepare (backend oneTable).watched .empty .default
      "SELECT x.a, y.a + 1 FROM t x, t y WHERE y.a > 1" (Watch.start ())).toOption.map fun c =>
        (c.plan.map (·.rowCounts oneTable),
          match Cursor.fetchAll (backend oneTable).watched .empty c with
          | .ok _ later => later.session.sources.length
          | .error _ _ => 0)) = some (some [2, 2], 2) := by
    decide +kernel
  cases hprepare : Cursor.prepare (backend oneTable).watched .empty .default
      "SELECT x.a, y.a + 1 FROM t x, t y WHERE y.a > 1" (Watch.start ()) with
  | error failure =>
    rw [hprepare] at hrun
    cases hrun
  | ok c =>
    rw [hprepare] at hrun
    obtain ⟨hcounts, hlength⟩ := Prod.mk.inj (Option.some.inj hrun)
    cases hfetch : Cursor.fetchAll (backend oneTable).watched .empty c with
    | error e later =>
      rw [hfetch] at hlength
      cases hlength
    | ok rows later =>
      rw [hfetch] at hlength
      obtain ⟨plan, hplan, -, -, hwork, -⟩ := work_of_fetchAll hprepare hfetch
      rw [hplan] at hcounts
      have htwo : plan.rowCounts oneTable = [2, 2] := Option.some.inj hcounts
      have hinner : 1 < later.session.sources.length :=
        Nat.lt_of_lt_of_eq Nat.one_lt_two hlength.symm
      obtain ⟨-, hworked⟩ := hwork 1 _ (List.getElem?_eq_getElem hinner)
      rw [htwo] at hworked
      have hdone := hworked (by decide)
      have hopens := hdone.opens
      rw [hdone.resets] at hopens
      exact ⟨c, later, rows, rfl, hfetch, hdone.nexts, hdone.resets, hopens⟩

end Memory

end SelectEngine
