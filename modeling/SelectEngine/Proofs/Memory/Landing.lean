import SelectEngine.Proofs.Memory.Running

/-!
# Searching for the next row over tables in memory

`Plan.seek` skips the combined rows that do not satisfy the WHERE clause. A cursor over tables in
memory goes where `Plan.seek` says and fails as it fails: `forward_landed` for the rows behind the
current one and `start_landed` for all of them. Neither gives up, since a session has fewer combined
rows than the bound of the search (`length_product_lt`).
-/

set_option autoImplicit false

namespace SelectEngine

/-- The combined rows from the first one on that satisfies the WHERE clause. -/
def Plan.seek (p : Plan) (settings : Settings) (params : Params) :
    List CombinedRow → Except Error (List CombinedRow)
  | [] => .ok []
  | rows :: rest => do
    if ← p.holds (Environment.onRows settings params rows) then .ok (rows :: rest)
    else p.seek settings params rest

/-- The rows of a statement when the first of the combined rows is known to satisfy the WHERE
clause. -/
def Plan.rowsFrom (p : Plan) (settings : Settings) (params : Params) :
    List CombinedRow → Except Error (List (List Value))
  | [] => .ok []
  | rows :: rest => do
    let row ← Field.evalAll (Environment.onRows settings params rows) p.fields
    let later ← p.rowsOf settings params rest
    .ok (row :: later)

/-- The rows of a statement are found by one search after the other. -/
theorem Plan.rowsOf_eq_seek (p : Plan) (settings : Settings) (params : Params) :
    ∀ combined : List CombinedRow, p.rowsOf settings params combined =
      p.seek settings params combined >>= p.rowsFrom settings params
  | [] => rfl
  | rows :: rest => by
    rw [Plan.rowsOf, Plan.seek]
    cases p.holds (Environment.onRows settings params rows) with
    | error e => rfl
    | ok b =>
      cases b with
      | true => rfl
      | false => exact Plan.rowsOf_eq_seek p settings params rest

theorem Plan.length_lt_of_seek {p : Plan} {settings : Settings} {params : Params}
    {rows : CombinedRow} {rest : List CombinedRow} : ∀ {combined : List CombinedRow},
    p.seek settings params combined = .ok (rows :: rest) → rest.length < combined.length
  | [], h => by cases h
  | first :: others, h => by
    rw [Plan.seek] at h
    cases hh : p.holds (Environment.onRows settings params first) with
    | error e =>
      rw [hh] at h
      cases h
    | ok b =>
      rw [hh] at h
      cases b with
      | true =>
        cases h
        exact Nat.lt_succ_self _
      | false => exact Nat.lt_succ_of_lt (Plan.length_lt_of_seek h)

namespace Memory

variable {catalog : Catalog} {plan : Plan} {settings : Settings}
variable {places : List (Place catalog)} {c : Cursor Scan Unit}

/-! ## The bound of a search -/

theorem le_foldl_max {n : Nat} : ∀ {ns : List Nat} {start : Nat}, n ≤ start ∨ n ∈ ns →
    n ≤ ns.foldl max start
  | [], _, h => h.resolve_right List.not_mem_nil
  | m :: ns, start, h => by
    show n ≤ ns.foldl max (max start m)
    apply le_foldl_max
    rcases h with h | h
    · exact Or.inl (Nat.le_trans h (Nat.le_max_left start m))
    · rcases List.mem_cons.mp h with rfl | h
      · exact Or.inl (Nat.le_max_right start n)
      · exact Or.inr h

/-- A table that is found is one of the catalog. -/
theorem Catalog.exists_mem_of_lookup {name : TableName} {table : Table}
    (h : catalog.lookup name = some table) : ∃ found, (found, table) ∈ catalog.entries := by
  unfold Catalog.lookup at h
  split at h
  · next found other hfilter =>
    cases h
    exact ⟨found, (List.mem_filter.mp (hfilter ▸ List.mem_singleton.mpr rfl)).1⟩
  · cases h

/-- A table that is found is no larger than the largest of the catalog. -/
theorem Place.length_le_largest (p : Place catalog) : p.table.rows.length ≤ catalog.largest := by
  obtain ⟨name, hmem⟩ := Catalog.exists_mem_of_lookup p.found
  exact le_foldl_max (Or.inr (List.mem_map.mpr ⟨(name, p.table), hmem, rfl⟩))

/-- A session has fewer combined rows than a search is allowed. -/
theorem length_product_le_bound (places : List (Place catalog)) :
    (product (tablesOf places)).length ≤ (catalog.largest + 1) ^ places.length := by
  have htables : ∀ rows ∈ tablesOf places, rows.length ≤ catalog.largest + 1 := by
    intro rows hrows
    obtain ⟨p, -, rfl⟩ := List.mem_map.mp hrows
    exact Nat.le_succ_of_le p.length_le_largest
  have hbound := length_product_le htables
  rwa [tablesOf, List.length_map] at hbound

theorem length_lt_bound {current : CombinedRow} {later : List CombinedRow}
    (h : onward (entries places) = current :: later) :
    later.length < (catalog.largest + 1) ^ places.length := by
  have hsuffix := (onward_suffix (entries places)).length_le
  have htables : (entries places).map Prod.fst = tablesOf places := by
    simp [entries, tablesOf, Place.entry]
  rw [h, htables, List.length_cons] at hsuffix
  exact Nat.lt_of_lt_of_le hsuffix (length_product_le_bound places)

theorem rowBound_apply (hs : c.session = session places) :
    Cursor.rowBound (backend catalog) c = .ok ((catalog.largest + 1) ^ places.length) c := by
  have hcount : Cursor.onSession Session.count c = .ok places.length c := by
    rw [Cursor.onSession, hs, count_apply, ← hs]
  rw [Cursor.rowBound, Run.bind_of_ok hcount]
  rfl

/-! ## Where a search ends -/

/-- The cursor with its sources at the given places, in a generation. -/
def standing (c : Cursor Scan Unit) (places : List (Place catalog)) (generation : Nat) :
    Cursor Scan Unit :=
  { c with session := session places, generation }

/-- A search that starts from a cursor ends as `found` says: at the first of the combined rows
found, behind the last one if there are none, or with its failure. -/
def Landed (places : List (Place catalog)) (c : Cursor Scan Unit)
    (found : Except Error (List CombinedRow))
    (result : EStateM.Result Error (Cursor Scan Unit) Landing) : Prop :=
  ∃ (others : List (Place catalog)) (g : Nat), SameTables others places ∧ c.generation ≤ g ∧
    match found with
    | .error e => result = .error e (standing c others g)
    | .ok [] => result = .ok .ended (standing c others g)
    | .ok (rows :: rest) => result = .ok .row (standing c others g) ∧ c.generation < g ∧
        AllInside (entries others) ∧ onward (entries others) = rows :: rest

/-- A search that goes on from elsewhere on the same tables. -/
theorem Landed.of_later {others : List (Place catalog)} {g : Nat}
    {found : Except Error (List CombinedRow)}
    {result : EStateM.Result Error (Cursor Scan Unit) Landing} (ht : SameTables others places)
    (hg : c.generation ≤ g) (h : Landed others (standing c others g) found result) :
    Landed places c found result := by
  obtain ⟨last, g', ht', hg', hfound⟩ := h
  refine ⟨last, g', ht'.trans ht, Nat.le_trans hg hg', ?_⟩
  rcases found with e | _ | ⟨rows, rest⟩
  · exact hfound
  · exact hfound
  · exact ⟨hfound.1, Nat.lt_of_le_of_lt hg hfound.2.1, hfound.2.2⟩

/-- On a new row the search ends if the row satisfies the WHERE clause, and else goes on. -/
theorem row_landed {rows : CombinedRow} {rest : List CombinedRow}
    {search : Run (Cursor Scan Unit) Landing} (hp : c.plan = some plan)
    (hs : c.session = session places) (hin : AllInside (entries places))
    (h : onward (entries places) = rows :: rest)
    (hsearch : Landed places (standing c places (c.generation + 1))
      (plan.seek c.settings c.params rest) (search (standing c places (c.generation + 1)))) :
    Landed places c (plan.seek c.settings c.params (rows :: rest))
      ((do
        Cursor.renew
        if ← Cursor.satisfied (backend catalog) then pure Landing.row else search) c) := by
  obtain ⟨_, hhead⟩ := onward_eq_cons hin
  have hrows : combination (entries places) = rows := (List.cons.inj (hhead.symm.trans h)).1
  have hgeneration : c.generation ≤ c.generation + 1 := Nat.le_succ _
  have hrenew : Cursor.renew c = .ok () (standing c places (c.generation + 1)) := by
    rw [standing, ← hs]
    rfl
  have hsatisfied : Cursor.satisfied (backend catalog) (standing c places (c.generation + 1)) =
      (relay (plan.holds (.onRows c.settings c.params rows)) : Run _ _)
        (standing c places (c.generation + 1)) := by
    rw [← hrows]
    exact satisfied_apply hp rfl hin
  -- Failing and stopping end the search here; otherwise it is the search behind the row.
  rw [Run.bind_of_ok hrenew, Run.bind_apply, hsatisfied, Plan.seek]
  cases plan.holds (Environment.onRows c.settings c.params rows) with
  | error e => exact ⟨places, c.generation + 1, rfl, hgeneration, rfl⟩
  | ok satisfied =>
    cases satisfied with
    | true => exact ⟨places, c.generation + 1, rfl, hgeneration, rfl, Nat.lt_succ_self _, hin, h⟩
    | false => exact .of_later rfl hgeneration hsearch

/-- Behind the current row the search ends where `Plan.seek` does. -/
theorem forward_landed {current : CombinedRow} {later : List CombinedRow} {fuel : Nat}
    (hp : c.plan = some plan) (hs : c.session = session places)
    (hin : AllInside (entries places)) (h : onward (entries places) = current :: later)
    (hfuel : later.length < fuel) :
    Landed places c (plan.seek c.settings c.params later)
      (Cursor.forward (backend catalog) fuel c) := by
  induction fuel generalizing c places current later with
  | zero => exact absurd hfuel (Nat.not_lt_zero _)
  | succ fuel ih =>
    obtain ⟨others, hrun, htables, hnext⟩ := forward_apply places hin h
    have hmove : Cursor.onSession (Session.forward (backend catalog)) c =
        .ok (!later.isEmpty) (standing c others c.generation) := by
      rw [Cursor.onSession, hs, hrun]
      rfl
    rw [Cursor.forward, Run.bind_of_ok hmove]
    cases later with
    | nil => exact ⟨others, c.generation, htables, Nat.le_refl _, rfl⟩
    | cons rows rest =>
      obtain ⟨hinside, honward⟩ := hnext (List.cons_ne_nil rows rest)
      -- One row of the bound is used up, and the search goes on from the places reached.
      refine .of_later htables (Nat.le_refl _) ?_
      exact row_landed (c := standing c others c.generation) hp rfl hinside honward
        (ih hp rfl hinside honward (Nat.lt_of_succ_lt_succ hfuel))

/-- From the start the search goes through all combined rows. -/
theorem start_landed (hp : c.plan = some plan) (hs : c.session = session places) :
    Landed places c (plan.seek c.settings c.params (product (tablesOf places)))
      (Cursor.start (backend catalog) c) := by
  have hmove : Cursor.onSession (Session.start (backend catalog)) c =
      .ok (!(places.map Place.rewound).any Place.ended)
        (standing c (places.map Place.rewound) c.generation) := by
    rw [Cursor.onSession, hs, start_apply]
    rfl
  have htables : SameTables (places.map Place.rewound) places := by
    simp [SameTables, Place.rewound]
  rw [Cursor.start, Run.bind_of_ok hmove]
  cases hended : (places.map Place.rewound).any Place.ended with
  | true =>
    -- A table without rows leaves no combined row at all.
    obtain ⟨q, hq, hqended⟩ := List.any_eq_true.mp hended
    obtain ⟨p, hmem, rfl⟩ := List.mem_map.mp hq
    have hempty : p.table.rows = [] :=
      List.length_eq_zero_iff.mp (Nat.le_zero.mp (of_decide_eq_true hqended))
    have hproduct : product (tablesOf places) = [] :=
      product_eq_nil (List.mem_map.mpr ⟨p, hmem, hempty⟩)
    rw [hproduct]
    exact ⟨places.map Place.rewound, c.generation, htables, Nat.le_refl _, rfl⟩
  | false =>
    -- All sources stand on their first rows, so all combined rows are ahead.
    have hfresh : Fresh (places.map Place.rewound) := fresh_rewound hended
    have hinside := allInside_fresh hfresh
    have hsame : tablesOf (places.map Place.rewound) = tablesOf places := List.map_map
    have honward : onward (entries (places.map Place.rewound)) = product (tablesOf places) := by
      rw [entries_fresh hfresh, onward_start, hsame]
    obtain ⟨later, hlater⟩ := onward_eq_cons hinside
    rw [← honward, hlater]
    refine .of_later htables (Nat.le_refl _) ?_
    refine row_landed (c := standing c (places.map Place.rewound) c.generation) hp rfl hinside
      hlater ?_
    rw [Run.bind_of_ok (rowBound_apply rfl)]
    exact forward_landed hp rfl hinside hlater (length_lt_bound hlater)

end Memory

end SelectEngine
