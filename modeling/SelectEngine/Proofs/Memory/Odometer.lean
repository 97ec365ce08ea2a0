import SelectEngine.Proofs.Cursor.Scan
import SelectEngine.Proofs.Memory.Landing
import SelectEngine.Proofs.Memory.Watched

/-!
# The odometer of the combined rows

The combined rows of tables in memory are numbered in the order in which a session comes to them,
and `rankFrom` reads the number off the places as off the digits of an odometer. Each source starts
again as often as the combined rows of those in front of it are passed, so the number also tells
what the providers have been asked for: between two moves a session always stands at
`odometer 0 places` (`leads_forwardWithin`). Hence its combined rows are counted (`counted`).
-/

set_option autoImplicit false

namespace SelectEngine.Memory

open Session

variable {catalog : Catalog} {F : Session (Watched Scan) (Watch Unit) → Prop}

/-! ## Ranks and moves -/

/-- The number of a combined row: the places of the sources, in front of which there are others on
their combined row `rank`, are the digits of a number to the base of their row counts. -/
def rankFrom (rank : Nat) (places : List (Place catalog)) : Nat :=
  places.foldl (fun rank p => rank * p.table.rowCount + p.position) rank

/-- The moves that take a provider to a place after so many passes over the whole table: it is
opened, and each pass ends with it starting again. -/
def movesTo (passes : Nat) (p : Place catalog) : List Call :=
  .openTable .read p.name.table :: .first ::
    ((List.replicate passes (List.replicate p.table.rowCount .next ++ p.restart)).flatten ++
      List.replicate p.position .next)

/-- The tracks of sources behind others that have passed `rank` combined rows: a source passes its
table once for each combined row of the sources in front of it. -/
def odometer (rank : Nat) : List (Place catalog) → List (Track catalog)
  | [] => []
  | p :: rest =>
    ⟨p, movesTo rank p⟩ :: odometer (rank * p.table.rowCount + p.position) rest

theorem rankFrom_cons (rank : Nat) (p : Place catalog) (rest : List (Place catalog)) :
    rankFrom rank (p :: rest) = rankFrom (rank * p.table.rowCount + p.position) rest := rfl

theorem rankFrom_append (rank : Nat) (front back : List (Place catalog)) :
    rankFrom rank (front ++ back) = rankFrom (rankFrom rank front) back :=
  List.foldl_append

theorem odometer_append (rank : Nat) (front back : List (Place catalog)) :
    odometer rank (front ++ back) = odometer rank front ++ odometer (rankFrom rank front) back := by
  induction front generalizing rank with
  | nil => rfl
  | cons p rest ih =>
    rw [List.cons_append, odometer, ih, odometer, rankFrom_cons, List.cons_append]

theorem getElem?_odometer (rank i : Nat) (places : List (Place catalog)) :
    (odometer rank places)[i]? =
      places[i]?.map fun p => ⟨p, movesTo (rankFrom rank (places.take i)) p⟩ := by
  induction places generalizing rank i with
  | nil => rfl
  | cons p rest ih =>
    cases i with
    | zero => rfl
    | succ i => exact ih _ i

theorem map_place_odometer (rank : Nat) (places : List (Place catalog)) :
    (odometer rank places).map Track.place = places := by
  induction places generalizing rank with
  | nil => rfl
  | cons p rest ih => rw [odometer, List.map_cons, ih]

theorem length_odometer (rank : Nat) (places : List (Place catalog)) :
    (odometer rank places).length = places.length := by
  have hlength := congrArg List.length (map_place_odometer rank places)
  rwa [List.length_map] at hlength

/-- One row further on the table. -/
theorem movesTo_advanced {p : Place catalog} (h : p.position < p.table.rowCount) (passes : Nat) :
    movesTo passes p.advanced = movesTo passes p ++ [.next] := by
  simp [movesTo, Place.advanced, Place.restart, h, List.replicate_succ']

/-- Starting again behind the last row makes one more pass. -/
theorem movesTo_rewound {p : Place catalog} (h : p.position = p.table.rowCount) (passes : Nat) :
    movesTo (passes + 1) p.rewound = movesTo passes p ++ p.restart := by
  simp [movesTo, Place.rewound, Place.restart, h, List.replicate_succ']

/-- To be behind the last row of a table is to be on its first row with one more combined row of
the sources in front passed. -/
theorem rank_rewound {p : Place catalog} (h : p.position = p.table.rowCount) (rank : Nat) :
    rank * p.table.rowCount + p.position =
      (rank + 1) * p.rewound.table.rowCount + p.rewound.position := by
  rw [h, Nat.succ_mul]
  rfl

/-! ## Starting -/

/-- Taken to the first row. -/
def Track.rewound (t : Track catalog) : Track catalog := ⟨t.place.rewound, t.moves ++ [.first]⟩

theorem leads_count_stands (tracks : List (Track catalog)) :
    Run.Leads (Stands tracks) count (fun n session => n = tracks.length ∧ Stands tracks session)
      F := by
  refine leads_count.weaken (fun _ h => h) ?_ (fun _ h => h)
  rintro n session ⟨h, rfl⟩
  exact ⟨by rw [h.sources, List.length_mapIdx], h⟩

theorem leads_firstEach (front back : List (Track catalog)) :
    Run.Leads (Stands (front ++ back))
      (firstEach (backend catalog).watched (List.range' front.length back.length))
      (fun _ => Stands (front ++ back.map Track.rewound)) F := by
  induction back generalizing front with
  | nil => exact Run.leads_pure fun _ h => h
  | cons t rest ih =>
    rw [List.length_cons, List.range'_succ, firstEach]
    apply Run.leads_bind_value ((asks_first t.place).leads_at front rest t.moves)
    have hrest := ih (front ++ [t.rewound])
    rwa [List.length_append, List.length_singleton, List.append_assoc, List.append_assoc] at hrest

theorem leads_anyEof (front back : List (Track catalog)) :
    Run.Leads (Stands (front ++ back))
      (anyEof (backend catalog).watched (List.range' front.length back.length))
      (fun passed session =>
        passed = (back.any fun t => t.place.ended) ∧ Stands (front ++ back) session) F := by
  induction back generalizing front with
  | nil => exact Run.leads_pure fun _ h => ⟨rfl, h⟩
  | cons t rest ih =>
    rw [List.length_cons, List.range'_succ, anyEof, List.any_cons]
    have heof := (asks_eof t.place).leads_at front rest t.moves (F := F)
    rw [List.append_nil] at heof
    apply Run.leads_bind_value heof
    cases t.place.ended with
    | true => exact Run.leads_pure fun _ h => ⟨rfl, h⟩
    | false =>
      have hrest := ih (front ++ [t])
      rwa [List.length_append, List.length_singleton, List.append_assoc] at hrest

/-- All sources are taken to their first rows; there is a combined row if none is behind its last
row. -/
theorem leads_start (tracks : List (Track catalog)) :
    Run.Leads (Stands tracks) (Session.start (backend catalog).watched)
      (fun found session => found = (tracks.all fun t => !t.place.rewound.ended) ∧
        Stands (tracks.map Track.rewound) session) F := by
  have hfirst := leads_firstEach (F := F) [] tracks
  have heof := leads_anyEof (F := F) [] (tracks.map Track.rewound)
  rw [List.length_nil, ← List.range_eq_range', List.nil_append, List.nil_append] at hfirst
  rw [List.length_nil, ← List.range_eq_range', List.nil_append, List.length_map] at heof
  apply Run.leads_bind_value (leads_count_stands tracks)
  apply Run.leads_bind hfirst
  intro _
  apply Run.leads_bind_value heof
  refine Run.leads_pure fun session h => ⟨?_, h⟩
  rw [List.any_map, ← List.not_any_eq_all_not]
  rfl

/-! ## Going forward -/

/-- The session stands on the combined row of number `rank` of the tables. -/
def OnRank (tables : List (Place catalog)) (rank : Nat)
    (session : Session (Watched Scan) (Watch Unit)) : Prop :=
  ∃ places, SameTables places tables ∧ AllInside (entries places) ∧ rankFrom 0 places = rank ∧
    Stands (odometer 0 places) session

/-- The first source is behind its last row and the others are on their first rows. -/
def Exhausted : List (Place catalog) → Prop
  | [] => True
  | p :: rest => p.position = p.table.rowCount ∧ ∀ q ∈ rest, q.position = 0

/-- The session has passed all combined rows of the tables. -/
def Passed (tables : List (Place catalog)) (session : Session (Watched Scan) (Watch Unit)) : Prop :=
  ∃ places, SameTables places tables ∧ Exhausted places ∧ Stands (odometer 0 places) session

/-- A source behind others on their combined row `rank` does what it is asked at its place in the
odometer. -/
theorem Asks.leads_odometer {α : Type} {x : Run (Source (Watched Scan) × Watch Unit) α}
    {p q : Place catalog} {moves : List Call} {a : α} (h : Asks x p moves q a)
    (front : List (Place catalog)) (back : List (Track catalog)) {passes later : Nat}
    (hmoves : movesTo later q = movesTo passes p ++ moves) :
    Run.Leads (Stands (odometer 0 front ++ ⟨p, movesTo passes p⟩ :: back))
      (Session.at_ front.length x)
      (fun b session =>
        b = a ∧ Stands (odometer 0 front ++ ⟨q, movesTo later q⟩ :: back) session) F := by
  have hleads := h.leads_at (odometer 0 front) back (movesTo passes p) (F := F)
  rwa [length_odometer, ← hmoves] at hleads

theorem odometer_singleton_append (front : List (Place catalog)) (p : Place catalog)
    (back : List (Track catalog)) :
    odometer 0 (front ++ [p]) ++ back =
      odometer 0 front ++ ⟨p, movesTo (rankFrom 0 front) p⟩ :: back := by
  rw [odometer_append, List.append_assoc]
  rfl

/-- Within the sources in front, those behind having just started again, the session goes to the
next combined row, or past the last one. The induction is on the sources in front, from the last
one: one that runs out starts again and joins those behind. -/
theorem leads_forwardWithin {tables : List (Place catalog)} {rank : Nat}
    (front back : List (Place catalog)) (ht : SameTables (front ++ back) tables)
    (hin : AllInside (entries front)) (hback : Fresh back) (hends : front = [] → back = [])
    (hrank : rankFrom (rankFrom 0 front + 1) back = rank) :
    Run.Leads (Stands (odometer 0 front ++ odometer (rankFrom 0 front + 1) back))
      (forwardWithin (backend catalog).watched front.length)
      (fun found => if found then OnRank tables rank else Passed tables) F := by
  induction front using List.reverseRecOn generalizing back with
  | nil =>
    obtain rfl := hends rfl
    exact Run.leads_pure fun _ h => ⟨[], ht, trivial, h⟩
  | append_singleton front p ih =>
    rw [entries_append] at hin
    have hfront : AllInside (entries front) := fun e he => hin e (List.mem_append_left _ he)
    have hp : p.position < p.table.rowCount :=
      hin p.entry (List.mem_append_right _ List.mem_cons_self)
    have hat : rankFrom 0 (front ++ [p]) + 1 =
        rankFrom 0 front * p.advanced.table.rowCount + p.advanced.position := by
      rw [rankFrom_append, Place.position_advanced hp]
      rfl
    rw [hat] at hrank
    rw [odometer_singleton_append, hat, List.length_append, List.length_singleton, forwardWithin]
    generalize hbehind : odometer _ back = behind
    -- The last source in front goes to its next row.
    apply Run.leads_bind_value ((asks_next p).leads_odometer front behind (movesTo_advanced hp _))
    apply Run.leads_bind_value
      ((asks_eof p.advanced).leads_odometer front behind (List.append_nil _).symm)
    have hodometer : odometer 0 front ++
        ⟨p.advanced, movesTo (rankFrom 0 front) p.advanced⟩ :: behind =
          odometer 0 (front ++ p.advanced :: back) := by
      rw [odometer_append, odometer, ← hbehind]
    rw [SameTables, List.append_assoc, List.map_append] at ht
    have hadvanced : SameTables (front ++ p.advanced :: back) tables := List.map_append.trans ht
    cases hended : p.advanced.ended with
    | false =>
      -- It has one.
      refine Run.leads_pure fun session h => ⟨front ++ p.advanced :: back, hadvanced, ?_,
        (rankFrom_append _ _ _).trans hrank, hodometer ▸ h⟩
      refine allInside_append hfront (List.forall_mem_cons.mpr ⟨?_, allInside_fresh hback⟩)
      exact (p.advanced.ended_eq_false_iff).mp hended
    | true =>
      -- It is behind its last row.
      have hfull : p.advanced.position = p.advanced.table.rowCount :=
        Place.position_of_ended hp hended
      cases front with
      | nil =>
        exact Run.leads_pure fun session h =>
          ⟨p.advanced :: back, hadvanced, ⟨hfull, fun q hq => (hback q hq).1⟩, hodometer ▸ h⟩
      | cons first others =>
        -- It starts again, and the sources before it go on.
        have hrows : p.advanced.table.rows ≠ [] := List.length_pos_iff.mp (Nat.zero_lt_of_lt hp)
        rw [rank_rewound hfull] at hbehind hrank
        apply Run.leads_bind_value
          ((asks_reset p.advanced).leads_odometer (first :: others) behind
            (movesTo_rewound hfull _))
        apply Run.leads_bind_value
          ((asks_eof p.advanced.rewound).leads_odometer (first :: others) behind
            (List.append_nil _).symm)
        rw [p.advanced.ended_rewound_eq_false_iff.mpr hrows, ← hbehind]
        exact ih (p.advanced.rewound :: back) (List.map_append.trans ht) hfront
          (fresh_rewound_cons hrows hback) (fun hnil => absurd hnil (List.cons_ne_nil first others))
          hrank

/-! ## Counting the combined rows -/

/-- The session has been through all combined rows of the tables: past the last one, or past none if
there are none. -/
inductive Scanned (tables : List (Place catalog))
    (session : Session (Watched Scan) (Watch Unit)) : Prop
  | passed (hrows : ∀ p ∈ tables, p.table.rows ≠ []) (hpassed : Passed tables session)
  | none (hempty : ∃ p ∈ tables, p.table.rows = [])
      (hstands : Stands (odometer 0 (tables.map Place.rewound)) session)

/-- There is a combined row only if no table is empty. -/
theorem rows_ne_nil_of_allInside {places tables : List (Place catalog)}
    (ht : SameTables places tables) (hin : AllInside (entries places)) :
    ∀ p ∈ tables, p.table.rows ≠ [] := by
  intro p hp
  have hmem : p.rewound ∈ places.map Place.rewound := ht ▸ List.mem_map_of_mem hp
  obtain ⟨q, hq, hsame⟩ := List.mem_map.mp hmem
  have htable : q.rewound.table = p.rewound.table := by rw [hsame]
  have hinside : q.position < q.rewound.table.rows.length := hin q.entry (List.mem_map_of_mem hq)
  rw [htable] at hinside
  exact List.length_pos_iff.mp (Nat.zero_lt_of_lt hinside)

/-- The session goes to the combined row of the next number, or past the last one. -/
theorem leads_forward (tables : List (Place catalog)) (rank : Nat) :
    Run.Leads (OnRank tables rank) (Session.forward (backend catalog).watched)
      (fun found => if found then OnRank tables (rank + 1) else Scanned tables) F := by
  rintro session ⟨places, htables, hin, rfl, hstands⟩
  have hall : SameTables (places ++ []) tables := (List.append_nil places).symm ▸ htables
  have hforward := leads_forwardWithin (F := F) places [] hall hin nofun (fun _ => rfl) rfl
  rw [odometer, List.append_nil] at hforward
  have hcount := leads_count_stands (F := F) (odometer 0 places)
  rw [length_odometer] at hcount
  refine ((Run.leads_bind_value hcount hforward).weaken (fun _ h => h) ?_ (fun _ h => h)) session
    hstands
  intro found later h
  cases found with
  | false => exact .passed (rows_ne_nil_of_allInside htables hin) h
  | true => exact h

/-- A source that has just been opened. -/
def Place.opened (p : Place catalog) : Track catalog := ⟨p, [.openTable .read p.name.table]⟩

theorem rankFrom_rewound (places : List (Place catalog)) :
    rankFrom 0 (places.map Place.rewound) = 0 := by
  induction places with
  | nil => rfl
  | cons p rest ih =>
    have hrank : 0 * p.rewound.table.rowCount + p.rewound.position = 0 := Nat.zero_mul _
    rw [List.map_cons, rankFrom_cons, hrank, ih]

theorem odometer_rewound (places : List (Place catalog)) :
    (places.map Place.opened).map Track.rewound = odometer 0 (places.map Place.rewound) := by
  induction places with
  | nil => rfl
  | cons p rest ih =>
    have hrank : 0 * p.rewound.table.rowCount + p.rewound.position = 0 := Nat.zero_mul _
    rw [List.map_cons, List.map_cons, List.map_cons, odometer, hrank, ih]
    rfl

/-- Starting leads to the first combined row, unless a table is empty. -/
theorem leads_start_opened (tables : List (Place catalog)) :
    Run.Leads (Stands (tables.map Place.opened)) (Session.start (backend catalog).watched)
      (fun found => if found then OnRank tables 0 else Scanned tables) F := by
  refine (leads_start (tables.map Place.opened)).weaken (fun _ h => h) ?_ (fun _ h => h)
  rintro found session ⟨rfl, hstands⟩
  rw [odometer_rewound] at hstands
  cases hall : (tables.map Place.opened).all fun t => !t.place.rewound.ended with
  | false =>
    obtain ⟨t, ht, hnot⟩ := List.all_eq_false.mp hall
    obtain ⟨p, hp, rfl⟩ := List.mem_map.mp ht
    refine .none ⟨p, hp, ?_⟩ hstands
    by_contra hrows
    exact hnot (congrArg Bool.not (p.ended_rewound_eq_false_iff.mpr hrows))
  | true =>
    refine ⟨tables.map Place.rewound, by simp [SameTables, Place.rewound], ?_,
      rankFrom_rewound tables, hstands⟩
    apply allInside_fresh
    intro q hq
    obtain ⟨p, hp, rfl⟩ := List.mem_map.mp hq
    have hnot := List.all_eq_true.mp hall p.opened (List.mem_map_of_mem hp)
    exact ⟨rfl, p.ended_rewound_eq_false_iff.mp (Bool.not_eq_true' _ ▸ hnot)⟩

/-- The numbers of the combined rows behind those in front of `rank`. -/
theorem rankFrom_lt {places : List (Place catalog)} (hin : AllInside (entries places))
    (rank : Nat) :
    rankFrom rank places < (rank + 1) * (catalog.largest + 1) ^ places.length := by
  induction places generalizing rank with
  | nil => exact Nat.lt_of_lt_of_eq (Nat.lt_succ_self rank) (Nat.mul_one _).symm
  | cons p rest ih =>
    have hp : p.position < p.table.rowCount := hin p.entry List.mem_cons_self
    have hnext : rank * p.table.rowCount + p.position + 1 ≤ (rank + 1) * (catalog.largest + 1) :=
      calc rank * p.table.rowCount + p.position + 1
        _ ≤ (rank + 1) * p.table.rowCount := by rw [Nat.succ_mul]; omega
        _ ≤ (rank + 1) * (catalog.largest + 1) :=
          Nat.mul_le_mul_left _ (Nat.le_succ_of_le p.length_le_largest)
    have hrest := ih (fun e he => hin e (List.mem_cons_of_mem _ he))
      (rank * p.table.rowCount + p.position)
    refine Nat.lt_of_lt_of_le hrest ?_
    rw [List.length_cons, Nat.pow_succ', ← Nat.mul_assoc]
    exact Nat.mul_le_mul_right _ hnext

/-- The combined rows of tables in memory are counted. -/
theorem counted (tables : List (Place catalog)) :
    Counted (backend catalog).watched (Stands (tables.map Place.opened)) (OnRank tables)
      (Scanned tables) ((catalog.largest + 1) ^ tables.length) where
  start := leads_start_opened tables
  forward rank := leads_forward tables rank
  reads rank i position := by
    rintro session ⟨places, htables, hin, hrank, hstands⟩
    have hread := reads_stands (odometer 0 places) i position session hstands
    cases hrun : Session.at_ i (Source.column (backend catalog).watched position) session with
    | ok v later =>
      rw [hrun] at hread
      exact ⟨places, htables, hin, hrank, hread⟩
    | error e later =>
      rw [hrun] at hread
      exact ⟨places, htables, hin, hrank, hread⟩
  below := by
    rintro rank session ⟨places, htables, hin, rfl, -⟩
    have hlength : places.length = tables.length := by
      simpa using congrArg List.length htables
    have hlt := rankFrom_lt hin 0
    rwa [Nat.zero_add, Nat.one_mul, hlength] at hlt
  limit := by
    rintro rank session ⟨places, htables, -, -, hstands⟩
    have hlength : places.length = tables.length := by
      simpa using congrArg List.length htables
    rw [hstands.sources, List.length_mapIdx, length_odometer, hlength]
    exact Nat.le_refl _

end SelectEngine.Memory
