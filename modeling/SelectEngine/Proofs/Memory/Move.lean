import Mathlib.Data.List.Induction
import SelectEngine.Proofs.Memory.Place

/-!
# Moving over the combined rows of tables in memory

`Session.start` takes all places to their first rows, and finds a combined row if every table has a
row (`start_apply`). `Session.forward` takes the places to the next combination in lexicographic
order, and finds none exactly at the last one (`forward_apply`). Neither changes which tables the
session is on.
-/

set_option autoImplicit false

namespace SelectEngine.Memory

open Session

variable {catalog : Catalog}

theorem firstEach_apply (front back : List (Place catalog)) :
    firstEach (backend catalog) (List.range' front.length back.length) (session (front ++ back)) =
      .ok () (session (front ++ back.map Place.rewound)) := by
  induction back generalizing front with
  | nil => simp [firstEach]
  | cons p rest ih =>
    have hlength : (front ++ [p.rewound]).length = front.length + 1 := by simp
    have hrest := ih (front ++ [p.rewound])
    rw [hlength, List.append_assoc, List.append_assoc] at hrest
    rw [List.length_cons, List.range'_succ, firstEach, Run.bind_of_ok (at_session p.first_apply)]
    exact hrest

theorem anyEof_apply (front back : List (Place catalog)) :
    anyEof (backend catalog) (List.range' front.length back.length) (session (front ++ back)) =
      .ok (back.any Place.ended) (session (front ++ back)) := by
  induction back generalizing front with
  | nil => simp [anyEof]
  | cons p rest ih =>
    have hlength : (front ++ [p]).length = front.length + 1 := by simp
    have hrest := ih (front ++ [p])
    rw [hlength, List.append_assoc] at hrest
    rw [List.length_cons, List.range'_succ, anyEof, Run.bind_of_ok (at_session p.eof_apply),
      List.any_cons]
    cases p.ended with
    | true => rfl
    | false => exact hrest

theorem count_apply (places : List (Place catalog)) :
    count (session places) = .ok places.length (session places) := by
  simp [count, Run.bind_apply, session]

/-- All places go to their first rows; there is a combined row if none is behind its last row. -/
theorem start_apply (places : List (Place catalog)) :
    Session.start (backend catalog) (session places) =
      .ok (!(places.map Place.rewound).any Place.ended) (session (places.map Place.rewound)) := by
  have hfirst := firstEach_apply [] places
  have heof := anyEof_apply [] (places.map Place.rewound)
  rw [List.length_nil, List.nil_append, List.nil_append, ← List.range_eq_range'] at hfirst
  rw [List.length_nil, List.nil_append, List.length_map, ← List.range_eq_range'] at heof
  rw [Session.start, Run.bind_of_ok (count_apply places), Run.bind_of_ok hfirst,
    Run.bind_of_ok heof]
  rfl

/-- Two lists of places on the same tables. -/
def SameTables (places others : List (Place catalog)) : Prop :=
  places.map Place.rewound = others.map Place.rewound

/-- Places that were just taken to the first rows of tables that have rows. -/
def Fresh (places : List (Place catalog)) : Prop :=
  ∀ p ∈ places, p.position = 0 ∧ p.table.rows ≠ []

/-- The rows of the tables of places. -/
def tablesOf (places : List (Place catalog)) : List (List (List Value)) :=
  places.map fun p => p.table.rows

/-- Places of which none is behind its last row when it is taken to its first. -/
theorem fresh_rewound {places : List (Place catalog)}
    (h : (places.map Place.rewound).any Place.ended = false) : Fresh (places.map Place.rewound) := by
  intro q hq
  obtain ⟨p, hmem, rfl⟩ := List.mem_map.mp hq
  have hnot : p.rewound.ended = false := Bool.eq_false_iff.mpr (List.any_eq_false.mp h _ hq)
  exact ⟨rfl, p.ended_rewound_eq_false_iff.mp hnot⟩

theorem entries_fresh {places : List (Place catalog)} (h : Fresh places) :
    entries places = (tablesOf places).map (·, 0) := by
  simp only [entries, tablesOf, List.map_map]
  refine List.map_congr_left fun p hp => ?_
  simp [Place.entry, (h p hp).1]

theorem allInside_fresh {places : List (Place catalog)} (h : Fresh places) :
    AllInside (entries places) := by
  rw [entries_fresh h]
  refine allInside_start fun rows hrows => ?_
  obtain ⟨p, hp, rfl⟩ := List.mem_map.mp hrows
  exact (h p hp).2

theorem allInside_append {front back : List (Place catalog)} (hfront : AllInside (entries front))
    (hback : AllInside (entries back)) : AllInside (entries (front ++ back)) := by
  intro e he
  rw [entries_append] at he
  rcases List.mem_append.mp he with he | he
  · exact hfront e he
  · exact hback e he

/-- What a move of the places in front leads to when those behind are fresh: if `later` are the
combinations of the places in front that remain, each is continued by all of those behind. -/
structure Moved (front back : List (Place catalog)) (later : List CombinedRow)
    (places : List (Place catalog)) : Prop where
  tables : SameTables places (front ++ back)
  inside : later ≠ [] → AllInside (entries places)
  onward : later ≠ [] → onward (entries places) =
    later.flatMap fun c => (product (tablesOf back)).map (c ++ ·)

theorem fresh_rewound_cons {p : Place catalog} {back : List (Place catalog)}
    (h : p.table.rows ≠ []) (hback : Fresh back) : Fresh (p.rewound :: back) := by
  intro q hq
  rcases List.mem_cons.mp hq with rfl | hq
  · exact ⟨rfl, h⟩
  · exact hback q hq

theorem Moved.of_rewound {front back places : List (Place catalog)} {p q : Place catalog}
    {later : List CombinedRow} (hq : q.rewound = p.rewound) (hrows : q.table.rows = p.table.rows)
    (h : Moved front (q.rewound :: back) later places) :
    Moved (front ++ [p]) back (later.flatMap fun c => p.table.rows.map (c ++ [·])) places := by
  have nonempty : (later.flatMap fun c => p.table.rows.map (c ++ [·])) ≠ [] → later ≠ [] := by
    rintro hne rfl
    exact hne rfl
  refine ⟨?_, fun hne => h.inside (nonempty hne), fun hne => ?_⟩
  · have ht : places.map Place.rewound = _ := h.tables
    have hpq : q.rewound.rewound = p.rewound := hq
    simp only [SameTables, ht, List.map_append, List.map_cons, List.append_assoc,
      List.singleton_append, hpq]
  · rw [h.onward (nonempty hne), List.flatMap_assoc]
    have hq' : q.rewound.table.rows = p.table.rows := hrows
    simp only [tablesOf, List.map_cons, hq', product, List.map_flatMap, List.flatMap_map,
      List.map_map, Function.comp_def, List.append_assoc, List.singleton_append]

/-- Behind the current combination come the later rows of the last place with the current rows of
those before it, then all its rows with each later combination of those. -/
theorem later_of_onward {front : List (Place catalog)} {p : Place catalog} {current : CombinedRow}
    {later more : List CombinedRow} (hfront : AllInside (entries front))
    (hp : p.position < p.table.rows.length)
    (hmore : onward (entries front) = combination (entries front) :: more)
    (h : onward (entries front ++ entries [p]) = current :: later) :
    later = (p.table.rows.drop (p.position + 1)).map (combination (entries front) ++ [·]) ++
      more.flatMap fun c => p.table.rows.map (c ++ [·]) := by
  have hsplit := onward_concat (entries front) p.table.rows p.position hfront hmore
  rw [List.drop_eq_getElem_cons hp, List.map_cons, List.cons_append] at hsplit
  exact (List.cons.inj (h.symm.trans hsplit)).2

/-- The last place in front has gone to its next row. -/
theorem Moved.of_advanced {front back : List (Place catalog)} {p : Place catalog}
    {later : List CombinedRow} (hback : Fresh back)
    (hinside : AllInside (entries (front ++ [p.advanced])))
    (honward : SelectEngine.onward (entries (front ++ [p.advanced])) = later) :
    Moved (front ++ [p]) back later (front ++ p.advanced :: back) := by
  refine ⟨?_, fun _ => ?_, fun _ => ?_⟩
  · simp [SameTables, Place.rewound, Place.advanced]
  · have hall := allInside_append hinside (allInside_fresh hback)
    rwa [List.append_assoc, List.singleton_append] at hall
  · have hall := onward_append_start (entries (front ++ [p.advanced])) (tablesOf back)
    rwa [← entries_fresh hback, ← entries_append, honward, List.append_assoc,
      List.singleton_append] at hall

/-- A place that has ended has no row behind the one it was on. -/
theorem drop_of_ended {p : Place catalog} (hp : p.position < p.table.rows.length)
    (hended : p.advanced.ended = true) : p.table.rows.drop (p.position + 1) = [] := by
  have hfull := Place.position_of_ended hp hended
  rw [Place.position_advanced hp] at hfull
  exact List.drop_eq_nil_of_le (Nat.le_of_eq hfull.symm)

/-- Rows that continue combinations leave none only if there are no combinations. -/
theorem isEmpty_continued {rows : List (List Value)} (h : rows ≠ []) (more : List CombinedRow) :
    (more.flatMap fun c => rows.map (c ++ [·])).isEmpty = more.isEmpty := by
  cases more with
  | nil => rfl
  | cons c cs =>
    cases rows with
    | nil => exact absurd rfl h
    | cons r rs => rfl

/-- The last place in front goes to its next row. If it has none, it is taken to its first row and the
places before it go on, unless it is the only one. -/
theorem forwardWithin_concat (front : List (Place catalog)) {p : Place catalog}
    (back : List (Place catalog)) (hrows : p.table.rows ≠ []) :
    forwardWithin (backend catalog) (front ++ [p]).length (session (front ++ [p] ++ back)) =
      if p.advanced.ended then
        if front.isEmpty then .ok false (session (front ++ p.advanced :: back))
        else forwardWithin (backend catalog) front.length
          (session (front ++ p.advanced.rewound :: back))
      else .ok true (session (front ++ p.advanced :: back)) := by
  have hrewound : p.advanced.rewound.ended = false :=
    p.advanced.ended_rewound_eq_false_iff.mpr hrows
  rw [List.length_append, List.length_singleton, List.append_assoc, List.singleton_append,
    forwardWithin, Run.bind_of_ok (at_session p.next_apply),
    Run.bind_of_ok (at_session p.advanced.eof_apply)]
  cases p.advanced.ended with
  | false => rfl
  | true =>
    cases front with
    | nil => rfl
    | cons first others =>
      simp only [Bool.not_true, Bool.false_eq_true, if_false, if_true, List.isEmpty_cons,
        List.length_cons, Nat.succ_ne_zero]
      rw [← List.length_cons, Run.bind_of_ok (at_session p.advanced.reset_apply),
        Run.bind_of_ok (at_session p.advanced.rewound.eof_apply), hrewound]
      rfl

/-- The induction is on the places in front, from the last one: one that runs out is taken to its
first row and joins those behind. -/
theorem forwardWithin_apply (front back : List (Place catalog)) {current : CombinedRow}
    {later : List CombinedRow} (hin : AllInside (entries front)) (hback : Fresh back)
    (h : onward (entries front) = current :: later) :
    ∃ places, forwardWithin (backend catalog) front.length (session (front ++ back)) =
        .ok (!later.isEmpty) (session places) ∧ Moved front back later places := by
  induction front using List.reverseRecOn generalizing back current later with
  | nil =>
    simp only [entries, List.map_nil, onward, List.cons.injEq] at h
    obtain ⟨-, rfl⟩ := h
    exact ⟨back, rfl, rfl, fun hne => absurd rfl hne, fun hne => absurd rfl hne⟩
  | append_singleton front p ih =>
    rw [entries_append] at hin h
    have hfront : AllInside (entries front) := fun e he => hin e (List.mem_append_left _ he)
    have hp : p.position < p.table.rows.length :=
      hin p.entry (List.mem_append_right _ List.mem_cons_self)
    have hrows : p.table.rows ≠ [] := List.length_pos_iff.mp (Nat.zero_lt_of_lt hp)
    obtain ⟨more, hmore⟩ := onward_eq_cons hfront
    have hlater := later_of_onward hfront hp hmore h
    rw [forwardWithin_concat front back hrows]
    cases hended : p.advanced.ended with
    | false =>
      -- The last place in front has a next row.
      have hinside : AllInside (entries (front ++ [p.advanced])) := by
        refine allInside_append hfront fun e he => ?_
        rw [List.mem_singleton.mp he]
        exact (p.advanced.ended_eq_false_iff).mp hended
      have honward : onward (entries (front ++ [p.advanced])) = later := by
        rw [entries_append, hlater]
        show onward (entries front ++ [p.advanced.entry]) = _
        rw [Place.entry_advanced hp]
        exact onward_concat (entries front) p.table.rows (p.position + 1) hfront hmore
      obtain ⟨rest, hrest⟩ := onward_eq_cons hinside
      have hne : later.isEmpty = false := by rw [← honward, hrest]; rfl
      rw [hne]
      exact ⟨front ++ p.advanced :: back, rfl, .of_advanced hback hinside honward⟩
    | true =>
      -- The last place in front is behind its last row.
      rw [drop_of_ended hp hended, List.map_nil, List.nil_append] at hlater
      subst hlater
      cases front with
      | nil =>
        simp only [entries, List.map_nil, onward, List.cons.injEq] at hmore
        obtain ⟨-, rfl⟩ := hmore
        refine ⟨p.advanced :: back, rfl, ?_, fun hne => absurd rfl hne, fun hne => absurd rfl hne⟩
        simp [SameTables, Place.rewound, Place.advanced]
      | cons first others =>
        -- It is taken to its first row, and the places before it go on.
        obtain ⟨places, hrun, hmoved⟩ :=
          ih (p.advanced.rewound :: back) hfront (fresh_rewound_cons hrows hback) hmore
        refine ⟨places, ?_, hmoved.of_rewound rfl rfl⟩
        rw [isEmpty_continued hrows, ← hrun]
        rfl

/-- The places go to the next combination, if there is one. -/
theorem forward_apply (places : List (Place catalog)) {current : CombinedRow}
    {later : List CombinedRow} (hin : AllInside (entries places))
    (h : onward (entries places) = current :: later) :
    ∃ others, Session.forward (backend catalog) (session places) =
        .ok (!later.isEmpty) (session others) ∧ SameTables others places ∧
      (later ≠ [] → AllInside (entries others) ∧ onward (entries others) = later) := by
  obtain ⟨others, hrun, hmoved⟩ :=
    forwardWithin_apply places [] hin (fun p hp => absurd hp List.not_mem_nil) h
  rw [List.append_nil] at hrun
  have htables : SameTables others (places ++ []) := hmoved.tables
  rw [List.append_nil] at htables
  refine ⟨others, ?_, htables, fun hne => ⟨hmoved.inside hne, ?_⟩⟩
  · rw [Session.forward, Run.bind_of_ok (count_apply places), hrun]
  · rw [hmoved.onward hne]
    simp [tablesOf, product, List.flatMap_singleton']

end SelectEngine.Memory
