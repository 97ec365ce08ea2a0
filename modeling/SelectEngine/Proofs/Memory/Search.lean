import Mathlib.Algebra.Order.BigOperators.Group.List
import SelectEngine.Proofs.Cursor.Search
import SelectEngine.Proofs.Memory.Work
import SelectEngine.Proofs.Successor

/-!
# The search over the combinations of row positions

The sources of a session over tables in memory stand at a combination of row positions.
`Session.forward` takes them to its successor, although it takes sources back to their first rows on
the way, and finds none exactly if the combination is the last one (`forward_steps`). The loop of a
search (`Search.turn`), which goes on for as long as the WHERE clause does not hold, therefore ends,
and tests no combination twice (`search_ends`).
-/

set_option autoImplicit false

namespace SelectEngine.Memory

open Combination Session

variable {catalog : Catalog} {plan : Plan} {places others : List (Place catalog)}
variable {c : Cursor Scan Unit}

/-- The row positions of places. -/
def positions (places : List (Place catalog)) : List Nat := places.map Place.position

/-- The row positions of the sources of a session. -/
def positionsOf (session : Session Scan Unit) : List Nat :=
  session.sources.map fun source => source.provider.position

theorem positionsOf_session (places : List (Place catalog)) :
    positionsOf (session places) = positions places := List.map_map

theorem inside_iff : Inside (rowCounts places) (positions places) ↔ AllInside (entries places) := by
  simp [Inside, rowCounts, positions, AllInside, entries, Place.entry, Table.rowCount,
    List.forall₂_map_left_iff, List.forall₂_map_right_iff, List.forall₂_same]

theorem SameTables.rowCounts_eq (h : SameTables others places) :
    rowCounts others = rowCounts places := by
  have hcounts := congrArg (List.map fun p => p.table.rowCount) h
  rwa [List.map_map, List.map_map] at hcounts

theorem rowCounts_concat (front : List (Place catalog)) (p : Place catalog) :
    rowCounts (front ++ [p]) = rowCounts front ++ [p.table.rowCount] := List.map_append

theorem positions_concat (front : List (Place catalog)) (p : Place catalog) :
    positions (front ++ [p]) = positions front ++ [p.position] := List.map_append

/-! ## One step -/

/-- What a step of the sources in front leads to while those behind are on their first rows. -/
inductive Stepped (front back places : List (Place catalog)) : Bool → Prop
  | moved (next : List Nat) (hnext : IsSuccessor (rowCounts front) (positions front) next)
      (hplaces : positions places = next ++ positions back) : Stepped front back places true
  | exhausted (hlast : IsLast (rowCounts front) (positions front)) :
      Stepped front back places false

/-- The last source in front has started again, and those before it have made a step. -/
theorem Stepped.carry {front back : List (Place catalog)} {p q : Place catalog} {found : Bool}
    (hfront : Inside (rowCounts front) (positions front)) (hp : p.position + 1 = p.table.rowCount)
    (h : Stepped front (q.rewound :: back) places found) :
    Stepped (front ++ [p]) back places found := by
  cases h with
  | moved next hnext hplaces =>
    refine .moved (next ++ [0]) ?_ (hplaces.trans (List.append_cons next 0 (positions back)))
    rw [rowCounts_concat, positions_concat]
    exact hnext.carry hfront hp
  | exhausted hlast =>
    refine .exhausted ?_
    rw [rowCounts_concat, positions_concat]
    exact hlast.carry hfront hp

/-- The sources in front make a step, those behind having just started again. The induction is on the
sources in front, from the last one: one that runs out starts again and joins those behind. -/
theorem forwardWithin_steps (front back : List (Place catalog))
    (hin : Inside (rowCounts front) (positions front)) (hback : Fresh back) :
    ∃ found places, forwardWithin (backend catalog) front.length (session (front ++ back)) =
        .ok found (session places) ∧
      SameTables places (front ++ back) ∧ Stepped front back places found := by
  induction front using List.reverseRecOn generalizing back with
  | nil => exact ⟨false, back, rfl, rfl, .exhausted isLast_nil⟩
  | append_singleton front p ih =>
    have hsplit := hin
    rw [rowCounts_concat, positions_concat, inside_concat_iff] at hsplit
    obtain ⟨hfront, hp⟩ := hsplit
    have hrows : p.table.rows ≠ [] := List.length_pos_iff.mp (Nat.zero_lt_of_lt hp)
    have hadvanced : SameTables (front ++ p.advanced :: back) (front ++ [p] ++ back) := by
      simp [SameTables, Place.rewound, Place.advanced]
    rw [forwardWithin_concat front back hrows]
    cases hended : p.advanced.ended with
    | false =>
      -- The last source in front has a next row.
      have hinside : p.advanced.position < p.table.rowCount :=
        (p.advanced.ended_eq_false_iff).mp hended
      rw [Place.position_advanced hp] at hinside
      refine ⟨true, front ++ p.advanced :: back, rfl, hadvanced, ?_⟩
      refine .moved (positions front ++ [p.position + 1]) ?_ ?_
      · rw [rowCounts_concat, positions_concat]
        exact .advance hfront hinside
      · simp [positions, Place.position_advanced hp]
    | true =>
      -- It is behind its last row.
      have hfull : p.position + 1 = p.table.rowCount :=
        (Place.position_advanced hp).symm.trans (Place.position_of_ended hp hended)
      cases front with
      | nil =>
        exact ⟨false, p.advanced :: back, rfl, hadvanced, .exhausted (isLast_nil.carry .nil hfull)⟩
      | cons first others =>
        -- It starts again, and the sources before it make the step.
        obtain ⟨found, places, hrun, htables, hstep⟩ :=
          ih (p.advanced.rewound :: back) hfront (fresh_rewound_cons hrows hback)
        refine ⟨found, places, hrun, htables.trans ?_, hstep.carry hfront hfull⟩
        simp [Place.rewound, Place.advanced]

/-- The sources step to the successor of their combination, or find none if it is the last one. They
stay on the same tables. -/
theorem forward_steps (hin : Inside (rowCounts places) (positions places)) :
    ∃ found others, Session.forward (backend catalog) (session places) =
        .ok found (session others) ∧ SameTables others places ∧
      (found = true → IsSuccessor (rowCounts places) (positions places) (positions others)) ∧
      (found = false ↔ IsLast (rowCounts places) (positions places)) := by
  obtain ⟨found, others, hrun, htables, hstep⟩ := forwardWithin_steps places [] hin nofun
  rw [List.append_nil] at hrun htables
  refine ⟨found, others, ?_, htables, ?_⟩
  · rw [Session.forward, Run.bind_of_ok (count_apply places), hrun]
  · cases hstep with
    | moved next hnext hplaces =>
      rw [hplaces.trans (List.append_nil _)]
      exact ⟨fun _ => hnext, fun hfound => absurd hfound.symm Bool.false_ne_true,
        fun hlast => absurd hlast hnext.not_isLast⟩
    | exhausted hlast =>
      exact ⟨fun hfound => absurd hfound Bool.false_ne_true, fun _ => hlast, fun _ => rfl⟩

/-! ## The loop -/

/-- The combinations on which a search has evaluated the WHERE clause, in order. -/
def examined (visited : List (Search Scan Unit)) : List (List Nat) :=
  (Search.candidates visited).map fun c => positionsOf c.session

open Search

theorem onSession_standing {α : Type} {x : Run (Session Scan Unit) α} {a : α}
    (hsession : c.session = session places) (h : x (session places) = .ok a (session others)) :
    Cursor.onSession x c = .ok a (standing c others c.generation) := by
  rw [Cursor.onSession, hsession, h]
  rfl

/-- On a new combination the loop evaluates the WHERE clause, and ends there or goes on. -/
theorem testing_ends (hplan : c.plan = some plan) (hsession : c.session = session places)
    (hin : Inside (rowCounts places) (positions places))
    (hmoving : ∃ visited result,
      Loop.Ends (turn (backend catalog)) (.moving (standing c places (c.generation + 1))) visited
        result ∧ Ascends (rowCounts places) (positions places) (examined visited)) :
    ∃ visited result later, Loop.Ends (turn (backend catalog)) (.testing c) visited result ∧
      examined visited = positions places :: later ∧
      Ascends (rowCounts places) (positions places) later := by
  have hexamined : ∀ rest, examined (.testing c :: rest) = positions places :: examined rest := by
    intro rest
    rw [← positionsOf_session, ← hsession]
    rfl
  have hsatisfied : Cursor.satisfied (backend catalog) (standing c places (c.generation + 1)) =
      (relay (plan.holds (surroundings c.settings c.params places)) : Run _ _)
        (standing c places (c.generation + 1)) :=
    satisfied_apply hplan rfl (inside_iff.mp hin)
  have hturn : turn (backend catalog) (.testing c) =
      Search.tested (Cursor.satisfied (backend catalog) (standing c places (c.generation + 1))) := by
    rw [standing, ← hsession]
    rfl
  rw [hsatisfied] at hturn
  cases hholds : plan.holds (surroundings c.settings c.params places) with
  | error e =>
    rw [hholds] at hturn
    exact ⟨_, _, [], .done hturn, hexamined [], .singleton _⟩
  | ok holds =>
    rw [hholds] at hturn
    cases holds with
    | true => exact ⟨_, _, [], .done hturn, hexamined [], .singleton _⟩
    | false =>
      obtain ⟨visited, result, hends, hascends⟩ := hmoving
      exact ⟨_, result, examined visited, .again hturn hends, hexamined visited, hascends⟩

/-- From a combination the loop goes on from successor to successor. The induction is on how many
combinations may be left. -/
theorem moving_ends {left : Nat} (hplan : c.plan = some plan)
    (hsession : c.session = session places)
    (hin : Inside (rowCounts places) (positions places))
    (hleft : (rowCounts places).prod ≤ rank (rowCounts places) (positions places) + left) :
    ∃ visited result, Loop.Ends (turn (backend catalog)) (.moving c) visited result ∧
      Ascends (rowCounts places) (positions places) (examined visited) := by
  induction left generalizing c places with
  | zero => exact absurd (rank_lt_prod hin) (Nat.not_lt_of_le hleft)
  | succ left ih =>
    obtain ⟨found, others, hrun, htables, hmoved, -⟩ := forward_steps hin
    have hturn : turn (backend catalog) (.moving c) =
        reached (Cursor.onSession (Session.forward (backend catalog)) c) := rfl
    rw [onSession_standing hsession hrun] at hturn
    cases found with
    | false => exact ⟨_, _, .done hturn, .singleton _⟩
    | true =>
      have hnext := hmoved rfl
      have hrank := rank_lt_rank hin hnext.inside hnext.greater
      rw [← htables.rowCounts_eq] at hin hnext hleft hrank ⊢
      obtain ⟨visited, result, later, hends, hexamined, hascends⟩ :=
        testing_ends (c := standing c others c.generation) hplan rfl hnext.inside
          (ih hplan rfl hnext.inside (by omega))
      refine ⟨_, result, .again hturn hends, ?_⟩
      have hskipped : examined (.moving c :: visited) = positions others :: later := hexamined
      rw [hskipped]
      exact .cons_cons hnext hascends

/-- From the start the loop goes on from the first combination, if there is one. -/
theorem rewinding_ends (hplan : c.plan = some plan) (hsession : c.session = session places) :
    ∃ visited result, Loop.Ends (turn (backend catalog)) (.rewinding c) visited result ∧
      (examined visited = [] ∨ ∃ first later, examined visited = first :: later ∧
        Inside (rowCounts places) first ∧ IsFirst (rowCounts places) first ∧
        Ascends (rowCounts places) first later) := by
  have hturn : turn (backend catalog) (.rewinding c) =
      reached (Cursor.onSession (Session.start (backend catalog)) c) := rfl
  rw [onSession_standing hsession (start_apply places)] at hturn
  cases hended : (places.map Place.rewound).any Place.ended with
  | true =>
    rw [hended] at hturn
    exact ⟨_, _, .done hturn, Or.inl rfl⟩
  | false =>
    rw [hended] at hturn
    have hin := inside_iff.mpr (allInside_fresh (fresh_rewound hended))
    have hcounts : rowCounts (places.map Place.rewound) = rowCounts places := List.map_map
    obtain ⟨visited, result, later, hends, hexamined, hascends⟩ :=
      testing_ends (c := standing c (places.map Place.rewound) c.generation) hplan rfl hin
        (moving_ends hplan rfl hin (Nat.le_add_left _ _))
    rw [hcounts] at hin hascends
    refine ⟨_, result, .again hturn hends, Or.inr ⟨_, later, hexamined, hin, ?_, hascends⟩⟩
    refine isFirst_of_eq_zero hin.length_eq fun p hp => ?_
    obtain ⟨q, hq, rfl⟩ := List.mem_map.mp hp
    obtain ⟨r, -, rfl⟩ := List.mem_map.mp hq
    rfl

/-! ## What the cursor does -/

/-- The loop of a search is done with a result after it has evaluated the WHERE clause on the given
combinations, on each of them once and on no more than there are. -/
structure Searched (catalog : Catalog) (counts : List Nat) (start : Search Scan Unit)
    (combinations : List (List Nat)) (result : Search.Result Scan Unit) : Prop where
  ends : ∃ visited, Loop.Ends (turn (backend catalog)) start visited result ∧
    examined visited = combinations
  nodup : combinations.Nodup
  length_le : combinations.length ≤ counts.prod

/-- The search of a cursor is allowed more combinations than there are. -/
theorem prod_le_limit (hsession : c.session = session places) :
    (rowCounts places).prod ≤ Nat.pow ((backend catalog).rowLimit + 1) c.session.sources.length := by
  have hcounts : ∀ n ∈ rowCounts places, n ≤ catalog.largest + 1 := by
    intro n hn
    obtain ⟨p, -, rfl⟩ := List.mem_map.mp hn
    exact Nat.le_succ_of_le p.length_le_largest
  have hprod := List.prod_le_pow_card (rowCounts places) _ hcounts
  have hlength : c.session.sources.length = (rowCounts places).length := by
    rw [hsession, rowCounts, List.length_map]
    exact List.length_map _
  rw [hlength]
  exact hprod

/-- Where the sources stand on a combination of rows, they step to its successor in lexicographic
order, and find none exactly if it is the last one. So the search for a row ends, whatever the WHERE
clause says: its loop goes on from successor to successor, and thereby evaluates the clause on no
combination twice. -/
theorem search_ends (hplan : c.plan = some plan) (hsession : c.session = session places) :
    (Inside (rowCounts places) (positions places) →
      ∃ found others, Session.forward (backend catalog) c.session = .ok found (session others) ∧
        SameTables others places ∧
        (found = true → IsSuccessor (rowCounts places) (positions places) (positions others)) ∧
        (found = false ↔ IsLast (rowCounts places) (positions places))) ∧
    (c.state ∈ [.opened, .positioned, .eof] →
      ∃ combinations result,
        Searched catalog (rowCounts places) (.rewinding c) combinations result ∧
        Cursor.first (backend catalog) c = Cursor.land (fun _ => result) c ∧
        ∀ first later, combinations = first :: later →
          IsFirst (rowCounts places) first ∧ Ascends (rowCounts places) first later) ∧
    (c.state = .positioned → Inside (rowCounts places) (positions places) →
      ∃ combinations result, Searched catalog (rowCounts places) (.moving c) combinations result ∧
        Cursor.next (backend catalog) c = Cursor.land (fun _ => result) c ∧
        Ascends (rowCounts places) (positions places) combinations) := by
  have hlimit := prod_le_limit hsession
  refine ⟨fun hin => hsession ▸ forward_steps hin, fun hstate => ?_, fun hstate hin => ?_⟩
  · obtain ⟨visited, result, hends, hexamined⟩ := rewinding_ends hplan hsession
    have hcandidates : (candidates visited).length = (examined visited).length :=
      (List.length_map _).symm
    have hsearched : (examined visited).Nodup ∧
        (examined visited).length ≤ (rowCounts places).prod ∧
        ∀ first later, examined visited = first :: later →
          IsFirst (rowCounts places) first ∧ Ascends (rowCounts places) first later := by
      rcases hexamined with hnone | ⟨first, later, hsome, hin, hfirst, hascends⟩
      · rw [hnone]
        exact ⟨List.nodup_nil, Nat.zero_le _, nofun⟩
      · have hlength := hascends.rank_add_length_lt hin
        rw [hsome]
        refine ⟨hascends.nodup, ?_, ?_⟩
        · rw [List.length_cons]
          omega
        · rintro _ _ ⟨⟩
          exact ⟨hfirst, hascends⟩
    obtain ⟨hnodup, hlength, hfirst⟩ := hsearched
    refine ⟨examined visited, result, ⟨⟨visited, hends, rfl⟩, hnodup, hlength⟩, ?_, hfirst⟩
    exact Cursor.first_of_ends hends hstate (by omega)
  · obtain ⟨visited, result, hends, hascends⟩ :=
      moving_ends hplan hsession hin (Nat.le_add_left _ _)
    have hcandidates : (candidates visited).length = (examined visited).length :=
      (List.length_map _).symm
    have hlength := hascends.rank_add_length_lt hin
    refine ⟨examined visited, result, ⟨⟨visited, hends, rfl⟩, ?_, by omega⟩, ?_, hascends⟩
    · exact (List.nodup_cons.mp hascends.nodup).2
    · exact Cursor.next_of_ends hends hstate (by omega)

/-- A cursor that has been prepared is closed, or its sources stand at places, whatever was asked of
it. -/
theorem standing_after {registry : Registry} {settings : Settings} {text : String}
    (h : Cursor.prepare (backend catalog) registry settings text () = .ok c)
    (requests : List Cursor.Request) :
    ∃ plan, c.plan = some plan ∧
      Standing catalog plan settings (c.after (backend catalog) requests) := by
  cases hplan : Plan.ofText catalog registry settings text with
  | error e =>
    rw [prepare_of_error hplan] at h
    cases h
  | ok plan =>
    obtain ⟨c', places, hprepare, -, hrunning⟩ := prepare_of_plan hplan
    obtain rfl : c' = c := Except.ok.inj (hprepare.symm.trans h)
    exact ⟨plan, hrunning.plan_eq, .after (Or.inr ⟨places, hrunning⟩) requests⟩

/-- From the first row of a self join that satisfies the WHERE clause, the inner source goes back to
its first row on the way to the next one. -/
theorem search_ends_self_join :
    ∃ (c : Cursor Scan Unit) (combinations : List (List Nat)) (result : Search.Result Scan Unit),
      Cursor.prepare (backend oneTable) .empty .default
        "SELECT x.a, y.a + 1 FROM t x, t y WHERE y.a > 1" () = .ok c ∧
      Searched oneTable [2, 2] (.moving (c.after (backend oneTable) [.execute .empty, .first]))
        combinations result ∧
      Cursor.next (backend oneTable) (c.after (backend oneTable) [.execute .empty, .first]) =
        Cursor.land (fun _ => result) (c.after (backend oneTable) [.execute .empty, .first]) ∧
      Ascends [2, 2] [0, 1] combinations := by
  have hrun : ((Cursor.prepare (backend oneTable) .empty .default
      "SELECT x.a, y.a + 1 FROM t x, t y WHERE y.a > 1" ()).toOption.map fun c =>
        (c.plan.map (·.rowCounts oneTable),
          (c.after (backend oneTable) [.execute .empty, .first]).state,
          positionsOf (c.after (backend oneTable) [.execute .empty, .first]).session)) =
      some (some [2, 2], .positioned, [0, 1]) := by
    decide +kernel
  cases hprepare : Cursor.prepare (backend oneTable) .empty .default
      "SELECT x.a, y.a + 1 FROM t x, t y WHERE y.a > 1" () with
  | error e =>
    rw [hprepare] at hrun
    cases hrun
  | ok c =>
    rw [hprepare] at hrun
    obtain ⟨hcounts, hrest⟩ := Prod.mk.inj (Option.some.inj hrun)
    obtain ⟨hstate, hpositions⟩ := Prod.mk.inj hrest
    obtain ⟨plan, hplan, hclosed | ⟨places, hrunning⟩⟩ :=
      standing_after hprepare [.execute .empty, .first]
    · rw [hstate] at hclosed
      cases hclosed
    · rw [hplan] at hcounts
      have htwo : rowCounts places = [2, 2] :=
        (rowCounts_eq hrunning.names).trans (Option.some.inj hcounts)
      have hin := inside_iff.mpr (hrunning.inside hstate)
      obtain ⟨-, -, hnext⟩ := search_ends hrunning.plan_eq hrunning.session_eq
      obtain ⟨combinations, result, hsearched, hlands, hascends⟩ := hnext hstate hin
      rw [hrunning.session_eq, positionsOf_session] at hpositions
      rw [htwo] at hsearched hascends
      rw [hpositions] at hascends
      exact ⟨c, combinations, result, rfl, hsearched, hlands, hascends⟩

end SelectEngine.Memory
