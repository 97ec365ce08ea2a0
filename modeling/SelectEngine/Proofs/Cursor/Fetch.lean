import SelectEngine.Proofs.Cursor.Search
import SelectEngine.Query

/-!
# Reading all rows as a loop

`Cursor.fetchAll` searches for a row, reads it and searches for the next one, with a limit on each
search and on the rows. `Fetch.turn` does the same turn by turn and without a limit. What is fetched
is what the loop ends with, unless the fetch is given up, and then the loop has tested more combined
rows than the limit of a search without an end (`Cursor.limited_fetchAll`). A loop that ends before
is fetched to its end, whatever the backend (`Cursor.fetchAll_of_ends`).
-/

set_option autoImplicit false

namespace SelectEngine

variable {σ γ : Type}

/-- Where the reading of all rows is, with the rows that have been read so far. -/
inductive Fetch (σ γ : Type) where
  /-- In the middle of a search for the next row. -/
  | searching (search : Search σ γ) (read : List (List Value))
  /-- On a row that it is about to read. -/
  | reading (c : Cursor σ γ) (read : List (List Value))

namespace Fetch

/-- What reading all rows gives. -/
abbrev Result (σ γ : Type) := EStateM.Result Error (Cursor σ γ) (Option (List (List Value)))

/-- A search has ended, and the cursor enters the state that this leaves it in. -/
def landed (read : List (List Value)) : Search.Result σ γ → Loop.Turn (Fetch σ γ) (Result σ γ)
  | .ok .row c => .again (.reading { c with state := .positioned } read)
  | .ok .ended c => .done (.ok (some read) { c with state := .eof })
  | .ok .givenUp c => .done (.ok none { c with state := .bad })
  | .error e c => .done (.error e { c with state := .bad })

/-- About to go to the first row, the cursor having been executed. -/
def start (params : Params) (c : Cursor σ γ) : Fetch σ γ :=
  .searching (.rewinding { c with params, state := .opened, generation := c.generation + 1 }) []

/-- One turn: a turn of the search, or the reading of a row. -/
def turn (B : Backend σ γ) : Fetch σ γ → Loop.Turn (Fetch σ γ) (Result σ γ)
  | searching search read =>
    match search.turn B with
    | .again later => .again (.searching later read)
    | .done result => landed read result
  | reading c read =>
    match Cursor.row B c with
    | .ok current c => .again (.searching (.moving c) (read ++ [current]))
    | .error e c => .done (.error e c)

/-- The cursor on the combined row that is about to be tested. -/
def candidate? : Fetch σ γ → Option (Cursor σ γ)
  | searching search _ => search.candidate?
  | reading _ _ => none

/-- The cursor on each combined row that the WHERE clause was evaluated on, in order. -/
def candidates (visited : List (Fetch σ γ)) : List (Cursor σ γ) := visited.filterMap candidate?

variable {B : Backend σ γ} {origin state : Fetch σ γ} {front visited : List (Fetch σ γ)}
variable {search later : Search σ γ} {searched : List (Search σ γ)} {read : List (List Value)}
variable {result found : Result σ γ} {limit bound : Nat}

theorem candidates_searching (searched : List (Search σ γ)) (read : List (List Value)) :
    candidates (searched.map fun search => searching search read) = Search.candidates searched :=
  List.filterMap_map

/-! ## Turns -/

theorem turn_of_again (h : search.turn B = .again later) :
    turn B (.searching search read) = .again (.searching later read) := by
  rw [turn, h]

theorem turn_of_done {result : Search.Result σ γ} (h : search.turn B = .done result) :
    turn B (.searching search read) = landed read result := by
  rw [turn, h]

theorem turn_of_row {c later : Cursor σ γ} {current : List Value}
    (h : Cursor.row B c = .ok current later) :
    turn B (.reading c read) = .again (.searching (.moving later) (read ++ [current])) := by
  rw [turn, h]

theorem turn_of_error {c later : Cursor σ γ} {e : Error} (h : Cursor.row B c = .error e later) :
    turn B (.reading c read) = .done (.error e later) := by
  rw [turn, h]

/-! ## Searches within the loop -/

/-- The loop goes through a search as the search goes on. -/
theorem comes_searching (h : Loop.Comes (Search.turn B) search searched later) :
    Loop.Comes (turn B) (.searching search read) (searched.map fun search => searching search read)
      (.searching later read) := by
  induction h with
  | here search => exact .here _
  | again hturn _ ih => exact .again (turn_of_again hturn) ih

/-- Behind a search that ends on a row the loop is about to read it. -/
theorem comes_reading {c : Cursor σ γ}
    (h : Loop.Ends (Search.turn B) search searched (.ok .row c)) :
    Loop.Comes (turn B) (.searching search read) (searched.map fun search => searching search read)
      (.reading { c with state := .positioned } read) := by
  generalize hresult : EStateM.Result.ok Landing.row c = result at h
  induction h with
  | done hturn =>
    subst hresult
    exact .again (turn_of_done hturn) (.here _)
  | again hturn _ ih => exact .again (turn_of_again hturn) (ih hresult)

/-- A search that is the last one ends the loop. -/
theorem ends_searching {result : Search.Result σ γ} {found : Result σ γ}
    (h : Loop.Ends (Search.turn B) search searched result)
    (hlanded : landed read result = .done found) :
    Loop.Ends (turn B) (.searching search read) (searched.map fun search => searching search read)
      found := by
  induction h with
  | done hturn => exact .done ((turn_of_done hturn).trans hlanded)
  | again hturn _ ih => exact .again (turn_of_again hturn) (ih hlanded)

/-- The loop is never given up. -/
theorem isSome_of_ends {rows : Option (List (List Value))} {c : Cursor σ γ}
    (h : Loop.Ends (turn B) origin visited (.ok rows c)) : rows.isSome = true := by
  obtain ⟨last, -, hturn⟩ := h.exists_done
  cases last with
  | reading on read =>
    cases hrow : Cursor.row B on with
    | ok current later =>
      rw [turn_of_row hrow] at hturn
      cases hturn
    | error e later =>
      rw [turn_of_error hrow] at hturn
      cases hturn
  | searching search read =>
    cases hsearch : search.turn B with
    | again later =>
      rw [turn_of_again hsearch] at hturn
      cases hturn
    | done result =>
      rw [turn_of_done hsearch] at hturn
      cases result with
      | error e later => cases hturn
      | ok landing later =>
        obtain rfl | ⟨rfl, -⟩ := Search.lands_of_ends (.done hsearch)
        · cases hturn
          rfl
        · cases hturn

/-! ## Fetches with a limit -/

/-- A fetch may be given up anywhere. -/
inductive GivenUp : Fetch σ γ → Result σ γ → Prop
  | anywhere (state : Fetch σ γ) (c : Cursor σ γ) : GivenUp state (.ok none c)

/-- What a fetch with limits has to do with the loop. -/
abbrev Limited (B : Backend σ γ) : Fetch σ γ → Nat → Result σ γ → Prop :=
  Loop.Limited (turn B) candidate? GivenUp

/-- What is fetched behind a move, `last` being fetched from the row on which it has ended. -/
def behind (read : List (List Value)) (last : Cursor σ γ → Result σ γ) :
    Search.Result σ γ → Result σ γ
  | .ok .row c => last c
  | .ok .ended c => .ok (some read) c
  | .ok .givenUp c => .ok none c
  | .error e c => .error e c

/-- A search, and behind it the rest of the fetch. -/
theorem limited_search {c : Cursor σ γ} {move : Run (Cursor σ γ) Landing}
    {last : Cursor σ γ → Result σ γ} (hmove : Search.Limited B search bound (move c))
    (hbound : bound ≤ limit + 1)
    (hlast : ∀ later, Cursor.land move c = .ok .row later →
      Limited B (.reading later read) limit (last later)) :
    Limited B (.searching search read) bound (behind read last (Cursor.land move c)) := by
  unfold Cursor.land at hlast ⊢
  generalize move c = result at hmove hlast
  cases hmove with
  | stopped h hstopped hlimit =>
    cases hstopped
    refine .stopped (comes_searching h) (.anywhere _ _) ?_
    rwa [← candidates, candidates_searching]
  | done h =>
    cases result with
    | error e later => exact .done (ends_searching h rfl)
    | ok landing later =>
      obtain rfl | ⟨rfl, hpos⟩ := Search.lands_of_ends h
      · exact .done (ends_searching h rfl)
      · -- The search has tested the row that it ends on, which makes up for the one in the bound.
        refine (hlast _ rfl).behind (comes_reading h) ?_
        rw [← candidates, candidates_searching]
        omega

end Fetch

namespace Cursor

open Fetch

variable {B : Backend σ γ} {c : Cursor σ γ} {n : Nat}

/-- The rows that have been read, and behind them at most so many others. -/
def drainBehind (B : Backend σ γ) (limit : Nat) (read : List (List Value)) :
    Run (Cursor σ γ) (Option (List (List Value))) := do
  let rows ← drain B limit
  pure (rows.map (read ++ ·))

theorem drainBehind_nil (limit : Nat) : drainBehind B limit [] c = drain B limit c := by
  rw [drainBehind, Run.bind_apply]
  cases drain B limit c with
  | error e later => rfl
  | ok rows later => simp

theorem drainBehind_succ (limit : Nat) (read : List (List Value)) :
    drainBehind B (limit + 1) read c =
      match row B c with
      | .error e later => .error e later
      | .ok current later =>
        behind (read ++ [current]) (drainBehind B limit (read ++ [current])) (next B later) := by
  simp only [drainBehind, drain, Run.bind_apply]
  cases row B c with
  | error e later => rfl
  | ok current later =>
    dsimp only
    cases next B later with
    | error e last => rfl
    | ok landing last =>
      cases landing with
      | ended | givenUp => rfl
      | row =>
        dsimp only [behind]
        rw [Run.bind_apply, Run.bind_apply]
        cases drain B limit last with
        | error e _ => rfl
        | ok rows _ => simp [Function.comp_def]

/-- A cursor on a row of so many sources. -/
def OnRow (n : Nat) : Cursor σ γ → Prop :=
  Over (fun c => c.state = .positioned) fun session => session.sources.length = n

theorem onRow_of_row {current : List Value} {later : Cursor σ γ} (h : OnRow n c)
    (hrow : row B c = .ok current later) : OnRow n later := by
  have hleads := leads_row (leads_column_kept (c := c) (Session.driven_length B n).column)
  have hfinal := hleads c ⟨Kept.refl c, h.2⟩
  rw [hrow] at hfinal
  exact ⟨hfinal.1.state_eq.trans h.1, hfinal.2⟩

/-- The rows behind the current one. The induction is on their limit, of which each row uses one up.
-/
theorem limited_drain {limit : Nat} (hlimit : limit ≤ Nat.pow (B.rowLimit + 1) n) (h : OnRow n c)
    (read : List (List Value)) :
    Limited B (.reading c read) limit (drainBehind B limit read c) := by
  induction limit generalizing c read with
  | zero => exact .stopped (.here _) (.anywhere _ _) (Nat.zero_le _)
  | succ limit ih =>
    rw [drainBehind_succ]
    cases hrow : row B c with
    | error e later => exact .done (.done (turn_of_error hrow))
    | ok current later =>
      have hlater := onRow_of_row h hrow
      have hsearch := (limited_onward B later).mono (hlater.2.symm ▸ hlimit)
      dsimp only
      rw [next_eq_land B hlater.1]
      refine Loop.Limited.behind (limited_search hsearch (Nat.le_refl _) ?_)
        (.again (turn_of_row hrow) (.here _)) (Nat.le_add_left _ _)
      -- The search lands on a row of as many sources, so that the next one has the same limit.
      intro last hlast
      rw [← next_eq_land B hlater.1] at hlast
      have hlands := next_lands (Session.driven_length B n) (fun _ _ => Nat.zero_le _)
        hlater.1 hlater.2
      rw [hlast] at hlands
      exact ih (Nat.le_of_succ_le hlimit) ⟨hlands.1.state_eq, hlands.2⟩ _

/-- Where a cursor admits to be executed, it fetches what the loop ends with, or it is given up, and
then the loop has tested more combined rows than the backend expects at most. -/
theorem limited_fetchAll (params : Params)
    (hstate : c.state ∈ [.prepared, .opened, .positioned, .eof]) :
    Limited B (.start params c) (Nat.pow (B.rowLimit + 1) c.session.sources.length + 1)
      (fetchAll B params c) := by
  let executed : Cursor σ γ := { c with params, state := .opened, generation := c.generation + 1 }
  have hopened : executed.state ∈ [CursorState.opened, .positioned, .eof] := List.mem_cons_self
  have hfetch : fetchAll B params c =
      behind [] (fun later => drain B (Nat.pow (B.rowLimit + 1) later.session.sources.length) later)
        (first B executed) := by
    rw [fetchAll, Run.bind_of_ok (execute_admitted params hstate), Run.bind_apply]
    cases first B executed with
    | error e later => rfl
    | ok landing later => cases landing <;> rfl
  rw [hfetch, first_eq_land B hopened]
  refine limited_search (limited_start B executed) (Nat.le_refl _) fun later hlater => ?_
  rw [← first_eq_land B hopened] at hlater
  have hlands := first_lands (Session.driven_length B c.session.sources.length)
    (fun _ _ => Nat.zero_le _) hopened rfl
  rw [hlater] at hlands
  obtain ⟨hmoved, hlength⟩ := hlands
  rw [← drainBehind_nil, hlength]
  exact limited_drain (Nat.le_refl _) ⟨hmoved.state_eq, hlength⟩ []

/-- A loop that ends before it has tested more combined rows than the backend expects is fetched to
its end. -/
theorem fetchAll_of_ends {params : Params} {visited : List (Fetch σ γ)} {result : Result σ γ}
    (hstate : c.state ∈ [.prepared, .opened, .positioned, .eof])
    (h : Loop.Ends (turn B) (.start params c) visited result)
    (hlimit : (candidates visited).length ≤ Nat.pow (B.rowLimit + 1) c.session.sources.length) :
    fetchAll B params c = result :=
  (limited_fetchAll params hstate).eq_of_ends h (Nat.lt_succ_of_le hlimit)

end Cursor

end SelectEngine
