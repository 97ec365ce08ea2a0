import SelectEngine.Proofs.Cursor.Move
import SelectEngine.Proofs.Loop

/-!
# The search for a row as a loop

`Cursor.first` and `Cursor.next` look for a combined row that satisfies the WHERE clause over a
limited number of combined rows. `Search.turn` is the same search turn by turn and without a limit.
The limited search finds what the loop finds, unless it is given up in the middle of the loop after
as many combined rows as its limit (`Search.Limited`). So what the limit is makes no difference to a
loop that ends before it (`Cursor.first_of_ends`, `Cursor.next_of_ends`).
-/

set_option autoImplicit false

namespace SelectEngine

variable {σ γ : Type}

/-- Where a search is. -/
inductive Search (σ γ : Type) where
  /-- About to take all sources to their first rows. -/
  | rewinding (c : Cursor σ γ)
  /-- About to go to the next combined row. -/
  | moving (c : Cursor σ γ)
  /-- On a combined row that it has just come to, about to test it. -/
  | testing (c : Cursor σ γ)

namespace Search

/-- What a search over the combined rows of a session finds. -/
abbrev Result (σ γ : Type) := EStateM.Result Error (Cursor σ γ) Landing

/-- A move has ended on a combined row or past the last one. -/
def reached : EStateM.Result Error (Cursor σ γ) Bool → Loop.Turn (Search σ γ) (Result σ γ)
  | .ok true c => .again (.testing c)
  | .ok false c => .done (.ok .ended c)
  | .error e c => .done (.error e c)

/-- A combined row has been tested. -/
def tested : EStateM.Result Error (Cursor σ γ) Bool → Loop.Turn (Search σ γ) (Result σ γ)
  | .ok true c => .done (.ok .row c)
  | .ok false c => .again (.moving c)
  | .error e c => .done (.error e c)

/-- One turn of a search: a move of the sources, or an evaluation of the WHERE clause. -/
def turn (B : Backend σ γ) : Search σ γ → Loop.Turn (Search σ γ) (Result σ γ)
  | rewinding c => reached (Cursor.onSession (Session.start B) c)
  | moving c => reached (Cursor.onSession (Session.forward B) c)
  | testing c => tested ((do Cursor.renew; Cursor.satisfied B) c)

/-- The cursor on the combined row that is about to be tested. -/
def candidate? : Search σ γ → Option (Cursor σ γ)
  | testing c => some c
  | rewinding _ | moving _ => none

/-- The cursor on each combined row that the WHERE clause was evaluated on, in order. -/
def candidates (visited : List (Search σ γ)) : List (Cursor σ γ) := visited.filterMap candidate?

variable {B : Backend σ γ} {origin state : Search σ γ} {front visited : List (Search σ γ)}
variable {result found : Result σ γ} {limit bound : Nat}

theorem eq_ended_of_reached {moved : EStateM.Result Error (Cursor σ γ) Bool} {landing : Landing}
    {later : Cursor σ γ} (h : reached moved = .done (.ok landing later)) : landing = .ended := by
  cases moved with
  | error e c => cases h
  | ok found c =>
    cases found with
    | true => cases h
    | false =>
      cases h
      rfl

theorem eq_row_of_tested {holds : EStateM.Result Error (Cursor σ γ) Bool} {landing : Landing}
    {later : Cursor σ γ} (h : tested holds = .done (.ok landing later)) : landing = .row := by
  cases holds with
  | error e c => cases h
  | ok found c =>
    cases found with
    | false => cases h
    | true =>
      cases h
      rfl

/-- The loop lands on a row that it has tested or past the last one; it is never given up. -/
theorem lands_of_ends {landing : Landing} {later : Cursor σ γ}
    (h : Loop.Ends (turn B) origin visited (.ok landing later)) :
    landing = .ended ∨ landing = .row ∧ 0 < (candidates visited).length := by
  obtain ⟨last, hlast, hturn⟩ := h.exists_done
  cases last with
  | rewinding c | moving c => exact Or.inl (eq_ended_of_reached hturn)
  | testing c =>
    have htested : c ∈ candidates visited := List.mem_filterMap.mpr ⟨_, hlast, rfl⟩
    exact Or.inr ⟨eq_row_of_tested hturn, List.length_pos_of_mem htested⟩

/-- A search is given up where it is about to go to the next combined row. -/
inductive GivenUp : Search σ γ → Result σ γ → Prop
  | moving (c : Cursor σ γ) : GivenUp (.moving c) (.ok .givenUp c)

/-- What a search of at most so many combined rows has to do with the loop. -/
abbrev Limited (B : Backend σ γ) : Search σ γ → Nat → Result σ γ → Prop :=
  Loop.Limited (turn B) candidate? GivenUp

end Search

namespace Cursor

variable {B : Backend σ γ} {c : Cursor σ γ} {visited : List (Search σ γ)}
  {result : Search.Result σ γ}

open Search

theorem length_of_satisfied {holds : Bool} {later : Cursor σ γ}
    (h : satisfied B c = .ok holds later) :
    later.session.sources.length = c.session.sources.length := by
  have hleads := leads_satisfied (R := fun _ : Cursor σ γ => True) (fun _ _ h => h)
    (Session.driven_length B c.session.sources.length).column
  have hfinal := hleads.final_of_both ⟨trivial, rfl⟩
  rw [Run.final, h] at hfinal
  exact hfinal.2

/-- On a new combined row the cursor does what the loop does there, and the row is one of those that
it is allowed. -/
theorem limited_test {limit : Nat} {search : Run (Cursor σ γ) Landing}
    (hsearch : ∀ later : Cursor σ γ, later.session.sources.length = c.session.sources.length →
      Limited B (.moving later) limit (search later)) :
    Limited B (.testing c) (limit + 1)
      ((do
        renew
        if ← satisfied B then pure Landing.row else search : Run (Cursor σ γ) Landing) c) := by
  have hrenew : renew c = .ok () { c with generation := c.generation + 1 } := rfl
  have hturn : turn B (.testing c) =
      Search.tested (satisfied B { c with generation := c.generation + 1 }) := rfl
  rw [Run.bind_of_ok hrenew, Run.bind_apply]
  cases hsatisfied : satisfied B { c with generation := c.generation + 1 } with
  | error e later =>
    rw [hsatisfied] at hturn
    exact .done (.done hturn)
  | ok holds later =>
    rw [hsatisfied] at hturn
    cases holds with
    | true => exact .done (.done hturn)
    | false =>
      have hlength := length_of_satisfied hsatisfied
      exact (hsearch later hlength).behind (.again hturn (.here _))
        (Nat.le_of_eq (Nat.add_comm limit 1))

/-- After a move of the sources the cursor does what the loop does, if it does so on the combined
row that the sources have come to. -/
theorem limited_move {limit : Nat} {origin : Search σ γ} {move : Run (Session σ γ) Bool}
    {test : Run (Cursor σ γ) Landing} (hturn : turn B origin = reached (onSession move c))
    (htest : ∀ later, onSession move c = .ok true later →
      Limited B (.testing later) limit (test later)) :
    Limited B origin limit
      ((do if ← onSession move then test else pure Landing.ended :
        Run (Cursor σ γ) Landing) c) := by
  rw [Run.bind_apply]
  cases hmove : onSession move c with
  | error e later =>
    rw [hmove] at hturn
    exact .done (.done hturn)
  | ok found later =>
    rw [hmove] at hturn
    cases found with
    | false => exact .done (.done hturn)
    | true =>
      exact (htest later hmove).behind (.again hturn (.here _)) (Nat.le_add_left _ _)

/-- The induction is on the limit, of which each test uses one up. -/
theorem limited_forward (B : Backend σ γ) (limit : Nat) (c : Cursor σ γ) :
    Limited B (.moving c) limit (forward B limit c) := by
  induction limit generalizing c with
  | zero => exact .stopped (.here _) (.moving c) (Nat.zero_le _)
  | succ limit ih => exact limited_move rfl fun _ _ => limited_test fun later _ => ih later

/-- The limit of a search from the current row. -/
theorem limited_onward (B : Backend σ γ) (c : Cursor σ γ) :
    Limited B (.moving c) (Nat.pow (B.rowLimit + 1) c.session.sources.length)
      ((do forward B (← rowBound B) : Run (Cursor σ γ) Landing) c) :=
  limited_forward B _ c

/-- The limit of a search from the start, which tests the first combined row besides. -/
theorem limited_start (B : Backend σ γ) (c : Cursor σ γ) :
    Limited B (.rewinding c) (Nat.pow (B.rowLimit + 1) c.session.sources.length + 1)
      (start B c) := by
  refine limited_move rfl fun later hmove => limited_test fun last hlast => ?_
  have hlength : later.session.sources.length = c.session.sources.length := by
    have hleads := leads_onSession (R := fun _ : Cursor σ γ => True) (fun _ _ h => h)
      (Session.driven_length B c.session.sources.length).leads_start
    have hfinal := hleads.final_of_both ⟨trivial, rfl⟩
    rw [Run.final, hmove] at hfinal
    exact hfinal.2
  rw [← hlength, ← hlast]
  exact limited_onward B last

theorem first_eq_land (B : Backend σ γ) (hstate : c.state ∈ [.opened, .positioned, .eof]) :
    first B c = land (start B) c := by
  rw [first, Run.bind_of_ok (demand_of_mem hstate)]

theorem next_eq_land (B : Backend σ γ) (hstate : c.state = .positioned) :
    next B c = land (do forward B (← rowBound B)) c := by
  have hnot : c.state ≠ .eof := hstate ▸ nofun
  rw [next, Run.bind_of_ok (Run.get_apply c), if_neg hnot,
    Run.bind_of_ok (demand_of_mem (List.mem_singleton.mpr hstate))]

/-- The first row that satisfies the WHERE clause is what the loop finds. -/
theorem first_of_ends (h : Loop.Ends (turn B) (.rewinding c) visited result)
    (hstate : c.state ∈ [.opened, .positioned, .eof])
    (hlimit : (candidates visited).length ≤ Nat.pow (B.rowLimit + 1) c.session.sources.length) :
    first B c = land (fun _ => result) c := by
  rw [first_eq_land B hstate]
  unfold land
  rw [(limited_start B c).eq_of_ends h (Nat.lt_succ_of_le hlimit)]

/-- The next row that satisfies the WHERE clause is what the loop finds. -/
theorem next_of_ends (h : Loop.Ends (turn B) (.moving c) visited result)
    (hstate : c.state = .positioned)
    (hlimit : (candidates visited).length < Nat.pow (B.rowLimit + 1) c.session.sources.length) :
    next B c = land (fun _ => result) c := by
  rw [next_eq_land B hstate]
  unfold land
  rw [(limited_onward B c).eq_of_ends h hlimit]

end Cursor

end SelectEngine
