/-!
# Loops

A loop that has no bound of its own is given by what one turn of it does to a state: it goes on from
another state, or it is done with a result. `Loop.Ends` says that the loop is done after finitely
many turns, and lists the states that it comes through; `Loop.Comes` lists those of a loop that has
not been done so far. A measure that every turn lowers bounds their number, and a meaning that no
turn changes is the result (`Loop.Measured.ends`).

A computation that does the same with a limit of its own answers what the loop is done with, or is
stopped in the middle of the loop (`Loop.Limited`). The limit makes no difference to a loop that is
done before it (`Loop.Limited.eq_of_ends`).
-/

set_option autoImplicit false

namespace SelectEngine

variable {σ ρ : Type}

/-- What one turn of a loop leads to. -/
inductive Loop.Turn (σ ρ : Type) where
  | again (state : σ)
  | done (result : ρ)

/-- From a state the loop comes through the visited states, that one first, and is done with a
result. -/
inductive Loop.Ends (turn : σ → Loop.Turn σ ρ) : σ → List σ → ρ → Prop
  | done {state : σ} {result : ρ} (h : turn state = .done result) : Ends turn state [state] result
  | again {state later : σ} {visited : List σ} {result : ρ} (h : turn state = .again later)
      (rest : Ends turn later visited result) : Ends turn state (state :: visited) result

/-- From a state the loop comes through the visited states, that one first, to another state. -/
inductive Loop.Comes (turn : σ → Loop.Turn σ ρ) : σ → List σ → σ → Prop
  | here (state : σ) : Comes turn state [] state
  | again {state later last : σ} {visited : List σ} (h : turn state = .again later)
      (rest : Comes turn later visited last) : Comes turn state (state :: visited) last

namespace Loop.Ends

variable {turn : σ → Turn σ ρ} {state later : σ} {visited passed : List σ} {result r : ρ}

/-- A state that is done is the last one. -/
theorem of_done (h : Ends turn state visited result) (hturn : turn state = .done r) :
    visited = [state] ∧ result = r := by
  cases h with
  | done h' =>
    rw [hturn] at h'
    cases h'
    exact ⟨rfl, rfl⟩
  | again h' _ =>
    rw [hturn] at h'
    cases h'

/-- A state that goes on is followed by where it goes. -/
theorem of_again (h : Ends turn state visited result) (hturn : turn state = .again later) :
    ∃ rest, visited = state :: rest ∧ Ends turn later rest result := by
  cases h with
  | done h' =>
    rw [hturn] at h'
    cases h'
  | again h' hrest =>
    rw [hturn] at h'
    cases h'
    exact ⟨_, rfl, hrest⟩

/-- A loop is done with one result. -/
theorem result_eq (h : Ends turn state visited result) (h' : Ends turn state passed r) :
    result = r := by
  induction h generalizing passed with
  | done hturn => exact (h'.of_done hturn).2.symm
  | again hturn _ ih =>
    obtain ⟨_, -, hrest⟩ := h'.of_again hturn
    exact ih hrest

/-- A loop is done in the last of the states that it comes through. -/
theorem exists_done (h : Ends turn state visited result) :
    ∃ last ∈ visited, turn last = .done result := by
  induction h with
  | done hturn => exact ⟨_, List.mem_cons_self, hturn⟩
  | again _ _ ih =>
    obtain ⟨last, hlast, hturn⟩ := ih
    exact ⟨last, List.mem_cons_of_mem _ hlast, hturn⟩

/-- A loop that is done comes through whatever states it has come through so far. -/
theorem exists_eq_append (h : Ends turn state visited result)
    (hcomes : Comes turn state passed later) :
    ∃ rest, visited = passed ++ rest := by
  induction hcomes generalizing visited with
  | here state => exact ⟨visited, rfl⟩
  | again hturn _ ih =>
    obtain ⟨_, rfl, hrest⟩ := h.of_again hturn
    obtain ⟨rest, rfl⟩ := ih hrest
    exact ⟨rest, rfl⟩

end Loop.Ends

namespace Loop.Comes

variable {turn : σ → Turn σ ρ} {state later last : σ} {front back : List σ} {result : ρ}

theorem trans (h : Comes turn state front later) (h' : Comes turn later back last) :
    Comes turn state (front ++ back) last := by
  induction h with
  | here state => exact h'
  | again hturn _ ih => exact .again hturn (ih h')

theorem ends (h : Comes turn state front later) (h' : Ends turn later back result) :
    Ends turn state (front ++ back) result := by
  induction h with
  | here state => exact h'
  | again hturn _ ih => exact .again hturn (ih h')

end Loop.Comes

namespace Loop

variable {turn : σ → Turn σ ρ} {measure : σ → Nat} {meaning : σ → ρ} {bound : Nat}

/-- The loop is done with a result after at most so many turns. -/
def EndsWithin (turn : σ → Turn σ ρ) (bound : Nat) (state : σ) (result : ρ) : Prop :=
  ∃ visited, Ends turn state visited result ∧ visited.length ≤ bound

theorem EndsWithin.mono {state : σ} {result : ρ} {more : Nat}
    (h : EndsWithin turn bound state result) (hle : bound ≤ more) :
    EndsWithin turn more state result := by
  obtain ⟨visited, hends, hlength⟩ := h
  exact ⟨visited, hends, Nat.le_trans hlength hle⟩

/-- A turn from a state of this measure and meaning lowers the measure and keeps the meaning if it
goes on, and otherwise answers with the meaning. -/
def Turn.Keeps (measure : σ → Nat) (meaning : σ → ρ) (before : Nat) (meant : ρ) :
    Turn σ ρ → Prop
  | .again later => measure later < before ∧ meaning later = meant
  | .done result => result = meant

/-- Every turn lowers the measure and keeps the meaning. -/
def Measured (turn : σ → Turn σ ρ) (measure : σ → Nat) (meaning : σ → ρ) : Prop :=
  ∀ state, (turn state).Keeps measure meaning (measure state) (meaning state)

/-- From every state the loop is done with its meaning. The induction is on the measure. -/
theorem Measured.ends (h : Measured turn measure meaning) (state : σ) :
    EndsWithin turn (measure state + 1) state (meaning state) := by
  induction hn : measure state using Nat.strongRecOn generalizing state with
  | ind n ih =>
    subst hn
    have hkeeps := h state
    cases hturn : turn state with
    | done result =>
      rw [hturn] at hkeeps
      obtain rfl : result = meaning state := hkeeps
      exact ⟨[state], .done hturn, Nat.succ_le_succ (Nat.zero_le _)⟩
    | again later =>
      rw [hturn] at hkeeps
      obtain ⟨hlower, hkept⟩ := hkeeps
      obtain ⟨visited, hends, hlength⟩ := ih _ hlower later rfl
      rw [hkept] at hends
      refine ⟨state :: visited, .again hturn hends, ?_⟩
      exact Nat.succ_le_succ (Nat.le_trans hlength hlower)

/-! ## Limits -/

variable {κ : Type} {counts? : σ → Option κ} {Stopped : σ → ρ → Prop}
variable {origin state : σ} {front visited : List σ} {result found : ρ} {limit : Nat}

/-- What a computation with a limit has to do with the loop: it answers what the loop is done with,
or it has been stopped in the middle of the loop, behind at least so many states that count. -/
inductive Limited (turn : σ → Turn σ ρ) (counts? : σ → Option κ) (Stopped : σ → ρ → Prop)
    (origin : σ) (limit : Nat) : ρ → Prop
  | done {visited : List σ} {result : ρ} (h : Ends turn origin visited result) :
      Limited turn counts? Stopped origin limit result
  | stopped {visited : List σ} {state : σ} {result : ρ} (h : Comes turn origin visited state)
      (hstopped : Stopped state result) (hlimit : limit ≤ (visited.filterMap counts?).length) :
      Limited turn counts? Stopped origin limit result

theorem Limited.mono (h : Limited turn counts? Stopped origin limit result) (hle : bound ≤ limit) :
    Limited turn counts? Stopped origin bound result := by
  cases h with
  | done h => exact .done h
  | stopped h hstopped hlimit => exact .stopped h hstopped (Nat.le_trans hle hlimit)

/-- In front of a limited computation the loop may have come through some states already. -/
theorem Limited.behind (h : Limited turn counts? Stopped state limit result)
    (hcomes : Comes turn origin front state)
    (hbound : bound ≤ (front.filterMap counts?).length + limit) :
    Limited turn counts? Stopped origin bound result := by
  cases h with
  | done h => exact .done (hcomes.ends h)
  | stopped h hstopped hlimit =>
    refine .stopped (hcomes.trans h) hstopped ?_
    rw [List.filterMap_append, List.length_append]
    omega

/-- A computation that is allowed more states than the loop comes through answers what the loop is
done with. -/
theorem Limited.eq_of_ends (h : Limited turn counts? Stopped origin limit result)
    (hends : Ends turn origin visited found)
    (hlimit : (visited.filterMap counts?).length < limit) : result = found := by
  cases h with
  | done h => exact h.result_eq hends
  | stopped h _ hpassed =>
    obtain ⟨rest, rfl⟩ := hends.exists_eq_append h
    rw [List.filterMap_append, List.length_append] at hlimit
    omega

end Loop

end SelectEngine
