import Mathlib.Algebra.Ring.Nat

/-!
# Combinations in lexicographic order

`product` lists the combinations of one element of each list, the last list varying fastest.
`onward` lists those from a given one on, where the place in a list is the number of elements in
front of it. At the start these are all combinations (`onward_start`); a list whose place is the
start contributes all its elements to each combination of those before it (`onward_append_start`).
-/

set_option autoImplicit false

namespace SelectEngine

variable {α : Type}

/-- The combinations of one element of each list, the last list varying fastest. -/
def product : List (List α) → List (List α)
  | [] => [[]]
  | xs :: rest => xs.flatMap fun x => (product rest).map (x :: ·)

/-- The combinations from the one at the given places on: of the elements at the places, the first
stays while the others go on, and then it moves. -/
def onward : List (List α × Nat) → List (List α)
  | [] => [[]]
  | (xs, place) :: rest =>
    match xs.drop place with
    | [] => []
    | x :: later =>
      (onward rest).map (x :: ·) ++
        later.flatMap fun y => (product (rest.map Prod.fst)).map (y :: ·)

theorem onward_start : ∀ lists : List (List α), onward (lists.map (·, 0)) = product lists
  | [] => rfl
  | xs :: rest => by
    have ih := onward_start rest
    cases xs with
    | nil => rfl
    | cons x later =>
      have fst : (rest.map (·, 0)).map Prod.fst = rest := by simp [Function.comp_def]
      simp only [List.map_cons, onward, List.drop_zero, ih, fst, product, List.flatMap_cons]

theorem product_append (front back : List (List α)) :
    product (front ++ back) = (product front).flatMap fun c => (product back).map (c ++ ·) := by
  induction front with
  | nil => simp [product]
  | cons xs rest ih =>
    simp only [List.cons_append, product, ih, List.map_flatMap, List.flatMap_assoc,
      List.flatMap_map, List.map_map]
    rfl

theorem onward_append_start (front : List (List α × Nat)) (back : List (List α)) :
    onward (front ++ back.map (·, 0)) =
      (onward front).flatMap fun c => (product back).map (c ++ ·) := by
  induction front with
  | nil => simp [onward, onward_start]
  | cons entry rest ih =>
    obtain ⟨xs, place⟩ := entry
    have fst : (rest ++ back.map (·, 0)).map Prod.fst = rest.map Prod.fst ++ back := by
      simp [Function.comp_def]
    simp only [List.cons_append, onward]
    cases xs.drop place with
    | nil => rfl
    | cons x later =>
      simp only [ih, fst, product_append, List.flatMap_append, List.map_flatMap, List.flatMap_assoc,
        List.flatMap_map, List.map_map]
      rfl

/-- Every place is that of an element. -/
def AllInside (entries : List (List α × Nat)) : Prop := ∀ e ∈ entries, e.2 < e.1.length

theorem allInside_start {lists : List (List α)} (h : ∀ xs ∈ lists, xs ≠ []) :
    AllInside (lists.map (·, 0)) := by
  intro e he
  obtain ⟨xs, hxs, rfl⟩ := List.mem_map.mp he
  exact List.length_pos_iff.mpr (h xs hxs)

/-- The combination at the given places. -/
def combination (entries : List (List α × Nat)) : List α :=
  entries.filterMap fun e => e.1[e.2]?

theorem getElem?_combination : ∀ {entries : List (List α × Nat)}, AllInside entries → ∀ i : Nat,
    (combination entries)[i]? = entries[i]?.bind fun e => e.1[e.2]?
  | [], _, _ => rfl
  | (xs, place) :: rest, h, i => by
    have hplace : place < xs.length := h (xs, place) List.mem_cons_self
    have hget : xs[place]? = some xs[place] := List.getElem?_eq_getElem hplace
    have ih := getElem?_combination fun e he => h e (List.mem_cons_of_mem _ he)
    cases i with
    | zero => simp [combination, hget]
    | succ i => simpa [combination, hget] using ih i

/-- The combinations from the one at given places on begin with it. -/
theorem onward_eq_cons : ∀ {entries : List (List α × Nat)}, AllInside entries →
    ∃ later, onward entries = combination entries :: later
  | [], _ => ⟨[], rfl⟩
  | (xs, place) :: rest, h => by
    have hplace : place < xs.length := h (xs, place) List.mem_cons_self
    obtain ⟨later, hlater⟩ := onward_eq_cons fun e he => h e (List.mem_cons_of_mem _ he)
    have hget : xs[place]? = some xs[place] := List.getElem?_eq_getElem hplace
    have hcomb : combination ((xs, place) :: rest) = xs[place] :: combination rest := by
      simp only [combination, List.filterMap_cons, hget]
    simp only [onward, List.drop_eq_getElem_cons hplace, hlater, hcomb]
    exact ⟨_, rfl⟩

/-- The combinations from a given one on are the last of all combinations. -/
theorem onward_suffix : ∀ entries : List (List α × Nat),
    onward entries <:+ product (entries.map Prod.fst)
  | [] => List.suffix_refl _
  | (xs, place) :: rest => by
    obtain ⟨earlier, hearlier⟩ := onward_suffix rest
    simp only [onward, List.map_cons, product]
    cases hdrop : xs.drop place with
    | nil => exact List.nil_suffix
    | cons x later =>
      -- The combinations with an earlier element of the first list come before all of these.
      have hxs : xs = xs.take place ++ x :: later := by rw [← hdrop, List.take_append_drop]
      have hall := congrArg (List.flatMap fun y => (product (rest.map Prod.fst)).map (y :: ·)) hxs
      rw [List.flatMap_append, List.flatMap_cons] at hall
      refine ⟨((xs.take place).flatMap fun y => (product (rest.map Prod.fst)).map (y :: ·)) ++
        earlier.map (x :: ·), ?_⟩
      rw [hall, ← hearlier]
      simp only [List.map_append, List.append_assoc]

/-- With one more list behind, each combination goes through what is left of that list and each
later one through all of it. -/
theorem onward_concat (front : List (List α × Nat)) (xs : List α) (place : Nat)
    {current : List α} {later : List (List α)} (hin : AllInside front)
    (h : onward front = current :: later) :
    onward (front ++ [(xs, place)]) = (xs.drop place).map (current ++ [·]) ++
      later.flatMap fun c => xs.map (c ++ [·]) := by
  induction front generalizing current later with
  | nil =>
    simp only [onward, List.cons.injEq] at h
    obtain ⟨rfl, rfl⟩ := h
    simp only [List.nil_append, onward]
    cases xs.drop place with
    | nil => rfl
    | cons x rest => simp [product, List.map_eq_flatMap]
  | cons entry rest ih =>
    obtain ⟨ys, i⟩ := entry
    have hi : i < ys.length := hin (ys, i) List.mem_cons_self
    have hrest : AllInside rest := fun e he => hin e (List.mem_cons_of_mem _ he)
    -- The first list stays on its element while the others go on, and then moves.
    obtain ⟨more, hmore⟩ := onward_eq_cons hrest
    simp only [onward, List.drop_eq_getElem_cons hi, hmore, List.map_cons, List.cons_append,
      List.cons.injEq] at h
    obtain ⟨rfl, rfl⟩ := h
    have fst : (rest ++ [(xs, place)]).map Prod.fst = rest.map Prod.fst ++ [xs] := by simp
    simp only [List.cons_append, onward, List.drop_eq_getElem_cons hi, ih hrest hmore, fst,
      product_append, List.map_append, List.map_flatMap, List.flatMap_append, List.flatMap_assoc,
      List.flatMap_map, List.map_map, List.append_assoc]
    simp [product, Function.comp_def, List.map_eq_flatMap, List.flatMap_assoc]

theorem length_product_cons (xs : List α) (rest : List (List α)) :
    (product (xs :: rest)).length = xs.length * (product rest).length := by
  simp only [product, List.length_flatMap, List.length_map, List.map_const', List.sum_replicate_nat]

theorem length_product_le {bound : Nat} : ∀ {lists : List (List α)},
    (∀ xs ∈ lists, xs.length ≤ bound) → (product lists).length ≤ bound ^ lists.length
  | [], _ => Nat.le_refl 1
  | xs :: rest, h => by
    have hxs : xs.length ≤ bound := h xs List.mem_cons_self
    have hrest : (product rest).length ≤ bound ^ rest.length :=
      length_product_le fun ys hys => h ys (List.mem_cons_of_mem _ hys)
    rw [length_product_cons, List.length_cons, Nat.pow_succ, Nat.mul_comm (bound ^ _)]
    exact Nat.mul_le_mul hxs hrest

/-- There is no combination if a list has no element. -/
theorem product_eq_nil {lists : List (List α)} (h : [] ∈ lists) : product lists = [] := by
  induction lists with
  | nil => cases h
  | cons xs rest ih =>
    rcases List.mem_cons.mp h with rfl | h
    · rfl
    · simp [product, ih h]

end SelectEngine
