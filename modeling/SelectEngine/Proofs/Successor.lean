import Mathlib.Algebra.BigOperators.Group.List.Basic
import Mathlib.Algebra.Order.Ring.Nat
import Mathlib.Data.List.Forall2
import Mathlib.Data.List.Lex

/-!
# Combinations and their successors

A combination of positions is `Inside` given row counts if each position is that of a row.
Combinations are compared lexicographically, the first position deciding, and `IsSuccessor` says
that one comes right behind another: the last position moves on while it can
(`IsSuccessor.advance`), and otherwise starts again while those in front of it move on
(`IsSuccessor.carry`).

`rank` counts the combinations in front of one. It is below the number of all combinations
(`rank_lt_prod`) and grows with the combination (`rank_lt_rank`), so going from one successor to the
next ends (`Ascends.rank_add_length_lt`) and comes to no combination twice (`Ascends.nodup`).
-/

set_option autoImplicit false

namespace SelectEngine.Combination

variable {counts current next ps qs : List Nat} {n p q : Nat}

/-- Each position is that of a row. -/
def Inside (counts positions : List Nat) : Prop := List.Forall₂ (· < ·) positions counts

/-- The combination right behind one in lexicographic order. -/
structure IsSuccessor (counts current next : List Nat) : Prop where
  inside : Inside counts next
  greater : current < next
  least : ∀ other, Inside counts other → current < other → next ≤ other

/-- There is no combination behind this one. -/
def IsLast (counts current : List Nat) : Prop := ∀ other, Inside counts other → other ≤ current

/-- There is no combination in front of this one. -/
def IsFirst (counts current : List Nat) : Prop := ∀ other, Inside counts other → current ≤ other

theorem Inside.length_eq (h : Inside counts ps) : ps.length = counts.length :=
  List.Forall₂.length_eq h

theorem IsSuccessor.not_isLast (h : IsSuccessor counts current next) : ¬ IsLast counts current :=
  fun hlast => (hlast next h.inside).not_gt h.greater

theorem not_lt_of_eq_zero (hlength : qs.length = ps.length) (h : ∀ p ∈ ps, p = 0) :
    ¬ qs < ps := by
  induction ps generalizing qs with
  | nil => exact List.not_lt_nil qs
  | cons p ps ih =>
    cases qs with
    | nil => cases hlength
    | cons q qs =>
      have hp : p = 0 := h p List.mem_cons_self
      rw [List.cons_lt_cons_iff, hp]
      rintro (hlt | ⟨-, hlt⟩)
      · exact Nat.not_lt_zero q hlt
      · exact ih (Nat.succ.inj hlength) (fun r hr => h r (List.mem_cons_of_mem _ hr)) hlt

/-- The combination of the first rows is in front of all others. -/
theorem isFirst_of_eq_zero (hlength : ps.length = counts.length) (h : ∀ p ∈ ps, p = 0) :
    IsFirst counts ps := fun _ hother =>
  not_lt.mp (not_lt_of_eq_zero (hother.length_eq.trans hlength.symm) h)

/-! ## The last position -/

theorem lt_concat_iff (h : ps.length = qs.length) :
    ps ++ [p] < qs ++ [q] ↔ ps < qs ∨ ps = qs ∧ p < q := by
  induction ps generalizing qs with
  | nil =>
    obtain rfl := List.length_eq_zero_iff.mp h.symm
    simp [List.cons_lt_cons_iff]
  | cons a as ih =>
    cases qs with
    | nil => cases h
    | cons b bs =>
      simp only [List.cons_append, List.cons_lt_cons_iff, ih (Nat.succ.inj h), List.cons.injEq]
      tauto

theorem inside_concat_iff : Inside (counts ++ [n]) (ps ++ [p]) ↔ Inside counts ps ∧ p < n := by
  rw [Inside, ← List.forall₂_reverse_iff]
  simp [Inside, List.forall₂_cons, List.forall₂_reverse_iff, and_comm]

/-- A combination with one more position behind. -/
theorem Inside.exists_concat (h : Inside (counts ++ [n]) ps) :
    ∃ front last, ps = front ++ [last] ∧ Inside counts front ∧ last < n := by
  rcases List.eq_nil_or_concat' ps with rfl | ⟨front, last, rfl⟩
  · simp [Inside] at h
  · exact ⟨front, last, rfl, inside_concat_iff.mp h⟩

/-- The last position moves on. -/
theorem IsSuccessor.advance (h : Inside counts ps) (hp : p + 1 < n) :
    IsSuccessor (counts ++ [n]) (ps ++ [p]) (ps ++ [p + 1]) where
  inside := inside_concat_iff.mpr ⟨h, hp⟩
  greater := (lt_concat_iff rfl).mpr (Or.inr ⟨rfl, Nat.lt_succ_self p⟩)
  least other hother hlt := by
    obtain ⟨front, last, rfl, hfront, hlast⟩ := hother.exists_concat
    have hlength : ps.length = front.length := h.length_eq.trans hfront.length_eq.symm
    refine not_lt.mp fun hless => ?_
    rw [lt_concat_iff hlength] at hlt
    rw [lt_concat_iff hlength.symm] at hless
    rcases hlt with hlt | ⟨rfl, hlt⟩
    · rcases hless with hless | ⟨rfl, -⟩
      · exact lt_asymm hlt hless
      · exact lt_irrefl _ hlt
    · rcases hless with hless | ⟨-, hless⟩
      · exact lt_irrefl _ hless
      · exact Nat.not_lt_of_ge hlt hless

/-- The last position has been on its last row: it starts again, and those in front move on. -/
theorem IsSuccessor.carry (hps : Inside counts ps) (h : IsSuccessor counts ps qs)
    (hp : p + 1 = n) : IsSuccessor (counts ++ [n]) (ps ++ [p]) (qs ++ [0]) where
  inside := inside_concat_iff.mpr ⟨h.inside, hp ▸ Nat.succ_pos p⟩
  greater := (lt_concat_iff (hps.length_eq.trans h.inside.length_eq.symm)).mpr (Or.inl h.greater)
  least other hother hlt := by
    obtain ⟨front, last, rfl, hfront, hlast⟩ := hother.exists_concat
    rw [lt_concat_iff (hps.length_eq.trans hfront.length_eq.symm)] at hlt
    -- Nothing is behind the last row, so the positions in front have moved.
    have hmoved : ps < front := hlt.resolve_right fun hsame => by omega
    refine not_lt.mp fun hless => ?_
    rw [lt_concat_iff (hfront.length_eq.trans h.inside.length_eq.symm)] at hless
    rcases hless with hless | ⟨-, hless⟩
    · exact (h.least front hfront hmoved).not_gt hless
    · exact Nat.not_lt_zero last hless

theorem isLast_nil : IsLast [] [] := fun other hother => by
  obtain rfl := List.forall₂_nil_right_iff.mp hother
  exact le_refl _

/-- No position can move on. -/
theorem IsLast.carry (hps : Inside counts ps) (h : IsLast counts ps) (hp : p + 1 = n) :
    IsLast (counts ++ [n]) (ps ++ [p]) := by
  intro other hother
  obtain ⟨front, last, rfl, hfront, hlast⟩ := hother.exists_concat
  refine not_lt.mp fun hlt => ?_
  rw [lt_concat_iff (hps.length_eq.trans hfront.length_eq.symm)] at hlt
  rcases hlt with hlt | ⟨rfl, hlt⟩
  · exact (h front hfront).not_gt hlt
  · omega

/-! ## The number of a combination -/

/-- The number of combinations in front of one. -/
def rank : List Nat → List Nat → Nat
  | _ :: counts, p :: ps => p * counts.prod + rank counts ps
  | _, _ => 0

theorem rank_lt_prod (h : Inside counts ps) : rank counts ps < counts.prod := by
  induction h with
  | nil => exact Nat.one_pos
  | @cons p n ps counts hp _ ih =>
    calc p * counts.prod + rank counts ps
        < p * counts.prod + counts.prod := Nat.add_lt_add_left ih _
      _ = (p + 1) * counts.prod := (Nat.succ_mul p _).symm
      _ ≤ n * counts.prod := Nat.mul_le_mul_right _ hp
      _ = (n :: counts).prod := List.prod_cons.symm

theorem rank_lt_rank (hps : Inside counts ps) (hqs : Inside counts qs) (h : ps < qs) :
    rank counts ps < rank counts qs := by
  induction hps generalizing qs with
  | nil =>
    obtain rfl := List.forall₂_nil_right_iff.mp hqs
    exact absurd h (List.lt_irrefl _)
  | @cons p n ps counts hp hrest ih =>
    obtain ⟨q, others, -, hothers, rfl⟩ := List.forall₂_cons_right_iff.mp hqs
    rcases List.cons_lt_cons_iff.mp h with hlt | ⟨rfl, hlt⟩
    · calc p * counts.prod + rank counts ps
          < p * counts.prod + counts.prod := Nat.add_lt_add_left (rank_lt_prod hrest) _
        _ = (p + 1) * counts.prod := (Nat.succ_mul p _).symm
        _ ≤ q * counts.prod := Nat.mul_le_mul_right _ hlt
        _ ≤ q * counts.prod + rank counts others := Nat.le_add_right _ _
    · exact Nat.add_lt_add_left (ih hothers hlt) _

/-! ## From successor to successor -/

/-- Each of the combinations is the successor of the one in front of it, the first one that of
`current`. -/
def Ascends (counts current : List Nat) (visited : List (List Nat)) : Prop :=
  List.IsChain (IsSuccessor counts) (current :: visited)

/-- Fewer combinations than there are come behind the current one. -/
theorem Ascends.rank_add_length_lt {visited : List (List Nat)} (h : Ascends counts current visited)
    (hcurrent : Inside counts current) : rank counts current + visited.length < counts.prod := by
  induction visited generalizing current with
  | nil => exact rank_lt_prod hcurrent
  | cons next rest ih =>
    obtain ⟨hnext, hrest⟩ := List.isChain_cons_cons.mp h
    have hrank := rank_lt_rank hcurrent hnext.inside hnext.greater
    have hlength := ih hrest hnext.inside
    rw [List.length_cons]
    omega

/-- The combinations are all different. -/
theorem Ascends.nodup {visited : List (List Nat)} (h : Ascends counts current visited) :
    (current :: visited).Nodup := by
  have hlt : List.IsChain (· < ·) (current :: visited) := h.imp fun _ _ hs => hs.greater
  exact (List.isChain_iff_pairwise.mp hlt).imp fun hless => ne_of_lt hless

end SelectEngine.Combination
