import Mathlib.Data.List.Basic
import Mathlib.Tactic.Ring
import SelectEngine.Proofs.Double.Rounding

/-!
# The shortest decimal rounds back

The decimal that `Decimal.shortest` finds lies in the interval of its number
(`Decimal.shortest_holds`): the grids are tried from the coarsest on, and on the grid of seventeen
digits one of the two points next to the number is near enough, so that the search never ends without
a point. A whole number of sixteen digits is a point of a grid itself, and no finer grid is reached
(`Decimal.shortest_nonneg`).
-/

set_option autoImplicit false

namespace SelectEngine.Decimal

variable {n d m : Nat} {q : Int}

/-! ## Digits of a fraction -/

/-- A number with `k + 1` digits lies between the powers of ten. -/
theorem exists_digitCount (hn : 0 < n) : ∃ k, digitCount n = k + 1 ∧ 10 ^ k ≤ n ∧ n < 10 ^ (k + 1) := by
  have hle {k : Nat} (hk : 0 < k) : digitCount n ≤ k ↔ n < 10 ^ k :=
    Nat.length_toDigits_le_iff (by decide) hk
  have hpos : 0 < digitCount n := Nat.length_toDigits_pos
  obtain ⟨k, hk⟩ := Nat.exists_eq_succ_of_ne_zero hpos.ne'
  refine ⟨k, hk, ?_, (hle k.succ_pos).mp hk.le⟩
  rcases k.eq_zero_or_pos with rfl | hkpos
  · exact hn
  · by_contra hlt
    have hfew := (hle hkpos).mpr (not_le.mp hlt)
    omega

/-- The first digit of a fraction stands at the leading exponent. -/
theorem leadingExponent_spec (hn : 0 < n) (hd : 0 < d) :
    (10 : ℚ) ^ leadingExponent n d ≤ (n : ℚ) / d ∧
      (n : ℚ) / d < 10 ^ (leadingExponent n d + 1) := by
  obtain ⟨k, hk, hnlow, hnhigh⟩ := exists_digitCount hn
  obtain ⟨l, hl, hdlow, hdhigh⟩ := exists_digitCount hd
  obtain ⟨hlow, hhigh⟩ := ratio_between (by decide) hd hnlow hnhigh hdlow hdhigh
  push_cast at hlow hhigh
  unfold leadingExponent
  rw [hk, hl]
  dsimp only
  have hguess : ((k + 1 : Nat) : Int) - ((l + 1 : Nat) : Int) = k - l := by omega
  rw [hguess]
  generalize hg : (k : Int) - l = g at hlow hhigh ⊢
  have hden : 0 < d * Nat.pow 10 g.toNat := Nat.mul_pos hd (Nat.pow_pos (by decide))
  have htest : d * Nat.pow 10 g.toNat ≤ n * Nat.pow 10 (-g).toNat ↔ (10 : ℚ) ^ g ≤ n / d := by
    have hratio := cast_ratio (b := 10) (by decide) n d g
    have hone : (1 : ℚ) ≤ (n * Nat.pow 10 (-g).toNat : Nat) / (d * Nat.pow 10 g.toNat : Nat) ↔
        (10 : ℚ) ^ g ≤ n / d := by
      rw [hratio]
      push_cast
      exact one_le_div (zpow_pos (by norm_num) g)
    rw [← hone, one_le_div (Nat.cast_pos.mpr hden), Nat.cast_le]
  simp only [htest]
  split
  · next hfits => exact ⟨hfits, hhigh⟩
  · next hover =>
    refine ⟨hlow.le, ?_⟩
    rw [sub_add_cancel]
    exact not_le.mp hover

/-! ## Points of a grid -/

namespace Interval

variable {i : Interval} {up down digits : Nat} {e : Int}

/-- A point of a grid in quarters of the unit, which is `up / down`. -/
def point (up down digits : Nat) (e : Int) : ℚ := digits * (10 ^ e / ((up : ℚ) / down))

theorem contains_iff (hup : 0 < up) :
    i.contains up down digits e = true ↔ i.Holds (point up down digits e) := by
  have hden : (0 : ℚ) < (up * Nat.pow 10 (-e).toNat : Nat) :=
    Nat.cast_pos.mpr (Nat.mul_pos hup (Nat.pow_pos (by decide)))
  have hpoint : point up down digits e =
      ((digits * down * Nat.pow 10 e.toNat : Nat) : ℚ) / (up * Nat.pow 10 (-e).toNat : Nat) := by
    have hratio := cast_ratio (b := 10) (by decide) (digits * down) up (-e)
    rw [neg_neg] at hratio
    rw [hratio, point, zpow_neg]
    push_cast
    field_simp
  have hle (k : Nat) : (k : ℚ) ≤ point up down digits e ↔
      k * up * Nat.pow 10 (-e).toNat ≤ digits * down * Nat.pow 10 e.toNat := by
    rw [hpoint, le_div_iff₀ hden, ← Nat.cast_mul, Nat.cast_le, Nat.mul_assoc k]
  have hge (k : Nat) : point up down digits e ≤ k ↔
      digits * down * Nat.pow 10 e.toNat ≤ k * up * Nat.pow 10 (-e).toNat := by
    rw [hpoint, div_le_iff₀ hden, ← Nat.cast_mul, Nat.cast_le, Nat.mul_assoc k]
  have hlt (k : Nat) : (k : ℚ) < point up down digits e ↔
      k * up * Nat.pow 10 (-e).toNat < digits * down * Nat.pow 10 e.toNat := by
    rw [← not_le, hge, not_le]
  have hgt (k : Nat) : point up down digits e < k ↔
      digits * down * Nat.pow 10 e.toNat < k * up * Nat.pow 10 (-e).toNat := by
    rw [← not_le, hle, not_le]
  unfold contains
  dsimp only
  cases hclosed : i.closed with
  | true =>
    rw [if_pos rfl, decide_eq_true_iff, ← hle, ← hge]
    exact ⟨fun h => ⟨h.1, h.2, fun hopen => absurd (hclosed.symm.trans hopen) (by decide)⟩,
      fun h => ⟨h.low, h.high⟩⟩
  | false =>
    rw [if_neg (by decide), decide_eq_true_iff, ← hlt, ← hgt]
    exact ⟨fun h => holds_of_lt h.1 h.2, fun h => h.inside hclosed⟩

/-- What a grid offers lies in the interval. -/
theorem contains_of_onGrid? (h : i.onGrid? up down e = some digits) :
    i.contains up down digits e = true := by
  unfold onGrid? at h
  dsimp only at h
  split at h
  · next hbelow =>
    split at h
    · next habove =>
      split at h <;> cases h
      · exact hbelow
      · exact habove
    · cases h
      exact hbelow
  · split at h
    · next habove =>
      cases h
      exact habove
    · cases h

/-- The grid offers a point if one of the two next to the number lies in the interval. -/
theorem onGrid?_isSome {below : Nat}
    (hbelow : i.value * up * Nat.pow 10 (-e).toNat / (down * Nat.pow 10 e.toNat) = below)
    (h : i.contains up down below e = true ∨ i.contains up down (below + 1) e = true) :
    (i.onGrid? up down e).isSome = true := by
  unfold onGrid?
  dsimp only
  rw [hbelow]
  rcases h with h | h
  · rw [if_pos h]
    split <;> rfl
  · split
    · rfl
    · rfl

/-- The point below the number, and the one above it. -/
theorem below_le_value (hup : 0 < up) (hdown : 0 < down) {below : Nat}
    (hbelow : i.value * up * Nat.pow 10 (-e).toNat / (down * Nat.pow 10 e.toNat) = below) :
    point up down below e ≤ i.value ∧ (i.value : ℚ) < point up down (below + 1) e := by
  have hden : 0 < down * Nat.pow 10 e.toNat := Nat.mul_pos hdown (Nat.pow_pos (by decide))
  have hunit : (0 : ℚ) < 10 ^ e / ((up : ℚ) / down) := by positivity
  have hvalue : ((i.value * up * Nat.pow 10 (-e).toNat : Nat) : ℚ) /
      (down * Nat.pow 10 e.toNat : Nat) = i.value / (10 ^ e / ((up : ℚ) / down)) := by
    rw [cast_ratio (by decide)]
    push_cast
    field_simp
  have hle : below * (down * Nat.pow 10 e.toNat) ≤ i.value * up * Nat.pow 10 (-e).toNat :=
    hbelow ▸ Nat.div_mul_le_self _ _
  have hlt : i.value * up * Nat.pow 10 (-e).toNat < (below + 1) * (down * Nat.pow 10 e.toNat) :=
    (Nat.div_lt_iff_lt_mul hden).mp (hbelow ▸ Nat.lt_succ_self _)
  have hdenpos : (0 : ℚ) < (down * Nat.pow 10 e.toNat : Nat) := Nat.cast_pos.mpr hden
  rw [point, point, ← le_div_iff₀ hunit, ← div_lt_iff₀ hunit, ← hvalue, le_div_iff₀ hdenpos,
    div_lt_iff₀ hdenpos]
  exact ⟨by exact_mod_cast hle, by exact_mod_cast hlt⟩

/-- On a grid that is fine enough, one of the points next to the number lies in the interval. -/
theorem onGrid?_isSome_of_fine (hup : 0 < up) (hdown : 0 < down) (hlow : i.low < i.value)
    (hhigh : i.value < i.high) (hfine : (i.low : ℚ) + 10 ^ e / ((up : ℚ) / down) < i.high) :
    (i.onGrid? up down e).isSome = true := by
  obtain ⟨hbelow, habove⟩ := below_le_value hup hdown (i := i) (e := e) rfl
  generalize hfloor : i.value * up * Nat.pow 10 (-e).toNat / (down * Nat.pow 10 e.toNat) = below
    at hbelow habove
  have hlow' : (i.low : ℚ) < i.value := Nat.cast_lt.mpr hlow
  have hhigh' : (i.value : ℚ) < i.high := Nat.cast_lt.mpr hhigh
  have hstep : point up down (below + 1) e =
      point up down below e + 10 ^ e / ((up : ℚ) / down) := by
    rw [point, point]
    push_cast
    ring
  refine onGrid?_isSome hfloor ?_
  rw [contains_iff hup, contains_iff hup]
  rcases lt_or_ge (i.low : ℚ) (point up down below e) with hin | hout
  · exact Or.inl (holds_of_lt hin (by linarith))
  · exact Or.inr (holds_of_lt (by linarith) (by linarith))

end Interval

/-! ## The search -/

/-- What the search stops at is found at the first place where there is something. -/
theorem findSome?_range_eq_some {α : Type} {f : Nat → Option α} {count : Nat} {a : α}
    (h : (List.range count).findSome? f = some a) :
    ∃ k < count, f k = some a ∧ ∀ j < k, f j = none := by
  obtain ⟨front, k, back, hrange, hfound, hnone⟩ := List.findSome?_eq_some_iff.mp h
  have hk : k ∈ List.range count := hrange ▸ List.mem_append_right _ List.mem_cons_self
  refine ⟨k, List.mem_range.mp hk, hfound, fun j hj => hnone j ?_⟩
  have hmem : j ∈ front ++ k :: back :=
    hrange ▸ List.mem_range.mpr (hj.trans (List.mem_range.mp hk))
  -- The places behind `k` are greater.
  have hsorted : (front ++ k :: back).Pairwise (· < ·) := hrange ▸ List.pairwise_lt_range
  have hbehind := (List.pairwise_cons.mp (List.pairwise_append.mp hsorted).2.1).1
  rcases List.mem_append.mp hmem with hfront | hrest
  · exact hfront
  · rcases List.mem_cons.mp hrest with rfl | hback
    · exact absurd hj (lt_irrefl j)
    · exact absurd (hbehind j hback) (by omega)

/-- The exponent of the first digit of `m * 2 ^ q`. -/
def top (m : Nat) (q : Int) : Int :=
  leadingExponent (4 * m * Nat.pow 2 (q - 2).toNat) (Nat.pow 2 (2 - q).toNat)

/-- The point of the grid `10 ^ e` that is offered for `m * 2 ^ q`. -/
def offered? (m : Nat) (q : Int) (e : Int) : Option Nat :=
  (Interval.around m q).onGrid? (Nat.pow 2 (q - 2).toNat) (Nat.pow 2 (2 - q).toNat) e

theorem unit_eq (q : Int) :
    ((Nat.pow 2 (q - 2).toNat : Nat) : ℚ) / (Nat.pow 2 (2 - q).toNat : Nat) = 2 ^ q / 4 := by
  have hratio := cast_ratio two_pos 1 1 (2 - q)
  rw [neg_sub, Nat.one_mul, Nat.one_mul] at hratio
  rw [hratio, Nat.cast_two, ← neg_sub q 2, zpow_neg, zpow_sub₀ two_ne_zero]
  norm_num

theorem top_spec (hm : 0 < m) (q : Int) :
    (10 : ℚ) ^ top m q ≤ m * 2 ^ q ∧ (m * 2 ^ q : ℚ) < 10 ^ (top m q + 1) := by
  have hpow (k : Nat) : 0 < Nat.pow 2 k := Nat.pow_pos two_pos
  have hspec := leadingExponent_spec (Nat.mul_pos (Nat.mul_pos four_pos hm) (hpow (q - 2).toNat))
    (hpow (2 - q).toNat)
  rw [Nat.cast_mul, mul_div_assoc, unit_eq] at hspec
  have hvalue : ((4 * m : Nat) : ℚ) * (2 ^ q / 4) = m * 2 ^ q := by
    push_cast
    ring
  rwa [hvalue] at hspec

/-- The gap of a grid of seventeen digits fits between the ends of the interval. -/
theorem low_add_lt_high (hm : 0 < m) (hlt : m < 2 ^ 53) (q : Int) :
    ((Interval.around m q).low : ℚ) + 4 * m / 10 ^ 16 < (Interval.around m q).high := by
  rw [Interval.high_around]
  have hmlt : (m : ℚ) < 9007199254740992 := by exact_mod_cast hlt
  by_cases hpower : m = 2 ^ 52 ∧ -1074 < q
  · obtain ⟨rfl, hq⟩ := hpower
    rw [Interval.low_around_of_least hq]
    norm_num
  · have hother : ¬(m = Nat.pow 2 52 ∧ -1074 < q) := hpower
    have hlow : (Interval.around m q).low = 4 * m - 2 := by
      rw [Interval.around, if_neg hother]
    rw [hlow, Nat.cast_sub (by omega)]
    push_cast
    linarith

theorem offered?_isSome (hm : 0 < m) (hlt : m < 2 ^ 53) (q : Int) :
    (offered? m q (top m q - 16)).isSome = true := by
  have hpow (k : Nat) : 0 < Nat.pow 2 k := Nat.pow_pos two_pos
  refine Interval.onGrid?_isSome_of_fine (hpow _) (hpow _) (Interval.low_lt_value hm q)
    (Interval.value_lt_high m q) ?_
  rw [unit_eq]
  have hgap : (10 : ℚ) ^ (top m q - 16) / (2 ^ q / 4) ≤ 4 * m / 10 ^ 16 := by
    have htop := (top_spec hm q).1
    have hunit := Double.two_zpow_pos q
    rw [zpow_sub₀ (by norm_num), div_le_iff₀ (by positivity), div_le_iff₀ (by positivity)]
    norm_num
    linarith
  have hroom := low_add_lt_high hm hlt q
  linarith

/-- The search ends at the coarsest grid that offers a point. -/
theorem exists_offered (hm : 0 < m) (hlt : m < 2 ^ 53) {digits : Nat} {e : Int}
    (h : shortest m q = (digits, e)) :
    ∃ k ≤ 16, e = top m q - (k : Nat) ∧ offered? m q e = some digits ∧
      ∀ j < k, offered? m q (top m q - (j : Nat)) = none := by
  unfold shortest at h
  dsimp only at h
  rw [List.findSome?_map] at h
  split at h
  · next point hfound =>
    subst h
    obtain ⟨k, hk, hsome, hnone⟩ := findSome?_range_eq_some hfound
    obtain ⟨found, hoffered, heq⟩ := Option.map_eq_some_iff.mp hsome
    obtain ⟨rfl, rfl⟩ := Prod.mk.inj heq
    refine ⟨k, by omega, rfl, hoffered, fun j hj => ?_⟩
    exact Option.map_eq_none_iff.mp (hnone j hj)
  · next hnone =>
    -- The grid of seventeen digits is not passed by.
    have hlast := List.findSome?_eq_none_iff.mp hnone 16 (by decide)
    have hsome := offered?_isSome hm hlt q
    rw [show offered? m q (top m q - 16) = none from Option.map_eq_none_iff.mp hlast] at hsome
    cases hsome

theorem contains_around (m : Nat) (q : Int) (digits : Nat) (e : Int) :
    (Interval.around m q).contains (Nat.pow 2 (q - 2).toNat) (Nat.pow 2 (2 - q).toNat) digits e =
        true ↔
      (Interval.around m q).Holds (4 * (digits * 10 ^ e / 2 ^ q)) := by
  have hpoint : Interval.point (Nat.pow 2 (q - 2).toNat) (Nat.pow 2 (2 - q).toNat) digits e =
      4 * (digits * 10 ^ e / 2 ^ q) := by
    rw [Interval.point, unit_eq]
    have hunit := Double.two_zpow_pos q
    field_simp
  rw [← hpoint]
  exact Interval.contains_iff (Nat.pow_pos two_pos)

/-- The decimal that is found lies in the interval of the number. -/
theorem shortest_holds (hm : 0 < m) (hlt : m < 2 ^ 53) {digits : Nat} {e : Int}
    (h : shortest m q = (digits, e)) :
    (Interval.around m q).Holds (4 * (digits * 10 ^ e / 2 ^ q)) := by
  obtain ⟨k, -, -, hoffered, -⟩ := exists_offered hm hlt h
  exact (contains_around m q digits e).mp (Interval.contains_of_onGrid? hoffered)

/-- The first digit of a whole number is no digit of a fraction. -/
theorem top_nonneg (hm : 0 < m) (hn : (n : ℚ) = m * 2 ^ q) : 0 ≤ top m q := by
  have hunit := Double.two_zpow_pos q
  have hpos : (0 : ℚ) < n := by
    rw [hn]
    positivity
  have hone : (1 : ℚ) ≤ n := by exact_mod_cast (Nat.cast_pos.mp hpos)
  have hbelow := (top_spec hm q).2
  rw [← hn] at hbelow
  have hpower : (10 : ℚ) ^ (0 : Int) < 10 ^ (top m q + 1) := by
    rw [zpow_zero]
    exact hone.trans_lt hbelow
  have hexponent := (zpow_lt_zpow_iff_right₀ (by norm_num)).mp hpower
  omega

/-- The grid of the whole numbers offers something for a whole number, which is on the grid. -/
theorem offered?_isSome_of_whole (hm : 0 < m) (hn : (n : ℚ) = m * 2 ^ q) :
    (offered? m q 0).isSome = true := by
  have hdown : 0 < Nat.pow 2 (2 - q).toNat := Nat.pow_pos two_pos
  have hproduct : 4 * m * Nat.pow 2 (q - 2).toNat = n * Nat.pow 2 (2 - q).toNat := by
    have hdownpos : (0 : ℚ) < (Nat.pow 2 (2 - q).toNat : Nat) := Nat.cast_pos.mpr hdown
    have hratio := unit_eq q
    rw [div_eq_iff hdownpos.ne'] at hratio
    have hcast : (4 * m * (Nat.pow 2 (q - 2).toNat : Nat) : ℚ) =
        n * (Nat.pow 2 (2 - q).toNat : Nat) := by
      rw [hratio, hn]
      ring
    exact_mod_cast hcast
  have hbelow : (Interval.around m q).value * Nat.pow 2 (q - 2).toNat * Nat.pow 10 (-0).toNat /
      (Nat.pow 2 (2 - q).toNat * Nat.pow 10 (0 : Int).toNat) = n := by
    rw [Interval.around]
    simp only [neg_zero, Int.toNat_zero, Nat.pow_eq, pow_zero, Nat.mul_one] at hproduct ⊢
    rw [hproduct]
    exact Nat.mul_div_cancel n hdown
  have hvalue : (4 : ℚ) * (n * 10 ^ (0 : Int) / 2 ^ q) = 4 * m := by
    rw [hn, zpow_zero, mul_one, mul_div_assoc, div_self (Double.two_zpow_pos q).ne', mul_one]
  have hcontains : (Interval.around m q).contains (Nat.pow 2 (q - 2).toNat)
      (Nat.pow 2 (2 - q).toNat) n 0 = true := by
    rw [contains_around, hvalue]
    exact Interval.holds_value hm q
  exact Interval.onGrid?_isSome hbelow (Or.inl hcontains)

/-- The decimal of a whole number is whole. -/
theorem shortest_nonneg (hm : 0 < m) (hlt : m < 2 ^ 53) {digits : Nat} {e : Int}
    (h : shortest m q = (digits, e)) (hn : (n : ℚ) = m * 2 ^ q) : 0 ≤ e := by
  obtain ⟨k, hk, rfl, -, hnone⟩ := exists_offered hm hlt h
  have htop := top_nonneg hm hn
  by_contra hnegative
  -- The search would have passed by the grid of the whole numbers.
  have hwhole := hnone (top m q).toNat (by omega)
  rw [Int.toNat_of_nonneg htop, sub_self] at hwhole
  have hsome := offered?_isSome_of_whole hm hn
  rw [hwhole] at hsome
  cases hsome

end SelectEngine.Decimal
