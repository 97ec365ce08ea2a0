import Mathlib.Algebra.Order.Field.Power
import Mathlib.Data.Rat.Cast.Order
import Mathlib.Tactic.FieldSimp
import Mathlib.Tactic.Linarith
import Mathlib.Tactic.Positivity
import SelectEngine.Decimal.Shortest
import SelectEngine.Double.Basic

/-!
# Rounding a fraction to a double

A finite double owns the reals that round to it: half a unit to each side, a quarter below a power
of two, with the ends if its significand is even (`Double.Owns`). A fraction that a double owns is
rounded to this double (`Double.ofRatio_of_owns`). All is computed on natural numbers, as quotients of
which the rationals are the meaning (`cast_ratio`).
-/

set_option autoImplicit false

namespace SelectEngine

/-! ## Quotients -/

/-- A power of a base is a quotient of natural ones. -/
theorem zpow_eq_div {b : ℚ} (hb : b ≠ 0) (e : Int) : b ^ e = b ^ e.toNat / b ^ (-e).toNat := by
  rw [← zpow_natCast, ← zpow_natCast, ← zpow_sub₀ hb]
  congr 1
  omega

/-- It divides or multiplies a fraction, according to its sign. -/
theorem cast_ratio {b : Nat} (hb : 0 < b) (n d : Nat) (e : Int) :
    ((n * Nat.pow b (-e).toNat : Nat) : ℚ) / ((d * Nat.pow b e.toNat : Nat) : ℚ) =
      (n : ℚ) / d / (b : ℚ) ^ e := by
  have hb' : (b : ℚ) ≠ 0 := Nat.cast_ne_zero.mpr hb.ne'
  rw [zpow_eq_div hb', Nat.pow_eq, Nat.pow_eq]
  push_cast
  field_simp

/-- A fraction lies between powers whose exponents are the differences of those of its parts. -/
theorem ratio_between {b n d k l : Nat} (hb : 0 < b) (hd : 0 < d) (hn : b ^ k ≤ n)
    (hn' : n < b ^ (k + 1)) (hl : b ^ l ≤ d) (hl' : d < b ^ (l + 1)) :
    (b : ℚ) ^ ((k : Int) - l - 1) < (n : ℚ) / d ∧ (n : ℚ) / d < (b : ℚ) ^ ((k : Int) - l + 1) := by
  have hb' : (b : ℚ) ≠ 0 := Nat.cast_ne_zero.mpr hb.ne'
  have hpos : (0 : ℚ) < b := Nat.cast_pos.mpr hb
  have hdpos : (0 : ℚ) < d := Nat.cast_pos.mpr hd
  have hlow : (b : ℚ) ^ ((k : Int) - l - 1) = (b : ℚ) ^ k / (b : ℚ) ^ (l + 1) := by
    rw [← zpow_natCast, ← zpow_natCast, ← zpow_sub₀ hb']
    congr 1
    omega
  have hhigh : (b : ℚ) ^ ((k : Int) - l + 1) = (b : ℚ) ^ (k + 1) / (b : ℚ) ^ l := by
    rw [← zpow_natCast, ← zpow_natCast, ← zpow_sub₀ hb']
    congr 1
    omega
  have hkn : (b : ℚ) ^ k ≤ n := by exact_mod_cast hn
  have hnk : (n : ℚ) < (b : ℚ) ^ (k + 1) := by exact_mod_cast hn'
  have hld : (b : ℚ) ^ l ≤ d := by exact_mod_cast hl
  have hdl : (d : ℚ) < (b : ℚ) ^ (l + 1) := by exact_mod_cast hl'
  rw [hlow, hhigh, div_lt_div_iff₀ (by positivity) hdpos, div_lt_div_iff₀ hdpos (by positivity)]
  constructor
  · calc (b : ℚ) ^ k * d ≤ n * d := by gcongr
      _ < n * (b : ℚ) ^ (l + 1) := by
        have hnpos : (0 : ℚ) < n := lt_of_lt_of_le (by positivity) hkn
        gcongr
  · calc (n : ℚ) * (b : ℚ) ^ l ≤ n * d := by gcongr
      _ < (b : ℚ) ^ (k + 1) * d := by gcongr

namespace Double

variable {n d m : Nat} {q : Int}

/-! ## Rounding to an integer -/

/-- The integer is nearest to the number, and even where two are. -/
def Nearest (m : Nat) (z : ℚ) : Prop :=
  (m : ℚ) - 1 / 2 ≤ z ∧ z ≤ m + 1 / 2 ∧ (m % 2 = 1 → (m : ℚ) - 1 / 2 < z ∧ z < m + 1 / 2)

/-- The bounds of a quotient without quotients. -/
theorem Nearest.bounds (h : Nearest m ((n : ℚ) / d)) (hd : 0 < d) :
    2 * (m * d) ≤ 2 * n + d ∧ 2 * n ≤ 2 * (m * d) + d ∧
      (m % 2 = 1 → 2 * (m * d) < 2 * n + d ∧ 2 * n < 2 * (m * d) + d) := by
  have hdpos : (0 : ℚ) < d := Nat.cast_pos.mpr hd
  obtain ⟨hlow, hhigh, hodd⟩ := h
  rw [le_div_iff₀ hdpos] at hlow
  rw [div_le_iff₀ hdpos] at hhigh
  have hleft : (2 * (m * d) : ℚ) ≤ 2 * n + d := by linarith
  have hright : (2 * n : ℚ) ≤ 2 * (m * d) + d := by linarith
  refine ⟨by exact_mod_cast hleft, by exact_mod_cast hright, fun hm => ?_⟩
  obtain ⟨hlow', hhigh'⟩ := hodd hm
  rw [lt_div_iff₀ hdpos] at hlow'
  rw [div_lt_iff₀ hdpos] at hhigh'
  have hleft' : (2 * (m * d) : ℚ) < 2 * n + d := by linarith
  have hright' : (2 * n : ℚ) < 2 * (m * d) + d := by linarith
  exact ⟨by exact_mod_cast hleft', by exact_mod_cast hright'⟩

theorem roundDiv_eq (hd : 0 < d) (h : Nearest m ((n : ℚ) / d)) : roundDiv n d = m := by
  obtain ⟨hlow, hhigh, hodd⟩ := h.bounds hd
  have hdivision : d * (n / d) + n % d = n := Nat.div_add_mod n d
  have hrest : n % d < d := Nat.mod_lt n hd
  unfold roundDiv
  dsimp only
  generalize n / d = k at hdivision ⊢
  generalize n % d = r at hdivision hrest ⊢
  -- The quotient is the integer, or the one below it.
  have hle : k ≤ m := by
    by_contra hlt
    have hstep : (m + 1) * d ≤ k * d := Nat.mul_le_mul_right d (by omega)
    rw [Nat.add_mul, Nat.mul_comm k] at hstep
    omega
  have hge : m ≤ k + 1 := by
    by_contra hlt
    have hstep : (k + 2) * d ≤ m * d := Nat.mul_le_mul_right d (by omega)
    rw [Nat.add_mul, Nat.mul_comm k] at hstep
    omega
  rcases Nat.lt_or_ge k m with hlt | hsame
  · obtain rfl : m = k + 1 := by omega
    rw [Nat.add_mul, Nat.mul_comm k, Nat.one_mul] at hlow hodd
    rw [if_pos]
    by_cases htie : 2 * r = d
    · refine Or.inr ⟨htie, ?_⟩
      by_contra heven
      have := hodd (by omega)
      omega
    · exact Or.inl (by omega)
  · obtain rfl : m = k := by omega
    rw [Nat.mul_comm m] at hhigh hodd
    rw [if_neg]
    rintro (hover | ⟨htie, hk⟩)
    · omega
    · have := hodd hk
      omega

/-! ## The unit of a fraction -/

/-- The fraction has its binary digits in front of the point as the unit says: no more than 53, and
as many unless the unit is the least. -/
structure IsUnit (x : ℚ) (q : Int) : Prop where
  least : -1074 ≤ q
  lt : x / 2 ^ q < 2 ^ 53
  full : -1074 < q → 2 ^ 52 ≤ x / 2 ^ q

theorem two_zpow_pos (q : Int) : (0 : ℚ) < 2 ^ q := zpow_pos two_pos q

theorem two_pow_mul_zpow (k : Nat) (q : Int) : (2 : ℚ) ^ k * 2 ^ q = 2 ^ (k + q) := by
  rw [zpow_add₀ two_ne_zero, zpow_natCast]

/-- A fraction has one unit. -/
theorem IsUnit.unique {x : ℚ} {p : Int} (hp : IsUnit x p) (hq : IsUnit x q) : p = q := by
  have hlt : ∀ {p q : Int}, IsUnit x p → IsUnit x q → ¬p < q := by
    intro p q hp hq hpq
    have hfull := hq.full (hp.least.trans_lt hpq)
    have hx := hp.lt
    rw [le_div_iff₀ (two_zpow_pos q)] at hfull
    rw [div_lt_iff₀ (two_zpow_pos p)] at hx
    have hstep : (2 : ℚ) ^ (p + 1) ≤ 2 ^ q := zpow_le_zpow_right₀ one_le_two (by omega)
    rw [zpow_add_one₀ two_ne_zero] at hstep
    linarith
  exact le_antisymm (not_lt.mp (hlt hq hp)) (not_lt.mp (hlt hp hq))

/-- The exponent is found from the lengths of both parts, up to one. -/
theorem isUnit_unitExponent (hn : 0 < n) (hd : 0 < d) :
    IsUnit ((n : ℚ) / d) (unitExponent n d) := by
  obtain ⟨hlow, hhigh⟩ := ratio_between two_pos hd (Nat.log2_self_le hn.ne') Nat.lt_log2_self
    (Nat.log2_self_le hd.ne') Nat.lt_log2_self
  rw [Nat.cast_two] at hlow hhigh
  unfold unitExponent
  dsimp only
  generalize hq : max ((n.log2 : Int) - d.log2 - 53) (-1074) = q
  have hden : 0 < d * Nat.pow 2 q.toNat := Nat.mul_pos hd (Nat.pow_pos two_pos)
  have hscaled : Nat.pow 2 53 ≤ n * Nat.pow 2 (-q).toNat / (d * Nat.pow 2 q.toNat) ↔
      (2 : ℚ) ^ 53 ≤ n / d / 2 ^ q := by
    have hratio := cast_ratio two_pos n d q
    rw [Nat.cast_two] at hratio
    rw [← hratio, le_div_iff₀ (Nat.cast_pos.mpr hden), Nat.le_div_iff_mul_le hden, Nat.pow_eq]
    norm_cast
  simp only [hscaled]
  generalize (n : ℚ) / d = x at hlow hhigh ⊢
  split
  · next hfits =>
    rw [le_div_iff₀ (two_zpow_pos q)] at hfits
    refine ⟨by omega, ?_, fun _ => ?_⟩
    · rw [div_lt_iff₀ (two_zpow_pos _), two_pow_mul_zpow]
      exact hhigh.trans_le (zpow_le_zpow_right₀ one_le_two (by omega))
    · rw [le_div_iff₀ (two_zpow_pos _), zpow_add_one₀ two_ne_zero]
      linarith
  · next hsmall =>
    refine ⟨by omega, not_le.mp hsmall, fun hleast => ?_⟩
    -- Above the least unit the exponent is the one that was found from the lengths.
    rw [le_div_iff₀ (two_zpow_pos q), two_pow_mul_zpow]
    exact (zpow_le_zpow_right₀ one_le_two (by omega)).trans hlow.le

/-! ## The interval of a number -/

end Double

namespace Decimal.Interval

variable {m : Nat} {q : Int} {y : ℚ}

/-- The number, in quarters of the unit, lies in the interval. -/
structure Holds (i : Interval) (y : ℚ) : Prop where
  low : (i.low : ℚ) ≤ y
  high : y ≤ i.high
  inside : i.closed = false → (i.low : ℚ) < y ∧ y < i.high

theorem holds_of_lt {i : Interval} (hlow : (i.low : ℚ) < y) (hhigh : y < i.high) : i.Holds y :=
  ⟨hlow.le, hhigh.le, fun _ => ⟨hlow, hhigh⟩⟩

/-- The interval reaches half a unit down at most. -/
theorem sub_two_le_low (m : Nat) (q : Int) : (4 * m - 2 : ℚ) ≤ (around m q).low := by
  have hlow : 4 * m ≤ (around m q).low + 2 := by
    unfold around
    dsimp only
    split <;> omega
  have hcast : (4 * m : ℚ) ≤ (around m q).low + 2 := by exact_mod_cast hlow
  linarith

theorem high_around (m : Nat) (q : Int) : ((around m q).high : ℚ) = 4 * m + 2 := by
  rw [around]
  push_cast
  rfl

theorem low_lt_value (hm : 0 < m) (q : Int) : (around m q).low < (around m q).value := by
  unfold around
  dsimp only
  split <;> omega

theorem value_lt_high (m : Nat) (q : Int) : (around m q).value < (around m q).high := by
  unfold around
  dsimp only
  omega

/-- The number lies in its own interval. -/
theorem holds_value (hm : 0 < m) (q : Int) : (around m q).Holds (4 * m) := by
  have hlow : ((around m q).low : ℚ) < ((around m q).value : Nat) :=
    Nat.cast_lt.mpr (low_lt_value hm q)
  have hhigh : (((around m q).value : Nat) : ℚ) < (around m q).high :=
    Nat.cast_lt.mpr (value_lt_high m q)
  have hvalue : (((around m q).value : Nat) : ℚ) = 4 * m := by
    rw [around]
    push_cast
    rfl
  rw [hvalue] at hlow hhigh
  exact holds_of_lt hlow hhigh

/-- Below a power of two it reaches a quarter of a unit down. -/
theorem low_around_of_least (hq : -1074 < q) : ((around (2 ^ 52) q).low : ℚ) = 4 * 2 ^ 52 - 1 := by
  rw [around, if_pos ⟨rfl, hq⟩]
  norm_num

theorem nearest_of_holds (h : (around m q).Holds (4 * y)) : Double.Nearest m y := by
  have hlow := sub_two_le_low m q
  have hhigh := high_around m q
  refine ⟨by linarith [h.low], by linarith [h.high], fun hodd => ?_⟩
  have hclosed : (around m q).closed = false := by
    rw [around]
    simp [hodd]
  obtain ⟨hleft, hright⟩ := h.inside hclosed
  exact ⟨by linarith, by linarith⟩

end Decimal.Interval

namespace Double

open Decimal

variable {n d m : Nat} {q : Int} {x : ℚ}

/-- A significand and an exponent of a finite double, up to the range of exponents. -/
structure IsForm (m : Nat) (q : Int) : Prop where
  lt : m < 2 ^ 53
  least : -1074 ≤ q
  full : -1074 < q → 2 ^ 52 ≤ m

/-- A number in the interval has the unit of the interval, or that below it where the interval
reaches below a power of two. -/
theorem IsForm.isUnit (hform : IsForm m q) (h : (Interval.around m q).Holds (4 * (x / 2 ^ q))) :
    IsUnit x q ∨ m = 2 ^ 52 ∧ IsUnit x (q - 1) ∧ Nearest (2 ^ 53) (x / 2 ^ (q - 1)) := by
  have hnearest := Interval.nearest_of_holds h
  have hm : (m : ℚ) + 1 ≤ 2 ^ 53 := by exact_mod_cast hform.lt
  have hlt : x / 2 ^ q < 2 ^ 53 := by linarith [hnearest.2.1]
  by_cases hfull : -1074 < q → 2 ^ 52 ≤ x / 2 ^ q
  · exact Or.inl ⟨hform.least, hlt, hfull⟩
  · obtain ⟨hq, hbelow⟩ := Classical.not_imp.mp hfull
    rw [not_le] at hbelow
    have hpower : m = 2 ^ 52 := by
      have hle : m ≤ 2 ^ 52 := by
        have hcast : (m : ℚ) < 2 ^ 52 + 1 := by linarith [hnearest.1]
        have hnat : m < 2 ^ 52 + 1 := by exact_mod_cast hcast
        omega
      exact le_antisymm hle (hform.full hq)
    subst hpower
    have hlow := h.low
    rw [Interval.low_around_of_least hq] at hlow
    have hdouble : x / 2 ^ (q - 1) = 2 * (x / 2 ^ q) := by
      rw [zpow_sub_one₀ two_ne_zero]
      field_simp
    refine Or.inr ⟨rfl, ⟨by omega, ?_, fun _ => ?_⟩, ?_⟩
    · linarith
    · linarith
    · rw [hdouble]
      refine ⟨?_, ?_, fun hodd => absurd hodd (by decide)⟩
      · push_cast
        linarith
      · push_cast
        linarith

/-- A fraction in the interval is rounded to the number. -/
theorem ofRatio_eq (hn : 0 < n) (hd : 0 < d) (hform : IsForm m q)
    (h : (Interval.around m q).Holds (4 * ((n : ℚ) / d / 2 ^ q))) (negative : Bool) :
    ofRatio negative n d =
      ofMagnitude negative (min ((q + 1074).toNat * Nat.pow 2 52 + m) infinite) := by
  have hunit := isUnit_unitExponent hn hd
  have hrounded : ∀ {p : Int} {k : Nat}, Nearest k ((n : ℚ) / d / 2 ^ p) →
      roundDiv (n * Nat.pow 2 (-p).toNat) (d * Nat.pow 2 p.toNat) = k := by
    intro p k hk
    have hratio := cast_ratio two_pos n d p
    rw [Nat.cast_two] at hratio
    exact roundDiv_eq (Nat.mul_pos hd (Nat.pow_pos two_pos)) (hratio ▸ hk)
  rw [ofRatio, if_neg (by omega)]
  dsimp only
  rcases hform.isUnit h with hq | ⟨rfl, hq, hnearest⟩
  · rw [hunit.unique hq, hrounded (Interval.nearest_of_holds h)]
  · -- It is rounded up to the power of two, and the carry goes into the exponent.
    rw [hunit.unique hq, hrounded hnearest]
    have hcarry : (q - 1 + 1074).toNat * Nat.pow 2 52 + 2 ^ 53 =
        (q + 1074).toNat * Nat.pow 2 52 + 2 ^ 52 := by
      have hleast := hq.least
      rw [Nat.pow_eq]
      omega
    rw [hcarry]

/-! ## Doubles -/

theorem magnitude_lt (x : Double) : x.magnitude < 2 ^ 63 := Nat.mod_lt _ (by decide)

/-- A double is its sign and its magnitude. -/
theorem ofMagnitude_magnitude (x : Double) : ofMagnitude x.negative x.magnitude = x := by
  obtain ⟨bits⟩ := x
  have hbits : bits.toNat < 2 ^ 64 := bits.toNat_lt
  have hnat : (if Double.negative ⟨bits⟩ then Double.magnitude ⟨bits⟩ + Nat.pow 2 63
      else Double.magnitude ⟨bits⟩) = bits.toNat := by
    simp only [negative, magnitude, Nat.pow_eq, decide_eq_true_eq]
    split <;> omega
  rw [ofMagnitude, hnat, UInt64.ofNat_toNat]

theorem isForm {x : Double} : IsForm x.significand x.exponent := by
  have hmagnitude := x.magnitude_lt
  unfold significand exponent
  simp only [Nat.pow_eq]
  split
  · exact ⟨by omega, by omega, fun h => absurd h (by omega)⟩
  · exact ⟨by omega, by omega, fun _ => by omega⟩

/-- The magnitude of a double from its significand and its exponent. -/
theorem magnitude_eq (x : Double) :
    x.magnitude = (x.exponent + 1074).toNat * Nat.pow 2 52 + x.significand := by
  unfold significand exponent
  simp only [Nat.pow_eq]
  split <;> omega

/-- The number is rounded to the double, up to its sign. -/
def Owns (x : Double) (y : ℚ) : Prop :=
  (Interval.around x.significand x.exponent).Holds (4 * (y / 2 ^ x.exponent))

/-- A fraction that a finite double owns is rounded to it. -/
theorem ofRatio_of_owns {x : Double} (hfinite : x.isFinite = true) (hn : 0 < n) (hd : 0 < d)
    (h : x.Owns ((n : ℚ) / d)) : ofRatio x.negative n d = x := by
  have hlt : x.magnitude < infinite := of_decide_eq_true hfinite
  rw [ofRatio_eq hn hd isForm h, ← magnitude_eq, min_eq_left hlt.le,
    ofMagnitude_magnitude]

end Double

end SelectEngine
