import SelectEngine.Proofs.Decimal.Positional
import SelectEngine.Proofs.Decimal.Shortest
import SelectEngine.Value

/-!
# The digits of a double

The digits that a finite double is written with make a decimal that the double owns
(`Double.exists_spells`), so that they are read as the double where they are read as a decimal
(`Double.toDouble_of_spells`). They have no point exactly where the double is a whole number of
sixteen digits or more; then they are those of an integer, which fits 64 bits if the number does
(`Double.Owns.lt_of_whole`), and does not if it does not (`Double.lt_of_shortest`).
-/

set_option autoImplicit false

namespace SelectEngine

open Decimal

namespace Double

variable {x : Double} {n : Nat} {e : Int} {y : ℚ}

/-! ## Decimals that a double owns -/

theorem exponent_le (h : x.isFinite = true) : x.exponent ≤ 971 := by
  have hlt : x.magnitude < infinite := of_decide_eq_true h
  have hinfinite : infinite = 2047 * 2 ^ 52 := rfl
  unfold exponent
  simp only [Nat.pow_eq]
  split <;> omega

/-- What a double owns is half a unit away at most. -/
theorem Owns.bounds (h : x.Owns y) :
    ((x.significand : ℚ) - 1 / 2) * 2 ^ x.exponent ≤ y ∧
      y ≤ ((x.significand : ℚ) + 1 / 2) * 2 ^ x.exponent := by
  obtain ⟨hlow, hhigh, -⟩ := Interval.nearest_of_holds h
  have hunit := two_zpow_pos x.exponent
  exact ⟨(le_div_iff₀ hunit).mp hlow, (div_le_iff₀ hunit).mp hhigh⟩

/-- Half of the least double is greater than the decimals that are read as zero without computing a
power. -/
theorem ten_zpow_lt_half : (10 : ℚ) ^ (-324 : Int) < 1 / 2 * 2 ^ (-1074 : Int) := by
  have hnat : 2 ^ 1075 < 10 ^ 324 := by decide +kernel
  have hcast : (2 : ℚ) ^ 1075 < 10 ^ 324 := by exact_mod_cast hnat
  have hhalf : (1 / 2 : ℚ) * 2 ^ (-1074 : Int) = (2 ^ 1075)⁻¹ := by
    rw [pow_succ, mul_inv, zpow_neg, mul_comm, one_div]
    rfl
  rw [hhalf, zpow_neg]
  exact inv_strictAnti₀ (by positivity) hcast

theorem two_zpow_lt_ten_zpow : (2 : ℚ) ^ 53 * 2 ^ (971 : Int) < 10 ^ (309 : Int) := by
  have hnat : 2 ^ 53 * 2 ^ 971 < 10 ^ 309 := by decide +kernel
  exact_mod_cast hnat

/-- What a finite double that is not zero owns is within the range in which decimals are read
exactly. -/
theorem Owns.range (h : x.Owns y) (hfinite : x.isFinite = true) (hpos : 0 < x.significand) :
    (10 : ℚ) ^ (-324 : Int) < y ∧ y < 10 ^ (309 : Int) := by
  obtain ⟨hlow, hhigh⟩ := h.bounds
  have hsignificand : (1 : ℚ) ≤ x.significand := by exact_mod_cast hpos
  have hform := x.isForm
  have hlt : (x.significand : ℚ) + 1 ≤ 2 ^ 53 := by exact_mod_cast hform.lt
  constructor
  · have hleast : (2 : ℚ) ^ (-1074 : Int) ≤ 2 ^ x.exponent :=
      zpow_le_zpow_right₀ one_le_two hform.least
    calc (10 : ℚ) ^ (-324 : Int) < 1 / 2 * 2 ^ (-1074 : Int) := ten_zpow_lt_half
      _ ≤ ((x.significand : ℚ) - 1 / 2) * 2 ^ x.exponent := by
        have hhalf : (1 / 2 : ℚ) ≤ x.significand - 1 / 2 := by linarith
        gcongr
      _ ≤ y := hlow
  · have hgreatest : (2 : ℚ) ^ x.exponent ≤ 2 ^ (971 : Int) :=
      zpow_le_zpow_right₀ one_le_two (exponent_le hfinite)
    calc y ≤ ((x.significand : ℚ) + 1 / 2) * 2 ^ x.exponent := hhigh
      _ ≤ 2 ^ 53 * 2 ^ (971 : Int) := by
        have hhalf : (x.significand : ℚ) + 1 / 2 ≤ 2 ^ 53 := by linarith
        gcongr
      _ < 10 ^ (309 : Int) := two_zpow_lt_ten_zpow

theorem Owns.pos (h : x.Owns y) (hfinite : x.isFinite = true) (hpos : 0 < x.significand) : 0 < y :=
  lt_trans (by positivity) (h.range hfinite hpos).1

/-- A decimal that a finite double owns is read as the double. -/
theorem toDouble_of_owns (hfinite : x.isFinite = true) (hpos : 0 < x.significand) (hn : 0 < n)
    (h : x.Owns (n * 10 ^ e)) : toDouble x.negative n e = x := by
  obtain ⟨hlow, hhigh⟩ := h.range hfinite hpos
  obtain ⟨k, hk, hle, hlt⟩ := exists_digitCount hn
  have hten : (10 : ℚ) ≠ 0 := by norm_num
  have hshift : (0 : ℚ) < 10 ^ e := by positivity
  -- The number of digits tells the size of the decimal.
  have hleast : -324 < (k : Int) + 1 + e := by
    have hnlt : (n : ℚ) < 10 ^ (k + 1) := by exact_mod_cast hlt
    have hpower : (n : ℚ) * 10 ^ e < 10 ^ ((k : Int) + 1 + e) := by
      rw [zpow_add₀ hten, ← Nat.cast_succ, zpow_natCast]
      gcongr
    exact (zpow_lt_zpow_iff_right₀ (by norm_num)).mp (hlow.trans hpower)
  have hgreatest : (k : Int) + e < 309 := by
    have hnle : (10 : ℚ) ^ k ≤ n := by exact_mod_cast hle
    have hpower : (10 : ℚ) ^ ((k : Int) + e) ≤ n * 10 ^ e := by
      rw [zpow_add₀ hten, zpow_natCast]
      gcongr
    exact (zpow_lt_zpow_iff_right₀ (by norm_num)).mp (hpower.trans_lt hhigh)
  have hratio := cast_ratio (b := 10) (by decide) n 1 (-e)
  rw [neg_neg, Nat.one_mul, Nat.cast_one, div_one, zpow_neg, div_inv_eq_mul] at hratio
  unfold toDouble
  rw [hk]
  dsimp only
  rw [if_neg (by omega), if_neg (by omega)]
  refine ofRatio_of_owns hfinite (Nat.mul_pos hn (Nat.pow_pos (by decide)))
    (Nat.pow_pos (by decide)) ?_
  rw [hratio]
  exact h

theorem toDouble_of_spells {whole fraction : List Char} (hfinite : x.isFinite = true)
    (hpos : 0 < x.significand) (h : Spells whole fraction y) (howns : x.Owns y) :
    toDouble x.negative (valueOf (whole ++ fraction)) (-fraction.length) = x := by
  refine toDouble_of_owns hfinite hpos (h.valueOf_pos (howns.pos hfinite hpos)) ?_
  rwa [zpow_neg, zpow_natCast, ← div_eq_mul_inv, h.value]

/-! ## Whole numbers -/

theorem whole?_eq (x : Double) : x.whole? =
    if x.significand % 2 ^ (-x.exponent).toNat = 0 then
      some (x.significand / 2 ^ (-x.exponent).toNat * 2 ^ x.exponent.toNat)
    else none := rfl

theorem cast_whole (h : x.whole? = some n) : (n : ℚ) = x.significand * 2 ^ x.exponent := by
  rw [whole?_eq] at h
  split at h
  · next hmod =>
    cases h
    obtain ⟨k, hk⟩ := Nat.dvd_of_mod_eq_zero hmod
    rw [zpow_eq_div two_ne_zero, hk, Nat.mul_div_cancel_left _ (Nat.two_pow_pos _)]
    push_cast
    field_simp
  · cases h

/-- A double that owns a whole number is whole. -/
theorem exists_whole_of_owns {v : Nat} (h : x.Owns v) : ∃ n, x.whole? = some n := by
  rw [whole?_eq]
  rcases lt_or_ge x.exponent 0 with hq | hq
  · -- Both are multiples of the unit, and less than a unit apart.
    have hscaled : (v : ℚ) / 2 ^ x.exponent = (v * 2 ^ (-x.exponent).toNat : Nat) := by
      rw [zpow_eq_div two_ne_zero, Int.toNat_of_nonpos hq.le]
      push_cast
      field_simp
    obtain ⟨hlow, hhigh, -⟩ := Interval.nearest_of_holds h
    rw [hscaled] at hlow hhigh
    have hle : x.significand < v * 2 ^ (-x.exponent).toNat + 1 := by
      have hcast : (x.significand : ℚ) < (v * 2 ^ (-x.exponent).toNat : Nat) + 1 := by linarith
      exact_mod_cast hcast
    have hge : v * 2 ^ (-x.exponent).toNat < x.significand + 1 := by
      have hcast : ((v * 2 ^ (-x.exponent).toNat : Nat) : ℚ) < x.significand + 1 := by linarith
      exact_mod_cast hcast
    have heq : x.significand = v * 2 ^ (-x.exponent).toNat := by omega
    rw [if_pos (heq ▸ Nat.mul_mod_left v _)]
    exact ⟨_, rfl⟩
  · rw [Int.toNat_of_nonpos (Int.neg_nonpos_of_nonneg hq), Nat.pow_zero, if_pos (Nat.mod_one _)]
    exact ⟨_, rfl⟩

theorem owns_whole (hpos : 0 < x.significand) (h : x.whole? = some n) : x.Owns n := by
  rw [Owns, cast_whole h, mul_div_assoc, div_self (two_zpow_pos x.exponent).ne', mul_one]
  exact Interval.holds_value hpos x.exponent

/-- The numbers that fit an integer are those with an exponent of ten at most. -/
theorem exponent_le_iff (hpos : 0 < x.significand) (h : x.whole? = some n) :
    n < 2 ^ 63 ↔ x.exponent ≤ 10 := by
  have hform := x.isForm
  have hlt : (x.significand : ℚ) < 2 ^ 53 := by exact_mod_cast hform.lt
  have hn : n < 2 ^ 63 ↔ (x.significand : ℚ) * 2 ^ x.exponent < 2 ^ 63 := by
    rw [← cast_whole h]
    norm_cast
  rw [hn]
  constructor
  · intro hfits
    by_contra hover
    have hfull : (2 : ℚ) ^ 52 ≤ x.significand := by exact_mod_cast hform.full (by omega)
    have hpower : (2 : ℚ) ^ (11 : Int) ≤ 2 ^ x.exponent :=
      zpow_le_zpow_right₀ one_le_two (by omega)
    have hproduct : (2 : ℚ) ^ 52 * 2 ^ (11 : Int) ≤ x.significand * 2 ^ x.exponent := by gcongr
    norm_num at hproduct hfits
    linarith
  · intro hq
    have hpower : (2 : ℚ) ^ x.exponent ≤ 2 ^ (10 : Int) := zpow_le_zpow_right₀ one_le_two hq
    calc (x.significand : ℚ) * 2 ^ x.exponent ≤ x.significand * 2 ^ (10 : Int) := by gcongr
      _ < 2 ^ 53 * 2 ^ (10 : Int) := by gcongr
      _ = 2 ^ 63 := by norm_num

/-- What a whole number owns fits an integer with it. -/
theorem Owns.lt_of_whole {v : Nat} (h : x.Owns v) (hpos : 0 < x.significand)
    (hn : x.whole? = some n) (hfits : n < 2 ^ 63) : v < 2 ^ 63 := by
  have hq := (exponent_le_iff hpos hn).mp hfits
  have hlt : (x.significand : ℚ) + 1 ≤ 2 ^ 53 := by exact_mod_cast x.isForm.lt
  have hpower : (2 : ℚ) ^ x.exponent ≤ 2 ^ (10 : Int) := zpow_le_zpow_right₀ one_le_two hq
  have hhalf : (x.significand : ℚ) + 1 / 2 < 2 ^ 53 := by linarith
  have hv : (v : ℚ) < 2 ^ 63 :=
    calc (v : ℚ) ≤ (x.significand + 1 / 2) * 2 ^ x.exponent := h.bounds.2
      _ ≤ (x.significand + 1 / 2) * 2 ^ (10 : Int) := by gcongr
      _ < 2 ^ 53 * 2 ^ (10 : Int) := by gcongr
      _ = 2 ^ 63 := by norm_num
  exact_mod_cast hv

/-- The shortest decimal of a number that does not fit an integer does not fit either. The least of
these numbers owns integers that do, but its shortest decimal is greater than it. -/
theorem lt_of_shortest {digits v : Nat} (hpos : 0 < x.significand) (hn : x.whole? = some n)
    (hover : 2 ^ 63 ≤ n) (hshortest : shortest x.significand x.exponent = (digits, e))
    (hv : (v : ℚ) = digits * 10 ^ e) : 2 ^ 63 < v := by
  have hform := x.isForm
  have hq : 10 < x.exponent :=
    not_le.mp fun hle => absurd ((exponent_le_iff hpos hn).mpr hle) (not_lt.mpr hover)
  have hfull := hform.full (by omega)
  by_cases hleast : x.significand = 2 ^ 52 ∧ x.exponent = 11
  · rw [hleast.1, hleast.2] at hshortest
    have hcomputed : shortest (2 ^ 52) 11 = (9223372036854776, 3) := by decide +kernel
    obtain ⟨rfl, rfl⟩ := Prod.mk.inj (hcomputed.symm.trans hshortest)
    have hnat : v = 9223372036854776 * 10 ^ 3 := by exact_mod_cast hv
    omega
  · have howns : x.Owns v := by
      have hholds := shortest_holds hpos hform.lt hshortest
      rwa [← hv] at hholds
    have hlow := howns.bounds.1
    have hbound : (2 : ℚ) ^ 63 < (x.significand - 1 / 2) * 2 ^ x.exponent := by
      rcases eq_or_lt_of_le (show 11 ≤ x.exponent by omega) with heq | hgt
      · have hsignificand : 4503599627370497 ≤ x.significand := by omega
        have hcast : (4503599627370497 : ℚ) ≤ x.significand := by exact_mod_cast hsignificand
        rw [← heq]
        norm_num
        linarith
      · have hsignificand : 4503599627370496 ≤ x.significand := by omega
        have hcast : (4503599627370496 : ℚ) ≤ x.significand := by exact_mod_cast hsignificand
        have hpower : (2 : ℚ) ^ (12 : Int) ≤ 2 ^ x.exponent :=
          zpow_le_zpow_right₀ one_le_two (by omega)
        have hhalf : (2251799813685248 : ℚ) < x.significand - 1 / 2 := by linarith
        calc (2 : ℚ) ^ 63 = 2251799813685248 * 2 ^ (12 : Int) := by norm_num
          _ < (x.significand - 1 / 2) * 2 ^ (12 : Int) := by gcongr
          _ ≤ (x.significand - 1 / 2) * 2 ^ x.exponent :=
            mul_le_mul_of_nonneg_left hpower (by linarith)
    exact_mod_cast hbound.trans_le hlow

/-! ## Digits -/

/-- A whole number of few digits is written in full, with a zero behind the point. -/
theorem digits_of_few (h : x.whole? = some n) (hfew : n < 10 ^ 15) :
    x.digits = Nat.toDigits 10 n ++ '.' :: ['0'] := by
  have hpower : n < Nat.pow 10 15 := hfew
  rw [digits, h]
  exact if_pos hpower

/-- Every other number is written by its shortest decimal. -/
theorem digits_of_many {digits : Nat} (hpos : 0 < x.significand)
    (hmany : ∀ n, x.whole? = some n → 10 ^ 15 ≤ n)
    (hshortest : shortest x.significand x.exponent = (digits, e)) :
    x.digits = positional digits e := by
  have hzero : x.isZero = false := by
    rw [isZero, beq_eq_false_iff_ne]
    intro hmagnitude
    rw [significand, if_pos (hmagnitude ▸ Nat.pow_pos two_pos), hmagnitude] at hpos
    exact absurd hpos (lt_irrefl 0)
  have hwritten : x.shortestDigits = positional digits e := by
    rw [shortestDigits, hzero, if_neg Bool.false_ne_true, hshortest]
  unfold Double.digits
  split
  · next n hn =>
    have hnot : ¬n < Nat.pow 10 15 := not_lt.mpr (hmany n hn)
    rw [if_neg hnot, hwritten]
  · exact hwritten

/-- The digits of a finite double that is not zero make a number that it owns. They have no point
where the double is whole and has sixteen digits or more, and only there. -/
theorem exists_spells (hpos : 0 < x.significand) :
    ∃ (whole fraction : List Char) (y : ℚ), Spells whole fraction y ∧ x.Owns y ∧
      ((x.digits = whole ++ '.' :: fraction ∧ ∀ n, x.whole? = some n → n < 10 ^ 15) ∨
        x.digits = whole ∧ fraction = [] ∧ ∃ n, x.whole? = some n ∧ 10 ^ 15 ≤ n ∧
          (2 ^ 63 ≤ n → 2 ^ 63 < valueOf whole)) := by
  by_cases hsmall : ∃ n, x.whole? = some n ∧ n < 10 ^ 15
  · obtain ⟨n, hn, hfew⟩ := hsmall
    refine ⟨_, _, n, spells_natural n, owns_whole hpos hn,
      Or.inl ⟨digits_of_few hn hfew, fun other hother => ?_⟩⟩
    cases hn.symm.trans hother
    exact hfew
  · have hmany : ∀ n, x.whole? = some n → 10 ^ 15 ≤ n := fun n hn =>
      not_lt.mp fun hfew => hsmall ⟨n, hn, hfew⟩
    have hlt := x.isForm.lt
    cases hshortest : shortest x.significand x.exponent with
    | mk digits e =>
      have hdigits := digits_of_many hpos hmany hshortest
      have howns : x.Owns (digits * 10 ^ e) := shortest_holds hpos hlt hshortest
      obtain ⟨whole, fraction, hspells, hform⟩ := exists_positional digits e
      refine ⟨whole, fraction, _, hspells, howns, ?_⟩
      rcases hform with ⟨htext, rfl⟩ | ⟨htext, hnegative⟩
      · have hvalue := hspells.value
        rw [List.append_nil, List.length_nil, pow_zero, div_one] at hvalue
        rw [← hvalue] at howns
        obtain ⟨n, hn⟩ := exists_whole_of_owns howns
        exact Or.inr ⟨hdigits.trans htext, rfl, n, hn, hmany n hn, fun hover =>
          lt_of_shortest hpos hn hover hshortest hvalue⟩
      · -- A whole number has no digits behind a point.
        refine Or.inl ⟨hdigits.trans htext, fun n hn => ?_⟩
        exact absurd (shortest_nonneg hpos hlt hshortest (cast_whole hn)) (not_le.mpr hnegative)

end Double

end SelectEngine
