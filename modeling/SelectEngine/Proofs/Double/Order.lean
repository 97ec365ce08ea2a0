import SelectEngine.Proofs.Double.Rounding

/-!
# Rounding keeps the order

A larger fraction is never rounded to a smaller double (`Rounds.mono`), so that the order of
integers and the order of the doubles they are rounded to agree as far as they can:
`key_ofInt_mono`. Up to `2 ^ 53` every integer is a double, and no two of these are rounded to the
same (`key_ofInt_strictMono`).
-/

set_option autoImplicit false

namespace SelectEngine.Double

variable {x y : ℚ} {k l m n d e : Nat} {p q : Int} {i j : Int}

/-! ## Nearest integers -/

theorem nearest_natCast (m : Nat) : Nearest m (m : ℚ) :=
  ⟨by linarith, by linarith, fun _ => ⟨by linarith, by linarith⟩⟩

theorem ratio_le_half_iff (hd : 0 < d) : (n : ℚ) / d ≤ 1 / 2 ↔ 2 * n ≤ d := by
  rw [div_le_div_iff₀ (Nat.cast_pos.mpr hd) two_pos, one_mul, mul_comm]
  exact_mod_cast Iff.rfl

theorem half_le_ratio_iff (hd : 0 < d) : (1 : ℚ) / 2 ≤ n / d ↔ d ≤ 2 * n := by
  rw [div_le_div_iff₀ two_pos (Nat.cast_pos.mpr hd), one_mul, mul_comm]
  exact_mod_cast Iff.rfl

/-- Rounding a quotient gives the integer nearest to it. -/
theorem nearest_roundDiv (n : Nat) (hd : 0 < d) : Nearest (roundDiv n d) ((n : ℚ) / d) := by
  have hdpos : (0 : ℚ) < d := Nat.cast_pos.mpr hd
  have hratio : (n : ℚ) / d = (n / d : Nat) + ((n % d : Nat) : ℚ) / d := by
    have hdivision : ((n / d : Nat) : ℚ) * d + (n % d : Nat) = n := by
      exact_mod_cast Nat.div_add_mod' n d
    rw [← hdivision]
    field_simp
  have hle := ratio_le_half_iff (n := n % d) hd
  have hge := half_le_ratio_iff (n := n % d) hd
  have hnonneg : (0 : ℚ) ≤ (n % d : Nat) / d := by positivity
  have hlt : ((n % d : Nat) : ℚ) / d < 1 := by
    rw [div_lt_one hdpos]
    exact_mod_cast Nat.mod_lt n hd
  rw [hratio]
  unfold roundDiv
  dsimp only
  generalize n / d = t
  generalize ((n % d : Nat) : ℚ) / d = f at hle hge hnonneg hlt ⊢
  split
  · next hup =>
    have hhalf := hge.mpr (by omega)
    refine ⟨by push_cast; linarith, by push_cast; linarith, fun hodd => ?_⟩
    have hhalf' := not_le.mp (mt hle.mp (by omega))
    exact ⟨by push_cast; linarith, by push_cast; linarith⟩
  · next hdown =>
    have hhalf := hle.mpr (by omega)
    refine ⟨by linarith, by linarith, fun hodd => ?_⟩
    have hhalf' := not_le.mp (mt hge.mp (by omega))
    exact ⟨by linarith, by linarith⟩

/-- The nearest integers of two numbers are in the order of the numbers: of two neighbours that both
lie half a unit away one is odd, and no odd one is nearest so far away. -/
theorem Nearest.mono (hx : Nearest m x) (hy : Nearest n y) (hxy : x ≤ y) : m ≤ n := by
  obtain ⟨hlow, -, hodd⟩ := hx
  obtain ⟨-, hhigh, hodd'⟩ := hy
  by_contra hlt
  have hcast : (n : ℚ) + 1 ≤ m := by exact_mod_cast not_le.mp hlt
  have hne : ¬(m % 2 = 1) := fun h => by linarith [(hodd h).1]
  have hne' : ¬(n % 2 = 1) := fun h => by linarith [(hodd' h).2]
  have hnext : (m : ℚ) ≤ n + 1 := by linarith
  have hnext' : m ≤ n + 1 := by exact_mod_cast hnext
  omega

/-- An integer is nearest to no other. -/
theorem Nearest.eq_of_natCast (h : Nearest m (n : ℚ)) : m = n :=
  le_antisymm (h.mono (nearest_natCast n) le_rfl) ((nearest_natCast n).mono h le_rfl)

/-! ## The unit and the significand of a fraction -/

/-- The fraction is rounded to this many of its unit. -/
structure Rounds (x : ℚ) (q : Int) (m : Nat) : Prop where
  unit : IsUnit x q
  nearest : Nearest m (x / 2 ^ q)

/-- The magnitude of a double from its unit and its significand, where no exponent is too large. -/
def place (q : Int) (m : Nat) : Nat := (q + 1074).toNat * Nat.pow 2 52 + m

theorem Rounds.le (h : Rounds x q m) : m ≤ 2 ^ 53 := by
  refine h.nearest.mono (nearest_natCast (2 ^ 53)) ?_
  push_cast
  exact h.unit.lt.le

theorem Rounds.ge (h : Rounds x q m) (hq : -1074 < q) : 2 ^ 52 ≤ m := by
  refine (nearest_natCast (2 ^ 52)).mono h.nearest ?_
  push_cast
  exact h.unit.full hq

/-- A fraction below another has no larger unit. -/
theorem IsUnit.mono (hx : IsUnit x p) (hy : IsUnit y q) (hxy : x ≤ y) : p ≤ q := by
  by_contra hlt
  have hfull := hx.full (hy.least.trans_lt (not_le.mp hlt))
  have hylt := hy.lt
  rw [le_div_iff₀ (two_zpow_pos p)] at hfull
  rw [div_lt_iff₀ (two_zpow_pos q)] at hylt
  have hstep : (2 : ℚ) ^ (q + 1) ≤ 2 ^ p := zpow_le_zpow_right₀ one_le_two (by omega)
  rw [zpow_add_one₀ two_ne_zero] at hstep
  linarith

theorem Rounds.mono (hx : Rounds x p m) (hy : Rounds y q n) (hxy : x ≤ y) :
    place p m ≤ place q n := by
  have hm := hx.le
  unfold place
  rw [Nat.pow_eq]
  rcases (hx.unit.mono hy.unit hxy).eq_or_lt with rfl | hlt
  · have hnearest : m ≤ n := hx.nearest.mono hy.nearest (by gcongr)
    omega
  · -- A larger unit outweighs what the significands can differ by.
    have hleast := hx.unit.least
    have hn := hy.ge (hleast.trans_lt hlt)
    omega

/-- An integer of 53 binary digits, or the one behind these, is a multiple of its unit. -/
theorem IsUnit.exact (h : IsUnit (n : ℚ) q) (hn : 0 < n) (hle : n ≤ 2 ^ 53) :
    -53 < q ∧ q ≤ 1 ∧ ∃ m : Nat, (n : ℚ) / 2 ^ q = m := by
  have hlow : -53 < q := by
    have hlt := h.lt
    rw [div_lt_iff₀ (two_zpow_pos q), two_pow_mul_zpow] at hlt
    have hone : (1 : ℚ) ≤ n := by exact_mod_cast hn
    have hpower : (2 : ℚ) ^ (0 : Int) < 2 ^ ((53 : Nat) + q) := by
      rw [zpow_zero]
      exact hone.trans_lt hlt
    have := (zpow_lt_zpow_iff_right₀ one_lt_two).mp hpower
    omega
  have hfull := h.full (by omega)
  rw [le_div_iff₀ (two_zpow_pos q), two_pow_mul_zpow] at hfull
  have hbound : (2 : ℚ) ^ ((52 : Nat) + q) ≤ 2 ^ (53 : Int) := by
    have hcast : (n : ℚ) ≤ 2 ^ 53 := by exact_mod_cast hle
    exact hfull.trans (by exact_mod_cast hcast)
  have hhigh : q ≤ 1 := by
    have := (zpow_le_zpow_iff_right₀ one_lt_two).mp hbound
    omega
  refine ⟨hlow, hhigh, ?_⟩
  rcases hhigh.eq_or_lt with rfl | hlt
  · -- The unit of two is that of the power alone.
    have hpower : n = 2 ^ 53 := by
      refine le_antisymm hle ?_
      exact_mod_cast hfull
    refine ⟨2 ^ 52, ?_⟩
    rw [hpower]
    norm_num
  · refine ⟨n * 2 ^ (-q).toNat, ?_⟩
    rw [div_eq_mul_inv, ← zpow_neg, Nat.cast_mul, Nat.cast_pow, Nat.cast_two, ← zpow_natCast,
      Int.toNat_of_nonneg (by omega)]

theorem Rounds.lt (hx : Rounds (m : ℚ) p k) (hy : Rounds (n : ℚ) q l) (hm : 0 < m) (hmn : m < n)
    (hle : n ≤ 2 ^ 53) : place p k < place q l := by
  have hcast : (m : ℚ) < n := Nat.cast_lt.mpr hmn
  obtain ⟨-, -, m', hm'⟩ := hx.unit.exact hm (by omega)
  obtain ⟨-, -, n', hn'⟩ := hy.unit.exact (by omega) hle
  have hx' := hx.nearest
  have hy' := hy.nearest
  rw [hm'] at hx'
  rw [hn'] at hy'
  obtain rfl := hx'.eq_of_natCast
  obtain rfl := hy'.eq_of_natCast
  have hklt := hx.unit.lt
  rw [hm'] at hklt
  have hk : k < 2 ^ 53 := by exact_mod_cast hklt
  unfold place
  rw [Nat.pow_eq]
  rcases (hx.unit.mono hy.unit hcast.le).eq_or_lt with rfl | hlt
  · have hdiv : (m : ℚ) / 2 ^ p < n / 2 ^ p := div_lt_div_of_pos_right hcast (two_zpow_pos p)
    rw [hm', hn'] at hdiv
    have hkl : k < l := by exact_mod_cast hdiv
    omega
  · have hleast := hx.unit.least
    have hl := hy.ge (hleast.trans_lt hlt)
    omega

/-! ## Rounded fractions -/

theorem infinite_lt : infinite < 2 ^ 63 := by decide

theorem magnitude_ofMagnitude (negative : Bool) (hm : m < 2 ^ 63) :
    (ofMagnitude negative m).magnitude = m := by
  cases negative <;> simp only [magnitude, ofMagnitude, Nat.pow_eq, UInt64.toNat_ofNat'] <;>
    simp <;> omega

theorem negative_ofMagnitude (negative : Bool) (hm : m < 2 ^ 63) :
    (ofMagnitude negative m).negative = negative := by
  cases negative <;> simp only [Double.negative, ofMagnitude, Nat.pow_eq, UInt64.toNat_ofNat'] <;>
    simp <;> omega

/-- The magnitude of the double nearest to a fraction. -/
def rounded (n d : Nat) : Nat := (ofRatio false n d).magnitude

theorem rounded_zero (d : Nat) : rounded 0 d = 0 := by
  rw [rounded, ofRatio, if_pos (Or.inl rfl)]
  rfl

/-- A fraction that is not zero is rounded in the unit it has. -/
theorem exists_rounds (hn : 0 < n) (hd : 0 < d) :
    ∃ q m, Rounds ((n : ℚ) / d) q m ∧
      ∀ negative, ofRatio negative n d = ofMagnitude negative (min (place q m) infinite) := by
  obtain ⟨q, hq⟩ : ∃ q, unitExponent n d = q := ⟨_, rfl⟩
  have hunit := isUnit_unitExponent hn hd
  have hratio := cast_ratio two_pos n d q
  rw [Nat.cast_two] at hratio
  rw [hq] at hunit
  refine ⟨q, roundDiv (n * Nat.pow 2 (-q).toNat) (d * Nat.pow 2 q.toNat), ⟨hunit, ?_⟩, ?_⟩
  · rw [← hratio]
    exact nearest_roundDiv _ (Nat.mul_pos hd (Nat.pow_pos two_pos))
  · intro negative
    rw [ofRatio, if_neg (by omega), hq]
    rfl

/-- The sign of a rounded fraction is the one that is asked for, and its magnitude is the same with
either. -/
theorem ofRatio_eq_rounded (negative : Bool) (n d : Nat) :
    ofRatio negative n d = ofMagnitude negative (rounded n d) ∧ rounded n d ≤ infinite := by
  by_cases h : n = 0 ∨ d = 0
  · have hzero : ∀ negative, ofRatio negative n d = ofMagnitude negative 0 := fun negative => by
      rw [ofRatio, if_pos h]
      rfl
    rw [rounded, hzero, hzero, magnitude_ofMagnitude _ (by decide)]
    exact ⟨rfl, Nat.zero_le _⟩
  · obtain ⟨q, m, -, hround⟩ := exists_rounds (n := n) (d := d) (by omega) (by omega)
    have hmin : min (place q m) infinite ≤ infinite := min_le_right _ _
    rw [rounded, hround, hround, magnitude_ofMagnitude _ (hmin.trans_lt infinite_lt)]
    exact ⟨rfl, hmin⟩

theorem rounded_eq_min {k : Nat}
    (h : ∀ negative, ofRatio negative n d = ofMagnitude negative (min k infinite)) :
    rounded n d = min k infinite := by
  rw [rounded, h, magnitude_ofMagnitude _ ((min_le_right _ _).trans_lt infinite_lt)]

/-- A larger fraction is not rounded to a smaller double. -/
theorem rounded_mono (hd : 0 < d) (he : 0 < e) (h : (n : ℚ) / d ≤ m / e) :
    rounded n d ≤ rounded m e := by
  rcases Nat.eq_zero_or_pos n with rfl | hn
  · rw [rounded_zero]
    exact Nat.zero_le _
  · have hm : 0 < m := by
      have hpos : (0 : ℚ) < n / d := by positivity
      have hmpos := (div_pos_iff_of_pos_right (Nat.cast_pos.mpr he)).mp (hpos.trans_le h)
      exact_mod_cast hmpos
    obtain ⟨q, k, hx, hround⟩ := exists_rounds hn hd
    obtain ⟨r, l, hy, hround'⟩ := exists_rounds hm he
    rw [rounded_eq_min hround, rounded_eq_min hround']
    exact min_le_min_right _ (hx.mono hy h)

/-- Integers up to `2 ^ 53` are rounded to doubles of their own. -/
theorem rounded_lt (hmn : m < n) (hle : n ≤ 2 ^ 53) : rounded m 1 < rounded n 1 := by
  obtain ⟨q, l, hy, hround⟩ := exists_rounds (n := n) (d := 1) (by omega) one_pos
  rw [Nat.cast_one, div_one] at hy
  obtain ⟨hlow, hhigh, -⟩ := hy.unit.exact (by omega) hle
  have hl := hy.le
  have hl' := hy.ge (by omega)
  have hinside : place q l < infinite := by
    unfold place infinite
    rw [Nat.pow_eq]
    omega
  rw [rounded_eq_min hround, min_eq_left hinside.le]
  rcases Nat.eq_zero_or_pos m with rfl | hm
  · rw [rounded_zero]
    exact (Nat.pow_pos two_pos).trans_le (hl'.trans (Nat.le_add_left _ _))
  · obtain ⟨p, k, hx, hround'⟩ := exists_rounds hm one_pos
    rw [Nat.cast_one, div_one] at hx
    rw [rounded_eq_min hround']
    exact (min_le_left _ _).trans_lt (hx.lt hy hm hmn hle)

/-! ## Integers among doubles -/

/-- An integer is rounded away from zero by its sign. -/
theorem key_ofInt (i : Int) :
    (ofInt i).key = if i < 0 then -(rounded i.natAbs 1 : Int) else rounded i.natAbs 1 := by
  obtain ⟨hsign, hle⟩ := ofRatio_eq_rounded (decide (i < 0)) i.natAbs 1
  have hlt := hle.trans_lt infinite_lt
  rw [ofInt, hsign, key, negative_ofMagnitude _ hlt, magnitude_ofMagnitude _ hlt]
  simp only [decide_eq_true_eq]

/-- An integer is always rounded to a number. -/
theorem isNaN_ofInt (i : Int) : (ofInt i).isNaN = false := by
  obtain ⟨hsign, hle⟩ := ofRatio_eq_rounded (decide (i < 0)) i.natAbs 1
  rw [ofInt, hsign, isNaN, magnitude_ofMagnitude _ (hle.trans_lt infinite_lt)]
  exact decide_eq_false (not_lt.mpr hle)

theorem rounded_one_mono (h : m ≤ n) : rounded m 1 ≤ rounded n 1 := by
  refine rounded_mono one_pos one_pos ?_
  gcongr

/-- A larger integer is not rounded to a smaller double. -/
theorem key_ofInt_mono (h : i ≤ j) : (ofInt i).key ≤ (ofInt j).key := by
  rw [key_ofInt, key_ofInt]
  by_cases hi : i < 0
  · by_cases hj : j < 0
    · have := rounded_one_mono (m := j.natAbs) (n := i.natAbs) (by omega)
      rw [if_pos hi, if_pos hj]
      omega
    · rw [if_pos hi, if_neg hj]
      omega
  · have := rounded_one_mono (m := i.natAbs) (n := j.natAbs) (by omega)
    rw [if_neg hi, if_neg (by omega)]
    omega

/-- Integers up to `2 ^ 53` in magnitude are rounded to doubles in the same order. -/
theorem key_ofInt_strictMono (h : i < j) (hi : i.natAbs ≤ 2 ^ 53) (hj : j.natAbs ≤ 2 ^ 53) :
    (ofInt i).key < (ofInt j).key := by
  rw [key_ofInt, key_ofInt]
  by_cases hneg : i < 0
  · by_cases hj : j < 0
    · have := rounded_lt (m := j.natAbs) (n := i.natAbs) (by omega) hi
      rw [if_pos hneg, if_pos hj]
      omega
    · have := rounded_lt (m := 0) (n := i.natAbs) (by omega) hi
      rw [if_pos hneg, if_neg hj]
      omega
  · have := rounded_lt (m := i.natAbs) (n := j.natAbs) (by omega) hj
    rw [if_neg hneg, if_neg (by omega)]
    omega

end SelectEngine.Double
