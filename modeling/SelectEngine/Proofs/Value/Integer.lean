import Mathlib.Algebra.Ring.Int.Defs
import SelectEngine.Function.Builtin
import SelectEngine.Operation

/-!
# Arithmetic on integers

An operator on two integers of 64 bits gives the integer of 64 bits that stands for the exact
result, or fails because none does (`Exactly`). `Value.integer_arithmetic` says for each operator
which of the two happens and when: a quotient is cut off toward zero and leaves the range for one
pair of operands only (`tdiv_fits`), a remainder never does (`tmod_fits`), and a negation and an
absolute value leave it for the least integer only.
-/

set_option autoImplicit false

namespace SelectEngine

variable {a b : Int64} {i : Int} {r : Except Error Value}

/-- Some integer of 64 bits is this one. -/
def Fits64 (i : Int) : Prop := -2 ^ 63 ≤ i ∧ i < 2 ^ 63

theorem fits_toInt (a : Int64) : Fits64 a.toInt := ⟨a.le_toInt, a.toInt_lt⟩

theorem eq_minValue_iff : a = Int64.minValue ↔ a.toInt = -2 ^ 63 := by
  rw [← Int64.toInt_inj, Int64.toInt_minValue]

theorem eq_zero_iff : a = 0 ↔ a.toInt = 0 := by
  rw [← Int64.toInt_inj, Int64.toInt_zero]

/-- The outcome is an integer exactly, or the failure of one that does not fit 64 bits. -/
inductive Exactly (i : Int) : Except Error Value → Prop
  | fits {c : Int64} (h : c.toInt = i) : Exactly i (.ok (.integer c))
  | beyond (h : ¬Fits64 i) : Exactly i (.error .integerOverflow)

/-- An exact outcome is a failure where the integer does not fit, and there only. -/
theorem Exactly.eq_overflow_iff (h : Exactly i r) : r = .error .integerOverflow ↔ ¬Fits64 i := by
  cases h with
  | fits hc =>
    constructor
    · intro hfail
      cases hfail
    · intro hover
      exact absurd (hc ▸ fits_toInt _) hover
  | beyond hover => exact ⟨fun _ => hover, fun _ => rfl⟩

/-- It is no failure of another kind. -/
theorem Exactly.ne_divisionByZero (h : Exactly i r) : r ≠ .error .divisionByZero := by
  rintro rfl
  cases h

theorem exactly_exact (i : Int) : Exactly i (Value.exact i) := by
  unfold Value.exact Value.ofInt?
  by_cases h : -9223372036854775808 ≤ i ∧ i ≤ 9223372036854775807
  · rw [if_pos h]
    exact .fits (Int64.toInt_ofInt_of_le (by omega) (by omega))
  · rw [if_neg h]
    exact .beyond fun hfits => h (by unfold Fits64 at hfits; omega)

/-! ## Quotients and remainders -/

/-- A quotient fits, unless it is that of the least integer by minus one. -/
theorem tdiv_fits (a b : Int64) :
    ¬Fits64 (a.toInt.tdiv b.toInt) ↔ a = Int64.minValue ∧ b = -1 := by
  have ha := fits_toInt a
  have hquotient : (a.toInt.tdiv b.toInt).natAbs = a.toInt.natAbs / b.toInt.natAbs :=
    Int.natAbs_tdiv _ _
  have hminus : b = -1 ↔ b.toInt = -1 := by
    rw [← Int64.toInt_inj]
    rfl
  rw [eq_minValue_iff, hminus]
  unfold Fits64 at ha ⊢
  constructor
  · intro hover
    by_cases hdivisor : b.toInt.natAbs = 1
    · obtain hone | hone : b.toInt = 1 ∨ b.toInt = -1 := by omega
      · rw [hone, Int.tdiv_one] at hover
        exact absurd ha hover
      · rw [hone, Int.tdiv_neg, Int.tdiv_one] at hover
        exact ⟨by omega, hone⟩
    · -- A divisor that is not of magnitude one at least halves the dividend.
      have hhalf : a.toInt.natAbs / b.toInt.natAbs ≤ a.toInt.natAbs / 2 := by
        rcases Nat.eq_zero_or_pos b.toInt.natAbs with hzero | hpos
        · rw [hzero, Nat.div_zero]
          exact Nat.zero_le _
        · exact Nat.div_le_div_left (by omega) (by decide)
      omega
  · rintro ⟨hmin, hone⟩
    rw [hmin, hone]
    decide

/-- A remainder is smaller than the divisor, which fits. -/
theorem tmod_fits (a : Int) (hb : b.toInt ≠ 0) :
    (a.tmod b.toInt).natAbs < b.toInt.natAbs ∧ Fits64 (a.tmod b.toInt) := by
  have hlt : (a.tmod b.toInt).natAbs < b.toInt.natAbs := by
    rw [Int.natAbs_tmod]
    exact Nat.mod_lt _ (Int.natAbs_pos.mpr hb)
  have hfits := fits_toInt b
  unfold Fits64 at hfits ⊢
  omega

/-- A remainder that is not zero has the sign of the dividend. -/
theorem sign_tmod_of_ne_zero {a b : Int} (h : a.tmod b ≠ 0) : (a.tmod b).sign = a.sign := by
  rw [Int.sign_tmod, if_neg]
  intro hdvd
  exact h (Int.tmod_eq_zero_of_dvd hdvd)

/-! ## The operators -/

/-- What dividing one integer by another gives as the quotient and as the remainder. -/
structure Divides (a b : Int64) (quotient remainder : Except Error Value) : Prop where
  /-- A zero divisor is refused, and nothing else as one. -/
  quotient_zero : quotient = .error .divisionByZero ↔ b = 0
  remainder_zero : remainder = .error .divisionByZero ↔ b = 0
  /-- The quotient is cut off toward zero. -/
  toward_zero : b ≠ 0 → Exactly (a.toInt.tdiv b.toInt) quotient
  quotient_over : quotient = .error .integerOverflow ↔ a = Int64.minValue ∧ b = -1
  /-- There is a remainder, below the divisor and with the sign of the dividend, and together with a
  quotient it makes up the dividend. -/
  rest : b ≠ 0 → ∃ r : Int64, remainder = .ok (.integer r) ∧
    r.toInt.natAbs < b.toInt.natAbs ∧ (r = 0 ∨ r.toInt.sign = a.toInt.sign) ∧
    ∀ v, quotient = .ok v → ∃ q : Int64, v = .integer q ∧ a.toInt = b.toInt * q.toInt + r.toInt

/-- An outcome is an integer exactly, and it fails on the least operand only. -/
structure ButLeast (a : Int64) (i : Int) (r : Except Error Value) : Prop where
  exactly : Exactly i r
  overflow : r = .error .integerOverflow ↔ a = Int64.minValue

namespace Value

/-- Two integers are divided as integers unless the divisor is zero, which is refused. -/
theorem dividing_integer (onInts : Int → Int → Int) (onDoubles : Double → Double → Double)
    (a b : Int64) : dividing onInts onDoubles (integer a) (integer b) =
      if b = 0 then .error .divisionByZero else exact (onInts a.toInt b.toInt) := by
  by_cases hb : b = 0
  · rw [if_pos hb]
    subst hb
    rfl
  · rw [if_neg hb, dividing, if_neg]
    · rfl
    · intro hzero
      rw [Bool.and_eq_true, isZero, beq_iff_eq] at hzero
      exact hb (eq_zero_iff.mpr hzero.1)

theorem divides (a b : Int64) :
    Divides a b ((integer a).div (integer b)) ((integer a).mod (integer b)) := by
  rw [Value.div, Value.mod, dividing_integer, dividing_integer]
  by_cases hb : b = 0
  · subst hb
    refine ⟨by simp, by simp, fun h => absurd rfl h, ?_, fun h => absurd rfl h⟩
    constructor
    · intro hfail
      cases hfail
    · rintro ⟨-, hzero⟩
      exact absurd hzero (by decide)
  · rw [if_neg hb, if_neg hb]
    have hquotient := exactly_exact (a.toInt.tdiv b.toInt)
    have hne : b.toInt ≠ 0 := fun h => hb (eq_zero_iff.mpr h)
    obtain ⟨hlt, hfits⟩ := tmod_fits a.toInt hne
    have hremainder := exactly_exact (a.toInt.tmod b.toInt)
    refine ⟨⟨fun h => absurd h hquotient.ne_divisionByZero, fun h => absurd h hb⟩,
      ⟨fun h => absurd h hremainder.ne_divisionByZero, fun h => absurd h hb⟩,
      fun _ => hquotient, hquotient.eq_overflow_iff.trans (tdiv_fits a b), fun _ => ?_⟩
    generalize exact (a.toInt.tmod b.toInt) = remainder at hremainder ⊢
    generalize exact (a.toInt.tdiv b.toInt) = quotient at hquotient ⊢
    cases hremainder with
    | beyond hover => exact absurd hfits hover
    | @fits r hr =>
      refine ⟨r, rfl, hr ▸ hlt, ?_, ?_⟩
      · rw [eq_zero_iff, hr]
        exact Decidable.or_iff_not_imp_left.mpr sign_tmod_of_ne_zero
      · rintro v rfl
        cases hquotient with
        | @fits q hq =>
          refine ⟨q, rfl, ?_⟩
          rw [hq, hr]
          exact (Int.mul_tdiv_add_tmod _ _).symm

/-- An operator on one integer fails on the least only if nothing else leads out of the range. -/
theorem butLeast_exact (h : ¬Fits64 i ↔ a.toInt = -2 ^ 63) : ButLeast a i (exact i) where
  exactly := exactly_exact i
  overflow := (exactly_exact i).eq_overflow_iff.trans (h.trans eq_minValue_iff.symm)

theorem neg_butLeast (a : Int64) : ButLeast a (-a.toInt) (integer a).neg := by
  obtain ⟨hmin, hmax⟩ := fits_toInt a
  refine butLeast_exact ?_
  rw [Fits64]
  constructor
  · intro hover
    omega
  · intro hleast
    omega

theorem abs_butLeast (a : Int64) : ButLeast a a.toInt.natAbs (Function.abs.invoke [integer a]) := by
  obtain ⟨hmin, hmax⟩ := fits_toInt a
  refine butLeast_exact ?_
  rw [Fits64]
  constructor
  · intro hover
    omega
  · intro hleast
    omega

/-- Arithmetic on integers is exact or refused, whatever is done with nulls: it never wraps, and it
never goes over to doubles. -/
theorem integer_arithmetic (a b : Int64) (nulls : NullMode) :
    Exactly (a.toInt + b.toInt) (Operator.add.applyBinary (integer a) (integer b) nulls) ∧
      Exactly (a.toInt - b.toInt) (Operator.sub.applyBinary (integer a) (integer b) nulls) ∧
      Exactly (a.toInt * b.toInt) (Operator.mul.applyBinary (integer a) (integer b) nulls) ∧
      Divides a b (Operator.div.applyBinary (integer a) (integer b) nulls)
        (Operator.mod.applyBinary (integer a) (integer b) nulls) ∧
      ButLeast a (-a.toInt) (Operator.neg.applyUnary (integer a) nulls) ∧
      ButLeast a a.toInt.natAbs (Function.abs.invoke [integer a]) := by
  have hbinary : ∀ op : Operator, op.isLogical = false →
      op.applyBinary (integer a) (integer b) nulls = op.combine (integer a) (integer b) := by
    intro op hop
    rw [Operator.applyBinary, hop]
    cases nulls <;> rfl
  have hunary : Operator.neg.applyUnary (integer a) nulls = (integer a).neg := by
    cases nulls <;> rfl
  rw [hbinary _ rfl, hbinary _ rfl, hbinary _ rfl, hbinary _ rfl, hbinary _ rfl, hunary]
  exact ⟨exactly_exact _, exactly_exact _, exactly_exact _, divides a b, neg_butLeast a,
    abs_butLeast a⟩

example : (integer Int64.minValue).div (integer (-1)) = .error .integerOverflow ∧
    (integer Int64.minValue).mod (integer (-1)) = .ok (integer 0) :=
  ⟨rfl, rfl⟩

end Value

end SelectEngine
