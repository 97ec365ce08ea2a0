import Mathlib.Data.List.Forall2
import SelectEngine.Proofs.Evaluation
import SelectEngine.Proofs.Run

/-!
# Operators on values of the types they were bound for

The table of the result types of operators and the operators themselves agree: on operands that fit
the types for which an operator has a result type, it gives a value that fits that type, or fails in
one of the ways that depend on the values alone (`Operator.apply_safe`). Null fits every type.
-/

set_option autoImplicit false

namespace SelectEngine

/-- The value is null or has the type. -/
def Value.Fits (v : Value) (t : DataType) : Prop := v = .null ∨ v.type = t

/-- A failure of an operator that the types of its operands do not tell. -/
inductive Permitted (nulls : NullMode) : Error → Prop
  | overflow : Permitted nulls .integerOverflow
  | zeroDivisor : Permitted nulls .divisionByZero
  | nullOperand (hnulls : nulls = .strict) (operation : String) :
      Permitted nulls (.nullValue operation)

/-- A value that fits the type, or a permitted failure. -/
def Safe (nulls : NullMode) (t : DataType) : Except Error Value → Prop
  | .ok v => v.Fits t
  | .error e => Permitted nulls e

variable {nulls : NullMode} {a b v : Value} {s t u : DataType}

theorem Value.fits_null (t : DataType) : Value.null.Fits t := Or.inl rfl

theorem Value.fits_type (v : Value) : v.Fits v.type := Or.inr rfl

/-- A truth is a boolean or null. -/
theorem Value.fits_ofTruth (x : Truth) : (Value.ofTruth x).Fits .boolean := by
  cases x with
  | none => exact Value.fits_null .boolean
  | some b => exact Value.fits_type (.bool b)

/-- A sequence is safe if its first part fails as permitted and its second part is safe. -/
theorem safe_bind {α : Type} {x : Except Error α} {f : α → Except Error Value}
    (herror : ∀ e, x = .error e → Permitted nulls e) (hok : ∀ a, x = .ok a → Safe nulls t (f a)) :
    Safe nulls t (x >>= f) := by
  cases x with
  | ok a => exact hok a rfl
  | error e => exact herror e rfl

/-! ## Null operands -/

theorem refuseNulls_permitted {op : Operator} {operands : List Value} {e : Error}
    (h : op.refuseNulls nulls operands = .error e) : Permitted nulls e := by
  unfold Operator.refuseNulls at h
  split at h
  · next hnulls =>
    cases h
    exact .nullOperand hnulls.1 op.symbol
  · cases h

/-! ## Arithmetic -/

/-- An exact result is an integer or overflows. -/
theorem safe_exact (i : Int) : Safe nulls .integer (Value.exact i) := by
  unfold Value.exact Value.ofInt?
  split
  · next v hv =>
    split at hv
    · cases hv
      exact Or.inr rfl
    · cases hv
  · exact .overflow

/-- The types of operands that fit types with an arithmetic result have one as well: a null operand
takes the type of the other. -/
theorem arithmeticType_of_fits (ha : a.Fits s) (hb : b.Fits t)
    (h : DataType.arithmetic? s t = some u) : ∃ w, Value.arithmeticType a b = .ok w := by
  -- Where the table has an entry, it has one with null in place of either type.
  have htable : ∃ w, DataType.arithmetic? a.type b.type = some w := by
    rcases ha with rfl | rfl
    · rcases hb with rfl | rfl
      · exact ⟨.null, rfl⟩
      · cases s <;> cases b <;> first | exact ⟨_, rfl⟩ | cases h
    · rcases hb with rfl | rfl
      · cases t <;> cases a <;> first | exact ⟨_, rfl⟩ | cases h
      · exact ⟨u, h⟩
  obtain ⟨w, hw⟩ := htable
  exact ⟨w, by rw [Value.arithmeticType, hw]⟩

theorem arithmetic_null_left (onInts : Int → Int → Int) (onDoubles : Double → Double → Double)
    (h : Value.arithmeticType .null b = .ok u) :
    Value.arithmetic onInts onDoubles .null b = .ok .null := by
  cases b <;> first | rfl | cases h

theorem arithmetic_null_right (onInts : Int → Int → Int) (onDoubles : Double → Double → Double)
    (h : Value.arithmeticType a .null = .ok u) :
    Value.arithmetic onInts onDoubles a .null = .ok .null := by
  cases a <;> first | rfl | cases h

theorem safe_arithmetic (ha : a.Fits s) (hb : b.Fits t) (h : DataType.arithmetic? s t = some u)
    (onInts : Int → Int → Int) (onDoubles : Double → Double → Double) :
    Safe nulls u (Value.arithmetic onInts onDoubles a b) := by
  obtain ⟨w, hw⟩ := arithmeticType_of_fits ha hb h
  rcases ha with rfl | rfl
  · rw [arithmetic_null_left onInts onDoubles hw]
    exact Value.fits_null u
  rcases hb with rfl | rfl
  · rw [arithmetic_null_right onInts onDoubles hw]
    exact Value.fits_null u
  -- The entries of the table: two integers stay integers, and a double makes a double.
  cases a with
  | integer x =>
    cases b with
    | integer y =>
      cases h
      exact safe_exact (onInts x.toInt y.toInt)
    | double y =>
      cases h
      exact Or.inr rfl
    | null => exact Or.inl rfl
    | _ => cases h
  | double x =>
    cases b with
    | integer y | double y =>
      cases h
      exact Or.inr rfl
    | null => exact Or.inl rfl
    | _ => cases h
  | null =>
    rw [arithmetic_null_left onInts onDoubles hw]
    exact Value.fits_null u
  | _ => cases b <;> cases h

theorem safe_dividing (ha : a.Fits s) (hb : b.Fits t) (h : DataType.arithmetic? s t = some u)
    (onInts : Int → Int → Int) (onDoubles : Double → Double → Double) :
    Safe nulls u (Value.dividing onInts onDoubles a b) := by
  unfold Value.dividing
  split
  · obtain ⟨w, hw⟩ := arithmeticType_of_fits ha hb h
    rw [hw]
    exact .zeroDivisor
  · exact safe_arithmetic ha hb h onInts onDoubles

/-- The type of an arithmetic result is the entry of the table. -/
theorem arithmetic?_of_arithmeticType {op : Operator} (h : op.arithmeticType s t = .ok u) :
    DataType.arithmetic? s t = some u := by
  unfold Operator.arithmeticType at h
  split at h
  · next w hw =>
    cases h
    exact hw
  · cases h

/-! ## Signs -/

/-- The operands whose types pass a test that is asked of the known ones. -/
theorem test_of_requireAll {op : Operator} {test : DataType → Bool} {expected : String}
    {types : List DataType} (h : op.requireAll test expected types = .ok ()) (ht : t ∈ types) :
    t = .null ∨ test t = true := by
  unfold Operator.requireAll at h
  split at h
  · cases h
  · next hnone =>
    have hpasses := List.find?_eq_none.mp hnone t ht
    by_cases hnull : t = .null
    · exact Or.inl hnull
    · exact Or.inr (by simpa [hnull] using hpasses)

theorem safe_neg (hv : v.Fits t) (ht : t = .null ∨ t.isNumeric = true) : Safe nulls t v.neg := by
  rcases hv with rfl | rfl
  · exact Value.fits_null t
  cases v with
  | integer i => exact safe_exact (-i.toInt)
  | double d => exact Or.inr rfl
  | null => exact Or.inl rfl
  | _ => rcases ht with ht | ht <;> cases ht

theorem safe_pos (hv : v.Fits t) (ht : t = .null ∨ t.isNumeric = true) : Safe nulls t v.pos := by
  rcases hv with rfl | rfl
  · exact Value.fits_null t
  cases v with
  | integer i => exact Or.inr rfl
  | double d => exact Or.inr rfl
  | null => exact Or.inl rfl
  | _ => rcases ht with ht | ht <;> cases ht

/-! ## Concatenation -/

/-- A value of a type that can be joined to text is null or has a text. -/
theorem joined_of_textual (hv : v.Fits t) (ht : t = .null ∨ t.isTextual = true) :
    v = .null ∨ ∃ text, v.joined = .ok text := by
  rcases hv with rfl | rfl
  · exact Or.inl rfl
  cases v with
  | null => exact Or.inl rfl
  | integer _ | double _ | text _ => exact Or.inr ⟨_, rfl⟩
  | _ => rcases ht with ht | ht <;> cases ht

theorem concat_null_left {text : String} (h : v.joined = .ok text) :
    Value.null.concat v = .ok .null := by
  cases v with
  | integer _ | double _ | text _ => rfl
  | _ => cases h

theorem concat_null_right {text : String} (h : v.joined = .ok text) :
    v.concat .null = .ok .null := by
  cases v with
  | integer _ | double _ | text _ => rfl
  | _ => cases h

theorem concat_of_joined {x y : String} (ha : a.joined = .ok x) (hb : b.joined = .ok y) :
    a.concat b = .ok (.text (x ++ y)) := by
  have hconcat : a.concat b =
      (a.joined >>= fun x => b.joined >>= fun y => .ok (.text (x ++ y))) := by
    cases a with
    | null => cases ha
    | _ =>
      cases b with
      | null => cases hb
      | _ => rfl
  rw [hconcat, ha, hb]
  rfl

theorem safe_concat (ha : a = .null ∨ ∃ text, a.joined = .ok text)
    (hb : b = .null ∨ ∃ text, b.joined = .ok text) : Safe nulls .text (a.concat b) := by
  rcases ha with rfl | ⟨x, hx⟩
  · rcases hb with rfl | ⟨y, hy⟩
    · exact Value.fits_null .text
    · rw [concat_null_left hy]
      exact Value.fits_null .text
  · rcases hb with rfl | ⟨y, hy⟩
    · rw [concat_null_right hx]
      exact Value.fits_null .text
    · rw [concat_of_joined hx hy]
      exact Value.fits_type (.text (x ++ y))

/-! ## Comparisons -/

/-- Values that fit comparable types can be compared. -/
theorem compare?_of_fits (ha : a.Fits s) (hb : b.Fits t)
    (h : DataType.comparison? s t = some u) : ∃ order, a.compare? b = .ok order := by
  -- Null is comparable to every type.
  have htable : ∃ w, DataType.comparison? a.type b.type = some w := by
    rcases ha with rfl | rfl
    · exact ⟨b.type, by cases b <;> rfl⟩
    · rcases hb with rfl | rfl
      · exact ⟨a.type, by cases a <;> rfl⟩
      · exact ⟨u, h⟩
  obtain ⟨w, hw⟩ := htable
  unfold Value.compare?
  rw [hw]
  cases a <;> cases b <;> exact ⟨_, rfl⟩

theorem safe_comparing (ha : a.Fits s) (hb : b.Fits t) (h : DataType.comparison? s t = some u)
    (test : Ordering → Bool) : Safe nulls .boolean (Operator.comparing test a b) := by
  obtain ⟨order, horder⟩ := compare?_of_fits ha hb h
  rw [Operator.comparing, horder]
  exact Value.fits_ofTruth _

/-- The type of a comparison is boolean, and its operands can be compared. -/
theorem comparison?_of_comparisonType {op : Operator} (h : op.comparisonType s t = .ok u) :
    u = .boolean ∧ ∃ w, DataType.comparison? s t = some w := by
  unfold Operator.comparisonType at h
  split at h
  · next w hw =>
    cases h
    exact ⟨rfl, w, hw⟩
  · cases h

/-! ## Connectives -/

/-- A value of a type that may be boolean is a truth. -/
theorem truth_of_boolean (hv : v.Fits t) (ht : t = .null ∨ (t == .boolean) = true) :
    ∃ x, v.truth = .ok x := by
  rcases hv with rfl | rfl
  · exact ⟨none, rfl⟩
  cases v with
  | null => exact ⟨none, rfl⟩
  | bool b => exact ⟨some b, rfl⟩
  | _ => rcases ht with ht | ht <;> cases ht

theorem safe_connecting (ha : ∃ x, a.truth = .ok x) (hb : ∃ x, b.truth = .ok x)
    (connective : Truth → Truth → Truth) :
    Safe nulls .boolean (Operator.connecting connective a b) := by
  obtain ⟨x, hx⟩ := ha
  obtain ⟨y, hy⟩ := hb
  rw [Operator.connecting, hx, hy]
  exact Value.fits_ofTruth (connective x y)

/-! ## All operators -/

namespace Operator

theorem combine_safe {op : Operator} (hop : op.isUnary = false) (ha : a.Fits s) (hb : b.Fits t)
    (h : op.resultType [s, t] = .ok u) : Safe nulls u (op.combine a b) := by
  cases op with
  | add | sub | mul => exact safe_arithmetic ha hb (arithmetic?_of_arithmeticType h) _ _
  | div | mod => exact safe_dividing ha hb (arithmetic?_of_arithmeticType h) _ _
  | concat =>
    obtain ⟨⟨⟩, hrequired, hu⟩ := Outcome.bind_eq_ok h
    cases hu
    exact safe_concat (joined_of_textual ha (test_of_requireAll hrequired (by simp)))
      (joined_of_textual hb (test_of_requireAll hrequired (by simp)))
  | eq | ne | lt | gt | le | ge =>
    obtain ⟨rfl, w, hw⟩ := comparison?_of_comparisonType h
    exact safe_comparing ha hb hw _
  | and | or | xor =>
    obtain ⟨⟨⟩, hrequired, hu⟩ := Outcome.bind_eq_ok h
    cases hu
    exact safe_connecting (truth_of_boolean ha (test_of_requireAll hrequired (by simp)))
      (truth_of_boolean hb (test_of_requireAll hrequired (by simp))) _
  | not | neg | pos | isNull | isNotNull => cases hop

theorem applyBinary_safe {op : Operator} (hop : op.isUnary = false) (ha : a.Fits s)
    (hb : b.Fits t) (h : op.resultType [s, t] = .ok u) :
    Safe nulls u (op.applyBinary a b nulls) := by
  have hcombine : Safe nulls u (op.combine a b) := combine_safe hop ha hb h
  unfold applyBinary
  split
  · exact hcombine
  · apply safe_bind
    · intro e he
      exact refuseNulls_permitted he
    · intro _ _
      exact hcombine

theorem applyUnary_safe {op : Operator} (hop : op.isUnary = true) (hv : v.Fits t)
    (h : op.resultType [t] = .ok u) : Safe nulls u (op.applyUnary v nulls) := by
  cases op with
  | not =>
    obtain ⟨⟨⟩, hrequired, hu⟩ := Outcome.bind_eq_ok h
    cases hu
    obtain ⟨x, hx⟩ := truth_of_boolean hv (test_of_requireAll hrequired (by simp))
    rw [applyUnary, hx]
    exact Value.fits_ofTruth x.not
  | neg =>
    obtain ⟨⟨⟩, hrequired, hu⟩ := Outcome.bind_eq_ok h
    cases hu
    apply safe_bind
    · intro e he
      exact refuseNulls_permitted he
    · intro _ _
      exact safe_neg hv (test_of_requireAll hrequired (by simp))
  | pos =>
    obtain ⟨⟨⟩, hrequired, hu⟩ := Outcome.bind_eq_ok h
    cases hu
    apply safe_bind
    · intro e he
      exact refuseNulls_permitted he
    · intro _ _
      exact safe_pos hv (test_of_requireAll hrequired (by simp))
  | isNull | isNotNull =>
    cases h
    exact Or.inr rfl
  | _ => cases hop

/-- An operator on as many operands as it takes, which fit types that it has a result type for. -/
theorem apply_safe {op : Operator} {operands : List Value} {types : List DataType}
    (hcount : operands.length = op.arity) (hfits : List.Forall₂ Value.Fits operands types)
    (h : op.resultType types = .ok u) : Safe nulls u (op.apply nulls operands) := by
  unfold arity at hcount
  split at hcount
  · next hop =>
    obtain ⟨v, rfl⟩ := List.length_eq_one_iff.mp hcount
    obtain _ | ⟨hv, _ | _⟩ := hfits
    exact applyUnary_safe hop hv h
  · next hop =>
    obtain ⟨a, b, rfl⟩ := List.length_eq_two.mp hcount
    obtain _ | ⟨ha, _ | ⟨hb, _ | _⟩⟩ := hfits
    exact applyBinary_safe (by simpa using hop) ha hb h

end Operator

end SelectEngine
