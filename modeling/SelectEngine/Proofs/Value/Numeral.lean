import SelectEngine.Proofs.Double.Text

/-!
# Numbers are read back from their text

The text of an integer is read as the integer, and the text of a finite double as the double, except
for a whole number of sixteen digits or more that fits an integer (`Double.LacksPoint`): it is written
without a point, and is read as an integer that the double is nearest to (`Value.ofNumeral_joined`).
A whole number that fits no integer is written without a point too, but the digits fit none either.
-/

set_option autoImplicit false

namespace SelectEngine

open Decimal

/-! ## Reading doubles -/

namespace Value

variable {negative : Bool} {whole fraction : List Char}

theorem ofNumeral_double {cs : List Char} {x : Double} (hspace : ∀ c ∈ cs, Text.isSpace c = false)
    (hexact : cs.contains '.' = true ∨ (readInt? cs).bind ofInt? = none)
    (hread : readDouble? cs = some x) : ofNumeral (String.ofList cs) = .ok (.double x) := by
  have hnone : (if cs.contains '.' then none else (readInt? cs).bind ofInt?) = none := by
    split
    · rfl
    · next hpoint => exact hexact.resolve_left hpoint
  rw [ofNumeral, String.toList_ofList, Text.trim_of_not_space hspace]
  simp only [hnone, hread, Option.orElse_none, Option.map_some]

/-- With a point a decimal is a double. -/
theorem ofNumeral_point (negative : Bool) {y : ℚ} (h : Spells whole fraction y) :
    ofNumeral (String.ofList (signed negative (whole ++ '.' :: fraction))) =
      .ok (.double (toDouble negative (valueOf (whole ++ fraction)) (-fraction.length))) := by
  refine ofNumeral_double (fun c hc => ?_) (Or.inl ?_) (readDouble?_point h)
  · rcases mem_signed hc with rfl | hc
    · decide
    · rcases List.mem_append.mp hc with hc | hc
      · exact Text.isSpace_of_isDigit (h.isDigit_whole c hc)
      · rcases List.mem_cons.mp hc with rfl | hc
        · decide
        · exact Text.isSpace_of_isDigit (h.isDigit_fraction c hc)
  · rw [List.contains_eq_mem, decide_eq_true_iff]
    have hbody : '.' ∈ whole ++ '.' :: fraction := List.mem_append_right _ List.mem_cons_self
    cases negative with
    | true => exact List.mem_cons_of_mem _ hbody
    | false => exact hbody

/-- Digits that fit no integer are a double. -/
theorem ofNumeral_over (negative : Bool) (hwhole : ∀ c ∈ whole, c.isDigit = true)
    (hne : whole ≠ []) (hover : 2 ^ 63 < valueOf whole) :
    ofNumeral (String.ofList (signed negative whole)) =
      .ok (.double (toDouble negative (valueOf whole) 0)) := by
  refine ofNumeral_double (fun c hc => ?_) (Or.inr ?_) (readDouble?_whole hwhole hne)
  · rcases mem_signed hc with rfl | hc
    · decide
    · exact Text.isSpace_of_isDigit (hwhole c hc)
  · rw [readInt?_signed hwhole hne, Option.bind_some, ofInt?, if_neg]
    split <;> omega

end Value

/-! ## Integers -/

theorem toString_int (i : Int) :
    toString i = String.ofList (signed (decide (i < 0)) (Nat.toDigits 10 i.natAbs)) := by
  cases i with
  | ofNat n =>
    show Nat.repr n = _
    rw [Nat.repr_eq_ofList_toDigits]
    rfl
  | negSucc n =>
    show "-" ++ Nat.repr (n + 1) = _
    have hnegative : decide (Int.negSucc n < 0) = true := decide_eq_true (Int.negSucc_lt_zero n)
    rw [Nat.repr_eq_ofList_toDigits, show "-" = String.ofList ['-'] from rfl,
      ← String.ofList_append, hnegative]
    rfl

/-- The text of an integer is read as the integer. -/
theorem Value.ofNumeral_toString (i : Int64) :
    ofNumeral (toString i.toInt) = .ok (.integer i) := by
  rw [toString_int]
  refine ofNumeral_signed _ (fun c => isDigit_of_mem_toDigits) Nat.toDigits_ne_nil ?_
  rw [valueOf_toDigits]
  split
  · next hnegative =>
    have hlt := of_decide_eq_true hnegative
    omega
  · next hnegative =>
    have hle := of_decide_eq_false (Bool.not_eq_true _ ▸ hnegative)
    omega

/-! ## Doubles -/

namespace Double

variable {x : Double}

theorem text_eq (h : x.isFinite = true) : x.text = String.ofList (signed x.negative x.digits) := by
  have hlt : x.magnitude < infinite := of_decide_eq_true h
  have hnan : x.isNaN = false := decide_eq_false (not_lt.mpr hlt.le)
  have hinfinite : x.isInfinite = false := beq_eq_false_iff_ne.mpr hlt.ne
  rw [text, hnan, hinfinite]
  rfl

/-- A whole number of sixteen digits or more that fits an integer. -/
def LacksPoint (x : Double) : Prop := ∃ n, x.whole? = some n ∧ 10 ^ 15 ≤ n ∧ n < 2 ^ 63

/-- A zero is written with a point, and keeps its sign. -/
theorem ofNumeral_text_zero (h : x.significand = 0) :
    Value.ofNumeral x.text = .ok (.double x) := by
  have hmagnitude : x.magnitude = 0 := by
    unfold significand at h
    split at h
    · exact h
    · have hpower : 0 < Nat.pow 2 52 := Nat.pow_pos two_pos
      omega
  have hfinite : x.isFinite = true := by
    rw [isFinite, hmagnitude]
    decide
  have hwhole : x.whole? = some 0 := by
    rw [whole?_eq, h, Nat.zero_mod, if_pos rfl, Nat.zero_div, Nat.zero_mul]
  have hzero : toDouble x.negative (valueOf (Nat.toDigits 10 0 ++ ['0'])) (-(['0'].length : Int)) =
      x := by
    have hself := x.ofMagnitude_magnitude
    rw [hmagnitude] at hself
    exact hself
  rw [text_eq hfinite, digits_of_few hwhole (by decide),
    Value.ofNumeral_point _ (spells_natural 0), hzero]

/-- An integer that a finite double owns has the double as its nearest. -/
theorem ofInt_of_owns {v : Nat} {i : Int} (hfinite : x.isFinite = true) (hv : 0 < v)
    (howns : x.Owns v) (hi : i = if x.negative then -(v : Int) else v) : ofInt i = x := by
  have hsign : decide (i < 0) = x.negative := by
    rw [hi]
    cases x.negative with
    | true => exact decide_eq_true (by simpa using hv)
    | false => exact decide_eq_false (by simp)
  have habs : i.natAbs = v := by
    rw [hi]
    split
    · rw [Int.natAbs_neg, Int.natAbs_natCast]
    · rw [Int.natAbs_natCast]
  rw [ofInt, hsign, habs]
  refine ofRatio_of_owns hfinite hv Nat.one_pos ?_
  rwa [Nat.cast_one, div_one]

/-- Digits of an integer that a finite double owns are read as an integer that has the double as its
nearest. -/
theorem exists_ofNumeral_integer {whole : List Char} (hfinite : x.isFinite = true)
    (hwhole : ∀ c ∈ whole, c.isDigit = true) (hne : whole ≠ []) (hpos : 0 < valueOf whole)
    (hlt : valueOf whole < 2 ^ 63) (howns : x.Owns (valueOf whole)) :
    ∃ i, Value.ofNumeral (String.ofList (signed x.negative whole)) = .ok (.integer i) ∧
      ofInt i.toInt = x := by
  obtain ⟨i, hi⟩ : ∃ i : Int64, i.toInt =
      if x.negative then -(valueOf whole : Int) else valueOf whole := by
    refine ⟨Int64.ofInt (if x.negative then -(valueOf whole : Int) else valueOf whole), ?_⟩
    apply Int64.toInt_ofInt_of_le <;> split <;> omega
  exact ⟨i, Value.ofNumeral_signed _ hwhole hne hi.symm, ofInt_of_owns hfinite hpos howns hi⟩

/-- What a finite double that is not zero is read as. -/
theorem ofNumeral_text_of_pos (hfinite : x.isFinite = true) (hpos : 0 < x.significand) :
    (¬x.LacksPoint → Value.ofNumeral x.text = .ok (.double x)) ∧
      (x.LacksPoint → ∃ i, Value.ofNumeral x.text = .ok (.integer i) ∧ ofInt i.toInt = x) := by
  obtain ⟨whole, fraction, y, hspells, howns, hform⟩ := exists_spells hpos
  have hdouble := toDouble_of_spells hfinite hpos hspells howns
  rw [text_eq hfinite]
  rcases hform with ⟨hdigits, hfew⟩ | ⟨hdigits, rfl, n, hn, hmany, hover⟩
  · rw [hdigits, Value.ofNumeral_point _ hspells, hdouble]
    refine ⟨fun _ => rfl, ?_⟩
    rintro ⟨n, hn, hmany, -⟩
    exact absurd (hfew n hn) (not_lt.mpr hmany)
  · have hvalue := hspells.valueOf_pos (howns.pos hfinite hpos)
    obtain ⟨hne, hwhole, -, rfl⟩ := hspells
    rw [List.append_nil] at hvalue hdouble howns
    rw [hdigits]
    constructor
    · intro hpoint
      have hlarge : 2 ^ 63 ≤ n := not_lt.mp fun hfits => hpoint ⟨n, hn, hmany, hfits⟩
      rw [Value.ofNumeral_over _ hwhole hne (hover hlarge)]
      exact congrArg (fun d => Except.ok (Value.double d)) hdouble
    · rintro ⟨other, hother, -, hfits⟩
      obtain rfl : n = other := Option.some.inj (hn.symm.trans hother)
      rw [List.length_nil, pow_zero, div_one] at howns
      exact exists_ofNumeral_integer hfinite hwhole hne hvalue
        (howns.lt_of_whole hpos hn hfits) howns

end Double

/-! ## Numbers -/

namespace Value

/-- An integer or a finite double. -/
inductive IsNumber : Value → Prop
  | integer (i : Int64) : IsNumber (.integer i)
  | double {x : Double} (h : x.isFinite = true) : IsNumber (.double x)

/-- A double that is written as an integer is. -/
def LosesKind : Value → Prop
  | double x => x.LacksPoint
  | _ => False

/-- A number that is written and read back is the same number, unless it is a double that is written
as an integer is. Then an integer is read that has this double as its nearest. -/
theorem ofNumeral_joined {v : Value} (h : v.IsNumber) :
    (v.joined?.map ofNumeral = some (.ok v) ↔ ¬v.LosesKind) ∧
      (v.LosesKind → ∃ i, v.joined?.map ofNumeral = some (.ok (.integer i)) ∧
        (integer i).double? = v.double?) := by
  cases h with
  | integer i => exact ⟨iff_of_true (congrArg some (ofNumeral_toString i)) id, False.elim⟩
  | @double x hfinite =>
    rcases Nat.eq_zero_or_pos x.significand with hzero | hpos
    · have hkept : ¬x.LacksPoint := by
        rintro ⟨n, hn, hmany, -⟩
        -- Zero has few digits.
        have hcast := Double.cast_whole hn
        rw [hzero, Nat.cast_zero, zero_mul, Nat.cast_eq_zero] at hcast
        omega
      exact ⟨iff_of_true (congrArg some (Double.ofNumeral_text_zero hzero)) hkept,
        fun hlacks => absurd hlacks hkept⟩
    · obtain ⟨hkept, hlost⟩ := Double.ofNumeral_text_of_pos hfinite hpos
      refine ⟨⟨fun hsame hlacks => ?_, fun hpoint => congrArg some (hkept hpoint)⟩,
        fun hlacks => ?_⟩
      · -- What is read is an integer, and no double.
        obtain ⟨i, hi, -⟩ := hlost hlacks
        cases (congrArg some hi).symm.trans hsame
      · obtain ⟨i, hi, hnearest⟩ := hlost hlacks
        exact ⟨i, congrArg some hi, congrArg some hnearest⟩

/-- A tenth keeps its kind, and the least double of sixteen digits does not. -/
theorem ofNumeral_joined_both_kinds :
    (double ⟨0x3fb999999999999a⟩).joined?.map ofNumeral =
        some (.ok (.double ⟨0x3fb999999999999a⟩)) ∧
      ∃ i, (double ⟨0x430c6bf526340000⟩).joined?.map ofNumeral = some (.ok (.integer i)) ∧
        (integer i).double? = some ⟨0x430c6bf526340000⟩ := by
  have htenth : ¬LosesKind (.double ⟨0x3fb999999999999a⟩) := by
    rintro ⟨n, hn, -⟩
    have hwhole : Double.whole? ⟨0x3fb999999999999a⟩ = none := by decide +kernel
    rw [hwhole] at hn
    cases hn
  have hsixteen : LosesKind (.double ⟨0x430c6bf526340000⟩) :=
    ⟨10 ^ 15, by decide +kernel, le_refl _, by decide⟩
  exact ⟨(ofNumeral_joined (.double (by decide +kernel))).1.mpr htenth,
    (ofNumeral_joined (.double (by decide +kernel))).2 hsixteen⟩

/-- The least double of sixteen digits is written without a point and read as an integer. -/
theorem ofNumeral_sixteen_digits :
    IsNumber (.double ⟨0x430c6bf526340000⟩) ∧
      (double ⟨0x430c6bf526340000⟩).joined? = some "1000000000000000" ∧
      ofNumeral "1000000000000000" = .ok (.integer 1000000000000000) ∧
      ofNumeral "1000000000000000.0" = .ok (.double ⟨0x430c6bf526340000⟩) := by
  have hnumber : IsNumber (.double ⟨0x430c6bf526340000⟩) := .double (by decide +kernel)
  exact ⟨hnumber, by decide +kernel, by decide +kernel, by decide +kernel⟩

end Value

end SelectEngine
