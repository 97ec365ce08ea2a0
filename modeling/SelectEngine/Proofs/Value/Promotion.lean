import SelectEngine.Proofs.Typing.Runtime
import SelectEngine.Proofs.Value.Numeral
import SelectEngine.Proofs.Value.Order

/-!
# What a promotion keeps apart

A number is known by its text, which is read back as a number that is the same as a double
(`Double.exists_ofNumeral_text`). So no promotion to text makes two values of a type one. A promotion
of integers to doubles does, where they are rounded to the same double, which takes an integer of
more than 53 binary digits (`Value.promotion_merges_iff`).
-/

set_option autoImplicit false

namespace SelectEngine

namespace Double

variable {x y : Double}

/-! ## Texts of doubles -/

theorem ofNumeral_text_infinite (h : x.isInfinite = true) :
    Value.ofNumeral x.text = .ok (.double x) := by
  have hmagnitude : x.magnitude = infinite := eq_of_beq h
  have hself : infinity x.negative = x := by
    rw [infinity, ← hmagnitude, ofMagnitude_magnitude]
  rw [← hself]
  cases x.negative <;> decide +kernel

/-- The text of a number is read as a number that is the same as a double. -/
theorem exists_ofNumeral_text (h : x.isNaN = false) :
    ∃ v, Value.ofNumeral x.text = .ok v ∧ v.double? = some x := by
  have hle : x.magnitude ≤ infinite := not_lt.mp (of_decide_eq_false h)
  rcases hle.eq_or_lt with hinfinite | hlt
  · exact ⟨.double x, ofNumeral_text_infinite (beq_iff_eq.mpr hinfinite), rfl⟩
  · have hfinite : x.isFinite = true := decide_eq_true hlt
    rcases Nat.eq_zero_or_pos x.significand with hzero | hpos
    · exact ⟨.double x, ofNumeral_text_zero hzero, rfl⟩
    · obtain ⟨hkept, hlost⟩ := ofNumeral_text_of_pos hfinite hpos
      by_cases hlacks : x.LacksPoint
      · obtain ⟨i, hi, hnearest⟩ := hlost hlacks
        exact ⟨.integer i, hi, congrArg some hnearest⟩
      · exact ⟨.double x, hkept hlacks, rfl⟩

/-- Different numbers have different texts. -/
theorem eq_of_text_eq (hx : x.isNaN = false) (hy : y.isNaN = false) (h : x.text = y.text) :
    x = y := by
  obtain ⟨v, hv, hvx⟩ := exists_ofNumeral_text hx
  obtain ⟨w, hw, hwy⟩ := exists_ofNumeral_text hy
  rw [h, hw] at hv
  cases hv
  exact Option.some.inj (hvx.symm.trans hwy)

end Double

namespace Value

variable {a b a' b' : Value} {target : DataType}

/-- Different integers have different texts. -/
theorem eq_of_toString_eq {i j : Int64} (h : toString i.toInt = toString j.toInt) : i = j := by
  have hi := ofNumeral_toString i
  rw [h, ofNumeral_toString] at hi
  exact (Value.integer.inj (Except.ok.inj hi)).symm

/-! ## Sameness -/

/-- The value is no double that is no number. -/
def NotNaN : Value → Prop
  | double d => d.isNaN = false
  | _ => True

theorem same_refl (v : Value) : v.same v = true := by
  cases v <;> simp [same]

theorem eq_of_same_text {s t : String} (h : (text s).same (text t) = true) : s = t :=
  Value.text.inj (eq_of_beq h)

theorem same_integer_iff {i j : Int64} : (integer i).same (integer j) = true ↔ i = j :=
  ⟨fun h => Value.integer.inj (eq_of_beq h), fun h => h ▸ same_refl _⟩

/-- Doubles are the same if they are equal as numbers. -/
theorem same_double_iff {d e : Double} (hd : d.isNaN = false) :
    (double d).same (double e) = true ↔ d.compare? e = some .eq := by
  constructor
  · intro h
    rcases Bool.or_eq_true_iff.mp h with h | h
    · rw [← eq_of_beq h, compare?_of_isNaN hd hd, compare_eq_iff_eq.mpr rfl]
    · exact eq_of_beq h
  · intro h
    exact Bool.or_eq_true_iff.mpr (Or.inr (beq_iff_eq.mpr h))

/-! ## Promotions -/

theorem key_eq_of_compare? {d e : Double} (h : d.compare? e = some .eq) : d.key = e.key := by
  rw [Double.compare?] at h
  split at h
  · cases h
  · exact compare_eq_iff_eq.mp (Option.some.inj h)

/-- Two integers are promoted to the same double if both are rounded to it, and only then. -/
theorem exists_merged_iff {i j : Int64} (hne : i ≠ j) :
    (∃ d, Merged (integer i) (double d) (integer j)) ↔
      (double (Double.ofInt i.toInt)).same (double (Double.ofInt j.toInt)) = true := by
  have hcompare : ∀ k, (Double.ofInt i.toInt).compare? (Double.ofInt k) =
      some (compare (Double.ofInt i.toInt).key (Double.ofInt k).key) :=
    fun k => compare?_of_isNaN (Double.isNaN_ofInt _) (Double.isNaN_ofInt k)
  rw [same_double_iff (Double.isNaN_ofInt _)]
  constructor
  · rintro ⟨d, ⟨-, -, hi, hj⟩⟩
    rw [hcompare, compare_eq_iff_eq.mpr ((key_eq_of_compare? hi).trans (key_eq_of_compare? hj))]
  · intro h
    refine ⟨_, .mk hne (large_of_key_eq hne (key_eq_of_compare? h)) ?_ h⟩
    rw [hcompare, compare_eq_iff_eq.mpr rfl]

/-- Integers and doubles with the same text are the same. -/
theorem same_of_joined? (htype : a.type = b.type) (ha : a.NotNaN) (hb : b.NotNaN)
    (h : a.joined? = b.joined?) : a.same b = true ∨ a.joined? = none := by
  cases a with
  | integer i =>
    cases b with
    | integer j => exact Or.inl (same_integer_iff.mpr (eq_of_toString_eq (Option.some.inj h)))
    | null | bool _ | double _ | text _ | blob _ => cases htype
  | double d =>
    cases b with
    | double e =>
      obtain rfl := Double.eq_of_text_eq ha hb (Option.some.inj h)
      exact Or.inl (same_refl _)
    | null | bool _ | integer _ | text _ | blob _ => cases htype
  | text s =>
    cases b with
    | text t =>
      obtain rfl : s = t := Option.some.inj h
      exact Or.inl (same_refl _)
    | null | bool _ | integer _ | double _ | blob _ => cases htype
  | null | bool _ | blob _ => exact Or.inr rfl

theorem coerce?_self (v : Value) : v.coerce? v.type = some v := by
  unfold coerce?
  rw [if_pos rfl]

/-- What a promotion makes of a value: it keeps the value, keeps null, rounds an integer to a double
or writes a number as text. -/
inductive Promotes : Value → DataType → Value → Prop
  | self {v : Value} {target : DataType} (h : v.type = target) : Promotes v target v
  | null (target : DataType) : Promotes null target null
  | rounded (i : Int64) : Promotes (integer i) .double (double (Double.ofInt i.toInt))
  | written {v : Value} {s : String} (h : v.joined? = some s) : Promotes v .text (text s)

theorem promotes_of_coerce? {v v' : Value} (h : v.coerce? target = some v') :
    Promotes v target v' := by
  unfold coerce? at h
  split at h
  · next htype =>
    cases h
    exact .self htype
  · split at h
    · cases h
      exact .null target
    · cases h
      exact .rounded _
    · obtain ⟨s, hs, rfl⟩ := Option.map_eq_some_iff.mp h
      exact .written hs
    · obtain ⟨s, hs, rfl⟩ := Option.map_eq_some_iff.mp h
      exact .written hs
    · cases h

theorem exists_integer_of_type {v : Value} (h : v.type = .integer) : ∃ i, v = integer i := by
  cases v <;> first | exact ⟨_, rfl⟩ | cases h

/-- Different values of a type of which a promotion to another type makes one are integers that are
rounded to one double. -/
theorem merged_of_promotes (htype : a.type = b.type) (ha : a.NotNaN) (hb : b.NotNaN)
    (hne : a.type ≠ target) (hpa : Promotes a target a') (hpb : Promotes b target b')
    (hsame : a'.same b' = true) (hdiffer : a.same b = false) :
    target = .double ∧ ∃ d, Merged a (double d) b := by
  cases hpa with
  | self h => exact absurd h hne
  | null =>
    obtain rfl := eq_null_of_type htype.symm
    cases hdiffer
  | rounded i =>
    obtain ⟨j, rfl⟩ := exists_integer_of_type htype.symm
    cases hpb with
    | self h => cases h
    | rounded =>
      have hij : i ≠ j := fun heq =>
        Bool.false_ne_true (hdiffer.symm.trans (same_integer_iff.mpr heq))
      exact ⟨rfl, (exists_merged_iff hij).mpr hsame⟩
  | written hs =>
    cases hpb with
    | self h => exact absurd (htype.trans h) hne
    | null =>
      obtain rfl := eq_null_of_type htype
      cases hs
    | written ht =>
      -- The texts are the same, which tells the numbers.
      have htext := eq_of_same_text hsame
      subst htext
      rcases same_of_joined? htype ha hb (hs.trans ht.symm) with h | h
      · cases hdiffer.symm.trans h
      · cases hs.symm.trans h

/-- A promotion makes two values of a type one exactly if they are different integers that are
rounded to one double. -/
theorem promotion_merges_iff (htype : a.type = b.type) (ha : a.NotNaN) (hb : b.NotNaN)
    (hpromoted : a.coerce? target = some a') (hpromoted' : b.coerce? target = some b') :
    a'.same b' = true ∧ a.same b = false ↔
      target = .double ∧ ∃ d, Merged a (double d) b := by
  constructor
  · rintro ⟨hsame, hdiffer⟩
    refine merged_of_promotes htype ha hb (fun htarget => ?_) (promotes_of_coerce? hpromoted)
      (promotes_of_coerce? hpromoted') hsame hdiffer
    -- In their own type the values stay what they are.
    subst htarget
    have hself := b.coerce?_self
    rw [← htype, hpromoted'] at hself
    rw [coerce?_self] at hpromoted
    cases hself
    cases hpromoted
    exact Bool.false_ne_true (hdiffer.symm.trans hsame)
  · rintro ⟨rfl, d, hmerged⟩
    cases hmerged with
    | @mk i j _ hne hlarge hi hj =>
      cases hpromoted
      cases hpromoted'
      exact ⟨(exists_merged_iff hne).mp ⟨d, .mk hne hlarge hi hj⟩,
        Bool.eq_false_iff.mpr fun h => hne (same_integer_iff.mp h)⟩

/-- Two neighbours behind `2 ^ 53` are promoted to one double. -/
theorem promotion_merges_neighbours :
    ∃ d, Merged (integer 9007199254740993) (double d) (integer 9007199254740992) :=
  have hodd : (integer 9007199254740993).coerce? .double = some (double ⟨0x4340000000000000⟩) := by
    decide +kernel
  have heven : (integer 9007199254740992).coerce? .double =
      some (double ⟨0x4340000000000000⟩) := by
    decide +kernel
  ((promotion_merges_iff (a := integer 9007199254740993) (b := integer 9007199254740992) rfl trivial
    trivial hodd heven).mp ⟨rfl, rfl⟩).2

/-- The promotion of integers to doubles does not keep all of them apart. -/
theorem promotion_not_lossless :
    (integer 9007199254740993).coerce? .double = some (double ⟨0x4340000000000000⟩) ∧
      (integer 9007199254740992).coerce? .double = some (double ⟨0x4340000000000000⟩) ∧
      (double ⟨0x4340000000000000⟩).same (double ⟨0x4340000000000000⟩) = true ∧
      (integer 9007199254740993).same (integer 9007199254740992) = false :=
  ⟨by decide +kernel, by decide +kernel, rfl, rfl⟩

end Value

end SelectEngine
