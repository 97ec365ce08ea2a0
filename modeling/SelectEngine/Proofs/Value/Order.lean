import SelectEngine.Operation
import SelectEngine.Proofs.Double.Order

/-!
# The order of values

Two values that are comparable, not null, and numbers where they are doubles stand in one of three
orders (`Value.exists_compares`). Within a type these are the orders of a chain. An integer and a
double meet as doubles, though, while two integers meet as integers: two integers that are rounded
to one double are both equal to it and not to each other (`Value.Merged`). This is the only place
where the order does not carry over, and the integers are not both of 53 binary digits there
(`Value.compare_transitive`).
-/

set_option autoImplicit false

namespace SelectEngine

variable {p q r p' q' : Ordering}

/-! ## Chains -/

/-- The order of the ends of a chain of two links is the one that the links ask for. -/
structure Transits (p q r : Ordering) : Prop where
  isLE : p.isLE = true → q.isLE = true → r.isLE = true
  eq : p = .eq → q = .eq → r = .eq

theorem transits_of_transCmp {α : Type} {cmp : α → α → Ordering} [Std.TransCmp cmp] (x y z : α) :
    Transits (cmp x y) (cmp y z) (cmp x z) :=
  ⟨Std.TransCmp.isLE_trans, Std.TransCmp.eq_trans⟩

/-- An order gives way to a coarser one. -/
structure Coarser (p p' : Ordering) : Prop where
  isLE : p.isLE = true → p'.isLE = true
  eq : p = .eq → p' = .eq

theorem Transits.of_left (h : Transits p' q r) (hp : Coarser p p') : Transits p q r :=
  ⟨fun hle => h.isLE (hp.isLE hle), fun heq => h.eq (hp.eq heq)⟩

theorem Transits.of_right (h : Transits p q' r) (hq : Coarser q q') : Transits p q r :=
  ⟨fun hle hle' => h.isLE hle (hq.isLE hle'), fun heq heq' => h.eq heq (hq.eq heq')⟩

/-- Doubles are coarser than the integers that are rounded to them. -/
theorem coarser_ofInt (i j : Int) :
    Coarser (compare i j) (compare (Double.ofInt i).key (Double.ofInt j).key) := by
  constructor
  · intro hle
    rw [Std.isLE_compare] at hle ⊢
    exact Double.key_ofInt_mono hle
  · intro heq
    rw [compare_eq_iff_eq] at heq ⊢
    rw [heq]

namespace Value

variable {a b c : Value}

/-! ## Comparable values -/

/-- The value has a place among those of its type: it is not null, and a double is a number. -/
def Ordered : Value → Prop
  | null => False
  | double d => d.isNaN = false
  | _ => True

/-- There is a type in which the values are compared. -/
def Comparable (a b : Value) : Prop := (DataType.comparison? a.type b.type).isSome = true

/-- How two values stand to each other. -/
inductive Compares : Value → Value → Ordering → Prop
  | bools (x y : Bool) : Compares (bool x) (bool y) (compare x y)
  | texts (x y : String) : Compares (text x) (text y) (compare x y)
  | blobs (x y : List UInt8) : Compares (blob x) (blob y) (List.compareLex compare x y)
  | integers (x y : Int64) : Compares (integer x) (integer y) (compare x.toInt y.toInt)
  | integerDouble (x : Int64) {d : Double} (hd : d.isNaN = false) :
      Compares (integer x) (double d) (compare (Double.ofInt x.toInt).key d.key)
  | doubleInteger {d : Double} (hd : d.isNaN = false) (y : Int64) :
      Compares (double d) (integer y) (compare d.key (Double.ofInt y.toInt).key)
  | doubles {d e : Double} (hd : d.isNaN = false) (he : e.isNaN = false) :
      Compares (double d) (double e) (compare d.key e.key)

theorem exists_compares (ha : a.Ordered) (hb : b.Ordered) (hab : a.Comparable b) :
    ∃ p, Compares a b p := by
  cases a with
  | null => exact ha.elim
  | bool x =>
    cases b with
    | bool y => exact ⟨_, .bools x y⟩
    | null => exact hb.elim
    | integer _ | double _ | text _ | blob _ => cases hab
  | integer x =>
    cases b with
    | integer y => exact ⟨_, .integers x y⟩
    | double e => exact ⟨_, .integerDouble x hb⟩
    | null => exact hb.elim
    | bool _ | text _ | blob _ => cases hab
  | double d =>
    cases b with
    | integer y => exact ⟨_, .doubleInteger ha y⟩
    | double e => exact ⟨_, .doubles ha hb⟩
    | null => exact hb.elim
    | bool _ | text _ | blob _ => cases hab
  | text x =>
    cases b with
    | text y => exact ⟨_, .texts x y⟩
    | null => exact hb.elim
    | bool _ | integer _ | double _ | blob _ => cases hab
  | blob x =>
    cases b with
    | blob y => exact ⟨_, .blobs x y⟩
    | null => exact hb.elim
    | bool _ | integer _ | double _ | text _ => cases hab

theorem compare?_of_isNaN {d e : Double} (hd : d.isNaN = false) (he : e.isNaN = false) :
    d.compare? e = some (compare d.key e.key) := by
  rw [Double.compare?, hd, he]
  rfl

theorem Compares.compare? (h : Compares a b p) : a.compare? b = .ok (some p) := by
  cases h with
  | bools | texts | blobs | integers => rfl
  | integerDouble x hd => exact congrArg Except.ok (compare?_of_isNaN (Double.isNaN_ofInt _) hd)
  | doubleInteger hd y => exact congrArg Except.ok (compare?_of_isNaN hd (Double.isNaN_ofInt _))
  | doubles hd he => exact congrArg Except.ok (compare?_of_isNaN hd he)

/-! ## Integers that are rounded to one double -/

/-- Two integers on either side of a double to which both are rounded. -/
inductive Merged : Value → Value → Value → Prop
  | mk {x z : Int64} {d : Double} (hne : x ≠ z)
      (hlarge : 2 ^ 53 < x.toInt.natAbs ∨ 2 ^ 53 < z.toInt.natAbs)
      (hx : (Double.ofInt x.toInt).compare? d = some .eq)
      (hz : d.compare? (Double.ofInt z.toInt) = some .eq) :
      Merged (integer x) (double d) (integer z)

/-- Both are equal to the double, and they differ. -/
theorem Merged.compare? (h : Merged a b c) :
    a.compare? b = .ok (some .eq) ∧ b.compare? c = .ok (some .eq) ∧
      a.compare? c ≠ .ok (some .eq) := by
  cases h with
  | @mk x z d hne hlarge hx hz =>
    refine ⟨congrArg Except.ok hx, congrArg Except.ok hz, ?_⟩
    intro heq
    have hcompare : compare x.toInt z.toInt = .eq := Option.some.inj (Except.ok.inj heq)
    exact hne (Int64.toInt_inj.mp (compare_eq_iff_eq.mp hcompare))

/-- Integers that are rounded to one double are not both of 53 binary digits. -/
theorem large_of_key_eq {x z : Int64} (hne : x ≠ z)
    (hkey : (Double.ofInt x.toInt).key = (Double.ofInt z.toInt).key) :
    2 ^ 53 < x.toInt.natAbs ∨ 2 ^ 53 < z.toInt.natAbs := by
  by_contra hsmall
  obtain ⟨hx, hz⟩ := not_or.mp hsmall
  rw [not_lt] at hx hz
  have hint : x.toInt ≠ z.toInt := fun h => hne (Int64.toInt_inj.mp h)
  rcases lt_or_gt_of_ne hint with hlt | hgt
  · exact (Double.key_ofInt_strictMono hlt hx hz).ne hkey
  · exact (Double.key_ofInt_strictMono hgt hz hx).ne' hkey

/-- A double between two integers. -/
theorem transits_or_merged (x z : Int64) {d : Double} (hd : d.isNaN = false) :
    Transits (compare (Double.ofInt x.toInt).key d.key) (compare d.key (Double.ofInt z.toInt).key)
        (compare x.toInt z.toInt) ∨
      Merged (integer x) (double d) (integer z) := by
  by_cases hmerged : (Double.ofInt x.toInt).key = d.key ∧ d.key = (Double.ofInt z.toInt).key ∧ x ≠ z
  · obtain ⟨hx, hz, hne⟩ := hmerged
    refine Or.inr (.mk hne (large_of_key_eq hne (hx.trans hz)) ?_ ?_)
    · rw [compare?_of_isNaN (Double.isNaN_ofInt _) hd, compare_eq_iff_eq.mpr hx]
    · rw [compare?_of_isNaN hd (Double.isNaN_ofInt _), compare_eq_iff_eq.mpr hz]
  · refine Or.inl ⟨fun hle hle' => ?_, fun heq heq' => ?_⟩
    · rw [Std.isLE_compare] at hle hle' ⊢
      by_contra hgt
      -- The integers are the other way round, so that rounding leaves no room between the doubles.
      have hback := Double.key_ofInt_mono (not_le.mp hgt).le
      refine hmerged ⟨by omega, by omega, ?_⟩
      rintro rfl
      exact hgt le_rfl
    · rw [compare_eq_iff_eq] at heq heq' ⊢
      by_contra hne
      exact hmerged ⟨heq, heq', fun h => hne (congrArg Int64.toInt h)⟩

theorem Compares.transits (hab : Compares a b p) (hbc : Compares b c q) (hac : Compares a c r) :
    Transits p q r ∨ Merged a b c := by
  cases hab with
  | bools x y =>
    cases hbc with
    | bools _ z =>
      cases hac
      exact Or.inl (transits_of_transCmp x y z)
  | texts x y =>
    cases hbc with
    | texts _ z =>
      cases hac
      exact Or.inl (transits_of_transCmp x y z)
  | blobs x y =>
    cases hbc with
    | blobs _ z =>
      cases hac
      exact Or.inl (transits_of_transCmp x y z)
  | integers x y =>
    cases hbc with
    | integers _ z =>
      cases hac
      exact Or.inl (transits_of_transCmp x.toInt y.toInt z.toInt)
    | @integerDouble _ e he =>
      cases hac
      exact Or.inl ((transits_of_transCmp _ _ _).of_left (coarser_ofInt x.toInt y.toInt))
  | @integerDouble x d hd =>
    cases hbc with
    | doubleInteger _ z =>
      cases hac
      exact transits_or_merged x z hd
    | doubles _ he =>
      cases hac
      exact Or.inl (transits_of_transCmp _ _ _)
  | @doubleInteger d hd y =>
    cases hbc with
    | integers _ z =>
      cases hac
      exact Or.inl ((transits_of_transCmp _ _ _).of_right (coarser_ofInt y.toInt z.toInt))
    | integerDouble _ he =>
      cases hac
      exact Or.inl (transits_of_transCmp _ _ _)
  | doubles hd he =>
    cases hbc with
    | doubleInteger _ z =>
      cases hac
      exact Or.inl (transits_of_transCmp _ _ _)
    | doubles _ _ =>
      cases hac
      exact Or.inl (transits_of_transCmp _ _ _)

/-- There is no other place where a chain of equal values has ends that differ. -/
theorem merged_iff (hab : Compares a b p) (hbc : Compares b c q) (hac : Compares a c r) :
    Merged a b c ↔ p = .eq ∧ q = .eq ∧ r ≠ .eq := by
  constructor
  · intro hmerged
    obtain ⟨heq, heq', hne⟩ := hmerged.compare?
    rw [hab.compare?] at heq
    rw [hbc.compare?] at heq'
    rw [hac.compare?] at hne
    exact ⟨Option.some.inj (Except.ok.inj heq), Option.some.inj (Except.ok.inj heq'),
      fun h => hne (congrArg (Except.ok ∘ some) h)⟩
  · rintro ⟨heq, heq', hne⟩
    exact (hab.transits hbc hac).resolve_left fun htransits => hne (htransits.eq heq heq')

/-! ## The order as statements see it -/

/-- The operator holds between the values. -/
def Holds (op : Operator) (a b : Value) (nulls : NullMode) : Prop :=
  op.applyBinary a b nulls = .ok (bool true)

/-- A comparison asks for the order of its operands, neither of which is null, and tests it. -/
theorem holds_iff {op : Operator} {test : Ordering → Bool} (nulls : NullMode)
    (hlogical : op.isLogical = false) (hop : op.combine a b = Operator.comparing test a b)
    (ha : a.Ordered) (hb : b.Ordered) (h : Compares a b p) :
    Holds op a b nulls ↔ test p = true := by
  have hnull : (a.isNull || b.isNull) = false := by
    cases a <;> cases b <;> first | rfl | exact ha.elim | exact hb.elim
  have hnulls : op.refuseNulls nulls [a, b] = .ok () := by
    rw [Operator.refuseNulls, if_neg]
    rintro ⟨-, hany⟩
    rw [List.any_cons, List.any_cons, List.any_nil, Bool.or_false, hnull] at hany
    cases hany
  have happly : op.applyBinary a b nulls = .ok (bool (test p)) := by
    rw [Operator.applyBinary, hlogical, hop, Operator.comparing, h.compare?]
    change (op.refuseNulls nulls [a, b] >>= fun _ => _) = _
    rw [hnulls]
    rfl
  rw [Holds, happly]
  constructor
  · intro heq
    exact Value.bool.inj (Except.ok.inj heq)
  · intro heq
    rw [heq]

/-- Comparison is a chain within a type and between integers and doubles, but for the integers that
are rounded to one double. Only there does `a = b AND b = c` hold together with `a <> c`. -/
theorem compare_transitive (nulls : NullMode) (ha : a.Ordered) (hb : b.Ordered) (hc : c.Ordered)
    (hab : a.Comparable b) (hbc : b.Comparable c) (hac : a.Comparable c) :
    ∃ p q r, a.compare? b = .ok (some p) ∧ b.compare? c = .ok (some q) ∧
      a.compare? c = .ok (some r) ∧
      (p.isLE = true → q.isLE = true → r.isLE = true ∨ Merged a b c) ∧
      (p = .eq → q = .eq → r = .eq ∨ Merged a b c) ∧
      (Holds .eq a b nulls ∧ Holds .eq b c nulls ∧ Holds .ne a c nulls ↔ Merged a b c) := by
  obtain ⟨p, hp⟩ := exists_compares ha hb hab
  obtain ⟨q, hq⟩ := exists_compares hb hc hbc
  obtain ⟨r, hr⟩ := exists_compares ha hc hac
  refine ⟨p, q, r, hp.compare?, hq.compare?, hr.compare?, ?_, ?_, ?_⟩
  · intro hle hle'
    exact (hp.transits hq hr).imp_left fun htransits => htransits.isLE hle hle'
  · intro heq heq'
    exact (hp.transits hq hr).imp_left fun htransits => htransits.eq heq heq'
  · rw [holds_iff nulls rfl rfl ha hb hp, holds_iff nulls rfl rfl hb hc hq,
      holds_iff nulls rfl rfl ha hc hr, Ordering.isEq_iff_eq_eq, Ordering.isEq_iff_eq_eq,
      Ordering.isNe_iff_ne_eq]
    exact (merged_iff hp hq hr).symm

/-- One and a half lies between one and two. -/
theorem compare_transitive_one_two :
    (integer 1).Comparable (double ⟨0x3ff8000000000000⟩) ∧
      ∃ p q r, (integer 1).compare? (double ⟨0x3ff8000000000000⟩) = .ok (some p) ∧
        (double ⟨0x3ff8000000000000⟩).compare? (integer 2) = .ok (some q) ∧
        (integer 1).compare? (integer 2) = .ok (some r) ∧ p.isLE = true ∧ q.isLE = true ∧
        (r.isLE = true ∨ Merged (integer 1) (double ⟨0x3ff8000000000000⟩) (integer 2)) := by
  obtain ⟨p, q, r, hp, hq, hr, hchain, -, -⟩ := compare_transitive (a := integer 1)
    (b := double ⟨0x3ff8000000000000⟩) (c := integer 2) .propagate trivial rfl trivial rfl rfl rfl
  have hple : p = .lt := Option.some.inj (Except.ok.inj (hp.symm.trans rfl))
  have hqle : q = .lt := Option.some.inj (Except.ok.inj (hq.symm.trans rfl))
  subst hple
  subst hqle
  exact ⟨rfl, _, _, r, hp, hq, hr, rfl, rfl, hchain rfl rfl⟩

/-- Behind `2 ^ 53` an integer is rounded to the even one before it: the double is equal to both,
and they differ. -/
theorem compare_not_transitive :
    ((integer 9007199254740993).Ordered ∧ (double ⟨0x4340000000000000⟩).Ordered ∧
        (integer 9007199254740992).Ordered) ∧
      ((integer 9007199254740993).Comparable (double ⟨0x4340000000000000⟩) ∧
        (double ⟨0x4340000000000000⟩).Comparable (integer 9007199254740992) ∧
        (integer 9007199254740993).Comparable (integer 9007199254740992)) ∧
      (integer 9007199254740993).compare? (double ⟨0x4340000000000000⟩) = .ok (some .eq) ∧
      (double ⟨0x4340000000000000⟩).compare? (integer 9007199254740992) = .ok (some .eq) ∧
      (integer 9007199254740993).compare? (integer 9007199254740992) = .ok (some .gt) ∧
      Holds .eq (integer 9007199254740993) (double ⟨0x4340000000000000⟩) .propagate ∧
      Holds .eq (double ⟨0x4340000000000000⟩) (integer 9007199254740992) .propagate ∧
      Holds .ne (integer 9007199254740993) (integer 9007199254740992) .propagate :=
  ⟨⟨trivial, rfl, trivial⟩, ⟨rfl, rfl, rfl⟩, rfl, rfl, rfl, rfl, rfl, rfl⟩

end Value

end SelectEngine
