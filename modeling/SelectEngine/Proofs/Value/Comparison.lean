import SelectEngine.Proofs.Value.Order

/-!
# The six comparisons are one

`=`, `!=`, `<`, `<=`, `>` and `>=` are tests of one order of two values, which exchanging the values
turns round (`Value.compare?_swap`). They fail together, for values that no type compares
(`Operator.fails_iff`), and otherwise each follows from `<` and `=` by the three-valued connectives
(`Operator.comparisons_agree`). Null and doubles that are no numbers have no order, which leaves all
six unknown.
-/

set_option autoImplicit false

namespace SelectEngine

namespace Value

variable {a b : Value} {p : Ordering}

/-! ## Exchanging the values -/

/-- The value is null, or a double that is no number. -/
def Absent : Value → Prop
  | null => True
  | double d => d.isNaN = true
  | _ => False

theorem absent_or_ordered (v : Value) : v.Absent ∨ v.Ordered := by
  cases v with
  | null => exact Or.inl trivial
  | double d =>
    cases h : d.isNaN with
    | true => exact Or.inl h
    | false => exact Or.inr h
  | bool _ | integer _ | text _ | blob _ => exact Or.inr trivial

theorem comparable_comm : a.Comparable b ↔ b.Comparable a := by
  have hswap : ∀ s t, DataType.comparison? s t = DataType.comparison? t s := by
    intro s t
    cases s <;> cases t <;> rfl
  rw [Comparable, Comparable, hswap]

/-- The order of two values is turned round when they are exchanged. -/
theorem Compares.swap (h : Compares a b p) : Compares b a p.swap := by
  cases h with
  | bools x y =>
    rw [← Std.OrientedCmp.eq_swap]
    exact .bools y x
  | texts x y =>
    rw [← Std.OrientedCmp.eq_swap]
    exact .texts y x
  | blobs x y =>
    rw [← Std.OrientedCmp.eq_swap]
    exact .blobs y x
  | integers x y =>
    rw [← Std.OrientedCmp.eq_swap]
    exact .integers y x
  | integerDouble x hd =>
    rw [← Std.OrientedCmp.eq_swap]
    exact .doubleInteger hd x
  | doubleInteger hd y =>
    rw [← Std.OrientedCmp.eq_swap]
    exact .integerDouble y hd
  | doubles hd he =>
    rw [← Std.OrientedCmp.eq_swap]
    exact .doubles he hd

theorem compare?_of_not_comparable (h : ¬a.Comparable b) :
    a.compare? b = .error (b.mismatch a.type.name) := by
  have hnone : DataType.comparison? a.type b.type = none := Option.not_isSome_iff_eq_none.mp h
  unfold compare?
  rw [hnone]

theorem compare?_eq_none {d e : Double} (h : d.isNaN = true ∨ e.isNaN = true) :
    d.compare? e = none := by
  rw [Double.compare?, if_pos (Bool.or_eq_true_iff.mpr h)]

/-- Comparable values have no order if one of them is absent. -/
theorem compare?_of_absent (h : a.Comparable b) (habsent : a.Absent ∨ b.Absent) :
    a.compare? b = .ok none := by
  rcases habsent with ha | hb
  · cases a with
    | null => cases b <;> rfl
    | double d =>
      have hnone : ∀ e, d.compare? e = none := fun e => compare?_eq_none (Or.inl ha)
      cases b with
      | null => rfl
      | integer _ | double _ => exact congrArg Except.ok (hnone _)
      | bool _ | text _ | blob _ => cases h
    | bool _ | integer _ | text _ | blob _ => exact ha.elim
  · cases b with
    | null => cases a <;> rfl
    | double e =>
      have hnone : ∀ d, Double.compare? d e = none := fun d => compare?_eq_none (Or.inr hb)
      cases a with
      | null => rfl
      | integer _ | double _ => exact congrArg Except.ok (hnone _)
      | bool _ | text _ | blob _ => cases h
    | bool _ | integer _ | text _ | blob _ => exact hb.elim

/-- Comparable values have an order or none, and the order is turned round when they are exchanged. -/
theorem compare?_swap (h : a.Comparable b) :
    ∃ order : Option Ordering, a.compare? b = .ok order ∧
      b.compare? a = .ok (order.map Ordering.swap) ∧ (order = none ↔ a.Absent ∨ b.Absent) := by
  by_cases habsent : a.Absent ∨ b.Absent
  · exact ⟨none, compare?_of_absent h habsent,
      compare?_of_absent (comparable_comm.mp h) habsent.symm, iff_of_true rfl habsent⟩
  · obtain ⟨ha, hb⟩ := not_or.mp habsent
    obtain ⟨p, hp⟩ := exists_compares (a.absent_or_ordered.resolve_left ha)
      (b.absent_or_ordered.resolve_left hb) h
    exact ⟨some p, hp.compare?, hp.swap.compare?, iff_of_false nofun habsent⟩

end Value

namespace Operator

open Value

variable {op op' : Operator} {a b : Value}

/-! ## The operators as tests -/

/-- The orders for which a comparison holds. -/
def holdsFor : Operator → Ordering → Bool
  | eq => Ordering.isEq
  | ne => Ordering.isNe
  | lt => Ordering.isLT
  | gt => Ordering.isGT
  | le => Ordering.isLE
  | ge => Ordering.isGE
  | _ => fun _ => false

theorem applyBinary_comparison (h : op.isComparison = true) (a b : Value) :
    op.applyBinary a b .propagate =
      (a.compare? b).map fun order => ofTruth (order.map op.holdsFor) := by
  have hcomparing : op.applyBinary a b .propagate = comparing op.holdsFor a b := by
    cases op <;> first | rfl | exact absurd h Bool.false_ne_true
  rw [hcomparing, comparing]
  cases a.compare? b <;> rfl

/-- The operator fails between the values. -/
def Fails (op : Operator) (a b : Value) : Prop := ∃ e, op.applyBinary a b .propagate = .error e

/-- A comparison fails for values of types that are not compared, and for no others. -/
theorem fails_iff (h : op.isComparison = true) : op.Fails a b ↔ ¬a.Comparable b := by
  rw [Fails, applyBinary_comparison h]
  constructor
  · rintro ⟨e, he⟩ hcomparable
    obtain ⟨order, horder, -⟩ := compare?_swap hcomparable
    rw [horder] at he
    cases he
  · intro hcomparable
    rw [compare?_of_not_comparable hcomparable]
    exact ⟨_, rfl⟩

/-- The truths of the six comparisons of two values are those of one comparison: `exchanged` are the
truths with the values exchanged. -/
structure OneComparison (truth exchanged : Operator → Truth) : Prop where
  gt : truth .gt = exchanged .lt
  ge : truth .ge = (truth .lt).not
  le : truth .le = (truth .lt).or (truth .eq)
  ne : truth .ne = (truth .eq).not
  /-- At most one of less, equal and greater is true. -/
  single : ([.lt, .eq, .gt] : List Operator).countP (fun op => truth op = some true) ≤ 1

theorem oneComparison (order : Option Ordering) :
    OneComparison (fun op => order.map op.holdsFor)
      fun op => (order.map Ordering.swap).map op.holdsFor := by
  rcases order with _ | (_ | _ | _) <;> exact ⟨rfl, rfl, rfl, rfl, by decide⟩

/-- A comparison fails exactly if the five others do, in either order of the values. Otherwise the
truths of the six are those of one comparison, and all are unknown exactly if one of the values is
absent. -/
theorem comparisons_agree (a b : Value) :
    (∀ op op' : Operator, op.isComparison = true → op'.isComparison = true →
      (op.Fails a b ↔ op'.Fails a b) ∧ (op.Fails a b ↔ op'.Fails b a)) ∧
    (¬Fails .eq a b → ∃ truth exchanged : Operator → Truth,
      (∀ op : Operator, op.isComparison = true →
        op.applyBinary a b .propagate = .ok (ofTruth (truth op)) ∧
        op.applyBinary b a .propagate = .ok (ofTruth (exchanged op)) ∧
        (truth op = none ↔ a.Absent ∨ b.Absent)) ∧
      OneComparison truth exchanged) := by
  refine ⟨fun op op' h h' => ?_, fun hsucceeds => ?_⟩
  · rw [fails_iff h, fails_iff h', fails_iff h', comparable_comm (a := b)]
    exact ⟨Iff.rfl, Iff.rfl⟩
  · have hcomparable : a.Comparable b := not_not.mp (mt (fails_iff rfl).mpr hsucceeds)
    obtain ⟨order, horder, hswapped, hnone⟩ := compare?_swap hcomparable
    refine ⟨_, _, fun op h => ⟨?_, ?_, ?_⟩, oneComparison order⟩
    · rw [applyBinary_comparison h, horder]
      rfl
    · rw [applyBinary_comparison h, hswapped]
      rfl
    · rw [Option.map_eq_none_iff]
      exact hnone

end Operator

end SelectEngine
