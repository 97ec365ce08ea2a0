import SelectEngine.Proofs.Ordinary.Operation
import SelectEngine.Proofs.Typing.Expression

/-!
# The types of values when they are read

Binding finds the type of an expression before any value is known, and takes a type that it does not
know for one that does not matter: the sum of a parameter and an integer is bound as an integer.
`Bound.possibleTypes` runs the same inference on the types that the parts of an expression may have
when it is read, where a parameter has the type of its value. The value that is read has one of
these types (`Bound.type_mem_possibleTypes`). Without parameters and without a choice between
arguments, these are the type that binding has found and null (`Bound.Determined.settled`).
-/

set_option autoImplicit false

namespace SelectEngine

variable {nulls : NullMode} {a b v : Value} {t u : DataType}

theorem Value.eq_null_of_type (h : v.type = .null) : v = .null := by
  cases v <;> first | rfl | cases h

/-! ## Operators -/

namespace Value

theorem arithmetic?_of_arithmeticType (h : arithmeticType a b = .ok t) :
    DataType.arithmetic? a.type b.type = some t := by
  unfold arithmeticType at h
  split at h
  · next found =>
    cases h
    exact found
  · cases h

variable {onInts : Int → Int → Int} {onDoubles : Double → Double → Double}

/-- Arithmetic has a result only where its operands have a type. -/
theorem arithmeticType_of_arithmetic (h : arithmetic onInts onDoubles a b = .ok v) :
    ∃ t, arithmeticType a b = .ok t := by
  obtain ⟨t, ht, -⟩ := Outcome.bind_eq_ok h
  exact ⟨t, ht⟩

/-- The result of arithmetic with a null operand is null. -/
theorem null_of_arithmetic (h : arithmetic onInts onDoubles a b = .ok v)
    (hnull : a = .null ∨ b = .null) : v = .null := by
  obtain ⟨t, ht⟩ := arithmeticType_of_arithmetic h
  rcases hnull with rfl | rfl
  · rw [arithmetic_null_left onInts onDoubles ht] at h
    exact (Except.ok.inj h).symm
  · rw [arithmetic_null_right onInts onDoubles ht] at h
    exact (Except.ok.inj h).symm

theorem arithmetic_of_dividing (h : dividing onInts onDoubles a b = .ok v) :
    arithmetic onInts onDoubles a b = .ok v := by
  unfold dividing at h
  split at h
  · obtain ⟨t, -, h⟩ := Outcome.bind_eq_ok h
    cases h
  · exact h

end Value

namespace Operator

variable {op : Operator}

theorem combine_of_applyBinary (h : op.applyBinary a b nulls = .ok v) : op.combine a b = .ok v := by
  unfold applyBinary at h
  cases hop : op.isLogical with
  | true => simpa [hop] using h
  | false =>
    have hseq : (op.refuseNulls nulls [a, b] >>= fun _ => op.combine a b) = .ok v := by
      simpa [hop] using h
    obtain ⟨-, -, hcombine⟩ := Outcome.bind_eq_ok hseq
    exact hcombine

theorem arithmeticType_of_values (h : Value.arithmeticType a b = .ok t) :
    op.arithmeticType a.type b.type = .ok t := by
  rw [arithmeticType, Value.arithmetic?_of_arithmeticType h]

/-- Operands of which an operator has a result have types for which it has a type. -/
theorem exists_resultType_of_combine (h : op.combine a b = .ok v) :
    ∃ t, op.resultType [a.type, b.type] = .ok t := by
  cases op with
  | add | sub | mul =>
    obtain ⟨t, ht⟩ := Value.arithmeticType_of_arithmetic h
    exact ⟨t, arithmeticType_of_values ht⟩
  | div | mod =>
    obtain ⟨t, ht⟩ := Value.arithmeticType_of_arithmetic (Value.arithmetic_of_dividing h)
    exact ⟨t, arithmeticType_of_values ht⟩
  | concat => cases a <;> cases b <;> first | exact ⟨_, rfl⟩ | cases h
  | eq | ne | lt | gt | le | ge =>
    obtain ⟨order, horder, -⟩ := Outcome.bind_eq_ok h
    unfold Value.compare? at horder
    cases hdomain : DataType.comparison? a.type b.type with
    | none =>
      rw [hdomain] at horder
      cases horder
    | some t => exact ⟨.boolean, by simp [resultType, isComparison, comparisonType, hdomain]⟩
  | and | or | xor => cases a <;> cases b <;> first | exact ⟨_, rfl⟩ | cases h
  | not | neg | pos | isNull | isNotNull => cases h

theorem exists_resultType_of_applyUnary (h : op.applyUnary a nulls = .ok v) :
    ∃ t, op.resultType [a.type] = .ok t := by
  cases op with
  | not => cases a <;> first | exact ⟨_, rfl⟩ | cases h
  | neg | pos =>
    obtain ⟨-, -, h⟩ := Outcome.bind_eq_ok h
    cases a <;> first | exact ⟨_, rfl⟩ | cases h
  | isNull | isNotNull => exact ⟨_, rfl⟩
  | _ => cases h

/-- A result of an operator fits the type that the operator has for the types of its operands. -/
theorem fits_of_apply {operands : List Value} (h : op.apply nulls operands = .ok v) :
    ∃ t, op.resultType (operands.map Value.type) = .ok t ∧ v.Fits t := by
  have hfits : List.Forall₂ Value.Fits operands (operands.map Value.type) :=
    List.forall₂_map_right_iff.mpr (List.forall₂_same.mpr fun v _ => v.fits_type)
  -- The types of the values themselves are types that they fit, so `apply_safe` applies to them.
  have hsafe : ∀ {t : DataType}, operands.length = op.arity →
      op.resultType (operands.map Value.type) = .ok t → v.Fits t := by
    intro t hcount ht
    have hsafe : Safe nulls t (op.apply nulls operands) := apply_safe hcount hfits ht
    rwa [h] at hsafe
  unfold apply at h
  split at h
  · obtain ⟨t, ht⟩ := exists_resultType_of_applyUnary h
    refine ⟨t, ht, hsafe ?_ ht⟩
    cases op <;> first | rfl | cases h
  · have hcombine := combine_of_applyBinary h
    obtain ⟨t, ht⟩ := exists_resultType_of_combine hcombine
    refine ⟨t, ht, hsafe ?_ ht⟩
    cases op <;> first | rfl | cases hcombine
  · cases h

/-- The result of an arithmetic operator on a null operand is null. -/
theorem null_of_apply {operands : List Value} (hop : op.isArithmetic = true)
    (hnull : Value.null ∈ operands) (h : op.apply nulls operands = .ok v) : v = .null := by
  unfold apply at h
  split at h
  · obtain rfl := List.mem_singleton.mp hnull
    cases op with
    | neg | pos =>
      obtain ⟨-, -, h⟩ := Outcome.bind_eq_ok h
      exact (Except.ok.inj h).symm
    | not | isNull | isNotNull => cases hop
    | _ => cases h
  · next a b =>
    have hcombine := combine_of_applyBinary h
    have hor : a = .null ∨ b = .null := by simpa [eq_comm] using hnull
    cases op with
    | add | sub | mul => exact Value.null_of_arithmetic hcombine hor
    | div | mod => exact Value.null_of_arithmetic (Value.arithmetic_of_dividing hcombine) hor
    | neg | pos => cases hcombine
    | _ => cases hop
  · cases h

end Operator

/-! ## Functions -/

/-- The result is null or of the type that the function declares for the types of its arguments. -/
def Function.Truthful (f : Function) : Prop :=
  ∀ (args : List Value) (v : Value), f.invoke args = .ok v →
    v.Fits (f.returnType (args.map Value.type))

namespace Function

variable {args : List Value}

theorem type_argument (args : List Value) :
    (args.map Value.type).headD .null = (argument args).type := by
  cases args <;> rfl

theorem ofText_truthful (name : String) (onText : String → String) :
    (ofText name onText).Truthful := by
  intro args v h
  simp only [ofText] at h ⊢
  split at h
  · cases h
    exact Value.fits_null _
  · obtain ⟨s, -, h⟩ := Outcome.bind_eq_ok h
    cases h
    exact Or.inr rfl

theorem fits_of_exact {i : Int} (h : Value.exact i = .ok v) : v.Fits .integer := by
  have hsafe : Safe .propagate .integer (Value.exact i) := safe_exact i
  rwa [h] at hsafe

theorem length_truthful : length.Truthful := by
  intro args v h
  simp only [length] at h ⊢
  split at h
  · cases h
    exact Value.fits_null _
  · exact fits_of_exact h
  · obtain ⟨s, -, h⟩ := Outcome.bind_eq_ok h
    exact fits_of_exact h

theorem abs_truthful : abs.Truthful := by
  intro args v h
  simp only [abs, type_argument] at h ⊢
  split at h
  · cases h
    exact Value.fits_null _
  · next i hi =>
    rw [hi]
    exact fits_of_exact h
  · next d hd =>
    cases h
    rw [hd]
    exact Or.inr rfl
  · cases h

/-- The first argument that is not null has the first type that is not that of null. -/
theorem firstType_eq (args : List Value) :
    firstType (args.map Value.type) = (firstValue args).type := by
  induction args with
  | nil => rfl
  | cons a args ih => cases a <;> first | exact ih | rfl

theorem nullif_truthful : nullif.Truthful := by
  intro args v h
  obtain ⟨order, -, h⟩ := Outcome.bind_eq_ok h
  simp only [nullif, type_argument] at h ⊢
  split at h
  · cases h
    exact Value.fits_null _
  · cases h
    exact Value.fits_type _

theorem builtins_truthful : ∀ f ∈ builtins, f.Truthful := by
  have hfirst : ∀ (args : List Value) (v : Value),
      (.ok (firstValue args) : Except Error Value) = .ok v →
      v.Fits (firstType (args.map Value.type)) := by
    intro args v h
    cases h
    rw [firstType_eq]
    exact Value.fits_type _
  have htypeof : typeof.Truthful := by
    intro args v h
    cases h
    exact Or.inr rfl
  simp only [builtins, List.forall_mem_cons]
  exact ⟨ofText_truthful _ _, ofText_truthful _ _, length_truthful, abs_truthful, hfirst, hfirst,
    nullif_truthful, htypeof, fun _ hf => absurd hf List.not_mem_nil⟩

end Function

/-! ## Expressions -/

mutual

/-- The functions that an expression calls. -/
def Bound.functions : Bound → List Function
  | .call f args => f :: Bound.functionsOfAll args
  | .operation _ operands => Bound.functionsOfAll operands
  | .literal _ | .param _ | .column _ | .unbound _ _ | .other _ => []

/-- The functions that several expressions call. -/
def Bound.functionsOfAll : List Bound → List Function
  | [] => []
  | e :: es => e.functions ++ Bound.functionsOfAll es

end

/-- The type of the result of an operator on values of given types: arithmetic with a null is
null. -/
def Operator.typeOn (op : Operator) (types : List DataType) : Option DataType :=
  if op.isArithmetic ∧ .null ∈ types then some .null else (op.resultType types).toOption

mutual

/-- The types that the value of an expression may have when it is read. A parameter has that of its
value; a column, a call and an operator have their type or are null. -/
def Bound.possibleTypes (params : Params) : Bound → List DataType
  | .literal reading => (reading.map Value.type).toOption.toList
  | .param ordinal => [(params.value ordinal).type]
  | .column ref => [.null, ref.column.type]
  | .call f args => .null :: (Bound.possibleTypesAll params args).map f.returnType
  | .operation op operands => .null :: (Bound.possibleTypesAll params operands).filterMap op.typeOn
  | .unbound _ _ | .other _ => []

/-- The types that the values of several expressions may have together. -/
def Bound.possibleTypesAll (params : Params) : List Bound → List (List DataType)
  | [] => [[]]
  | e :: es =>
    (e.possibleTypes params).flatMap fun t => (Bound.possibleTypesAll params es).map (t :: ·)

end

/-- The first type is the other one, or that of null. -/
def DataType.NullOr (u t : DataType) : Prop := u = .null ∨ u = t

instance (u t : DataType) : Decidable (u.NullOr t) := inferInstanceAs (Decidable (_ ∨ _))

instance (v : Value) (t : DataType) : Decidable (v.Fits t) := inferInstanceAs (Decidable (_ ∨ _))

theorem Value.Fits.type_nullOr (h : v.Fits t) : v.type.NullOr t := by
  rcases h with rfl | h
  · exact Or.inl rfl
  · exact Or.inr h

/-- The type of a result is null or that of the operator on the types of the operands. -/
theorem Operator.type_of_apply {op : Operator} {operands : List Value}
    (h : op.apply nulls operands = .ok v) :
    v.type = .null ∨ op.typeOn (operands.map Value.type) = some v.type := by
  obtain ⟨t, ht, hfits⟩ := fits_of_apply h
  rcases hfits.type_nullOr with hv | hv
  · exact Or.inl hv
  unfold typeOn
  split
  · -- Arithmetic with a null operand is null, whatever its table has for the types.
    next hnull =>
    obtain ⟨w, hw, hwtype⟩ := List.mem_map.mp hnull.2
    rw [Value.eq_null_of_type hwtype] at hw
    rw [null_of_apply hnull.1 hw h]
    exact Or.inl rfl
  · rw [ht, hv]
    exact Or.inr rfl

namespace Bound

variable {env : Environment (Except Error)}

mutual

/-- The value that is read has one of the types that are possible. -/
theorem type_mem_possibleTypes : ∀ (e : Bound) (depth : Nat) (v : Value),
    (∀ ref ∈ e.columns, ∀ w, env.column ref.source ref.position = .ok w → w.Fits ref.column.type) →
    (∀ f ∈ e.functions, f.Truthful) → e.eval env depth = .ok v →
    v.type ∈ e.possibleTypes env.params
  | .literal reading, _, v, _, _, h => by
    cases reading with
    | error e => cases h
    | ok w =>
      cases h
      exact List.mem_singleton.mpr rfl
  | .param ordinal, _, v, _, _, h => by
    cases h
    exact List.mem_singleton.mpr rfl
  | .column ref, _, v, hcolumns, _, h => by
    rw [eval] at h
    rcases (hcolumns ref (List.mem_singleton.mpr rfl) v h).type_nullOr with hv | hv <;>
      simp [possibleTypes, hv]
  | .call f args, depth, v, hcolumns, hfunctions, h => by
    obtain ⟨hf, hargs⟩ := List.forall_mem_cons.mp hfunctions
    rw [eval] at h
    obtain ⟨values, hvalues, h⟩ := Outcome.bind_eq_ok h
    rw [Outcome.relay_eq] at h
    have hmem := types_mem_possibleTypesAll args depth values hcolumns hargs hvalues
    rw [possibleTypes]
    rcases (hf values v h).type_nullOr with hv | hv
    · rw [hv]
      exact List.mem_cons_self
    · rw [hv]
      exact List.mem_cons_of_mem _ (List.mem_map_of_mem hmem)
  | .operation op operands, depth, v, hcolumns, hfunctions, h => by
    rw [eval] at h
    split at h
    · obtain ⟨values, hvalues, h⟩ := Outcome.bind_eq_ok h
      rw [Outcome.relay_eq] at h
      have hmem := types_mem_possibleTypesAll operands depth values hcolumns hfunctions hvalues
      rw [possibleTypes]
      rcases Operator.type_of_apply h with hv | hv
      · rw [hv]
        exact List.mem_cons_self
      · exact List.mem_cons_of_mem _ (List.mem_filterMap.mpr ⟨_, hmem, hv⟩)
    · cases h
  | .unbound _ _, _, _, _, _, h | .other _, _, _, _, _, h => by cases h

theorem types_mem_possibleTypesAll : ∀ (es : List Bound) (depth : Nat) (vs : List Value),
    (∀ ref ∈ columnsOfAll es, ∀ w, env.column ref.source ref.position = .ok w →
      w.Fits ref.column.type) →
    (∀ f ∈ functionsOfAll es, f.Truthful) → evalAll env depth es = .ok vs →
    vs.map Value.type ∈ possibleTypesAll env.params es
  | [], _, vs, _, _, h => by
    cases h
    exact List.mem_singleton.mpr rfl
  | e :: es, depth, vs, hcolumns, hfunctions, h => by
    obtain ⟨hfirstColumns, hrestColumns⟩ := List.forall_mem_append.mp hcolumns
    obtain ⟨hfirstFunctions, hrestFunctions⟩ := List.forall_mem_append.mp hfunctions
    by_cases hdepth : env.maxDepth ≤ depth
    · rw [evalAll, if_pos hdepth] at h
      cases h
    · rw [evalAll, if_neg hdepth] at h
      obtain ⟨v, hv, h⟩ := Outcome.bind_eq_ok h
      obtain ⟨rest, hrest, h⟩ := Outcome.bind_eq_ok h
      cases h
      exact List.mem_flatMap.mpr
        ⟨_, type_mem_possibleTypes e (depth + 1) v hfirstColumns hfirstFunctions hv,
          List.mem_map_of_mem
            (types_mem_possibleTypesAll es depth rest hrestColumns hrestFunctions hrest)⟩

end

/-- Whatever type the value has that is read, it is the given one or that of null. -/
def Settled (params : Params) (t : DataType) (e : Bound) : Prop :=
  ∀ u ∈ e.possibleTypes params, u.NullOr t

instance (params : Params) (t : DataType) (e : Bound) : Decidable (e.Settled params t) :=
  inferInstanceAs (Decidable (∀ u ∈ e.possibleTypes params, u.NullOr t))

theorem Settled.fits {e : Bound} {depth : Nat} (h : e.Settled env.params t)
    (hcolumns : ∀ ref ∈ e.columns, ∀ w, env.column ref.source ref.position = .ok w →
      w.Fits ref.column.type)
    (hfunctions : ∀ f ∈ e.functions, f.Truthful) (hv : e.eval env depth = .ok v) : v.Fits t := by
  rcases h v.type (type_mem_possibleTypes e depth v hcolumns hfunctions hv) with hnull | htype
  · exact Or.inl (Value.eq_null_of_type hnull)
  · exact Or.inr htype

end Bound

/-! ## Expressions whose type is settled when they are bound -/

namespace Operator

variable {op : Operator} {ts us : List DataType}

/-- All operators but those of arithmetic have one type of result. -/
theorem resultType_of_not_arithmetic (hop : op.isArithmetic = false)
    (h : op.resultType ts = .ok t) : t = if op = .concat then .text else .boolean := by
  unfold resultType at h
  split at h
  case h_3 | h_4 => cases hop
  case h_5 | h_6 | h_7 | h_8 | h_13 =>
    obtain ⟨-, -, h⟩ := Outcome.bind_eq_ok h
    cases h
    rfl
  case h_14 l r _ _ _ _ _ _ hconcat =>
    -- What is left of the binary operators compares.
    have hcomparison : op.isComparison = true := by
      cases op <;> first | rfl | contradiction
    rw [if_pos hcomparison] at h
    rw [if_neg hconcat]
    exact (comparison?_of_comparisonType h).1
  case h_15 => cases h
  all_goals
    cases h
    rfl

theorem eq_of_nullOr (h : List.Forall₂ DataType.NullOr us ts) (hnull : .null ∉ us) : us = ts := by
  induction h with
  | nil => rfl
  | cons hfirst _ ih =>
    rw [List.mem_cons, not_or] at hnull
    rw [hfirst.resolve_left (Ne.symm hnull.1), ih hnull.2]

theorem nullOr_of_typeOn (hts : op.resultType ts = .ok t) (h : List.Forall₂ DataType.NullOr us ts)
    (hu : op.typeOn us = some u) : u.NullOr t := by
  unfold typeOn at hu
  split at hu
  · cases hu
    exact Or.inl rfl
  · next hnot =>
    -- Without a null the types of arithmetic are those of binding, and any other operator has one
    -- type.
    obtain ⟨w, hw, rfl⟩ : ∃ w, op.resultType us = .ok w ∧ w = u := by
      cases hus : op.resultType us with
      | error e =>
        rw [hus] at hu
        cases hu
      | ok w =>
        rw [hus] at hu
        exact ⟨w, rfl, Option.some.inj hu⟩
    right
    cases hop : op.isArithmetic with
    | true =>
      rw [eq_of_nullOr h fun hnull => hnot ⟨hop, hnull⟩] at hw
      exact Except.ok.inj (hw.symm.trans hts)
    | false =>
      rw [resultType_of_not_arithmetic hop hw, resultType_of_not_arithmetic hop hts]

end Operator

/-- Where arguments are null instead of having their types, the result is null or of its type. -/
def Function.Steady (f : Function) : Prop :=
  ∀ us ts : List DataType, List.Forall₂ DataType.NullOr us ts →
    (f.returnType us).NullOr (f.returnType ts)

/-- The function gives its first argument that is not null, of whichever type that is. -/
def Function.Chooses (f : Function) : Prop := f.name = "coalesce" ∨ f.name = "ifnull"

/-- Only the functions that choose between their arguments are not steady. -/
theorem Function.builtins_steady : ∀ f ∈ builtins, ¬f.Chooses → f.Steady := by
  have hfixed : ∀ {f : Function} {t : DataType}, (∀ ts, f.returnType ts = t) → f.Steady := by
    intro f t h us ts _
    exact Or.inr ((h us).trans (h ts).symm)
  have hfirst : ∀ {f : Function}, (∀ ts, f.returnType ts = ts.headD .null) → f.Steady := by
    intro f h us ts hnullOr
    rw [h, h]
    cases hnullOr with
    | nil => exact Or.inl rfl
    | cons hfirst _ => exact hfirst
  have hchooses : ∀ {f : Function}, f.Chooses → ¬f.Chooses → f.Steady := fun h hnot =>
    absurd h hnot
  simp only [builtins, List.forall_mem_cons]
  exact ⟨fun _ => hfixed fun _ => rfl, fun _ => hfixed fun _ => rfl, fun _ => hfixed fun _ => rfl,
    fun _ => hfirst fun _ => rfl, hchooses (Or.inl rfl), hchooses (Or.inr rfl),
    fun _ => hfirst fun _ => rfl, fun _ => hfixed fun _ => rfl,
    fun _ hf => absurd hf List.not_mem_nil⟩

namespace Bound

variable {params : Params}

mutual

/-- No parameter is read, and no function is called that chooses between its arguments. -/
def Determined : Bound → Prop
  | .param _ => False
  | .call f args => ¬f.Chooses ∧ AllDetermined args
  | .operation _ operands => AllDetermined operands
  | .literal _ | .column _ | .unbound _ _ | .other _ => True

def AllDetermined : List Bound → Prop
  | [] => True
  | e :: es => e.Determined ∧ AllDetermined es

end

mutual

/-- The type that binding finds for a determined expression is settled. -/
theorem Determined.settled : ∀ (e : Bound) (t : DataType), e.Determined →
    (∀ f ∈ e.functions, f ∈ Function.builtins) → e.type = .ok t → e.Settled params t
  | .literal reading, t, _, _, ht => by
    cases reading with
    | error e => cases ht
    | ok v =>
      cases ht
      intro u hu
      exact Or.inr (List.mem_singleton.mp hu)
  | .param _, _, h, _, _ => h.elim
  | .column ref, t, _, _, ht => by
    cases ht
    intro u hu
    simpa [possibleTypes, DataType.NullOr] using hu
  | .call f args, t, h, hfunctions, ht => by
    obtain ⟨hf, hargs⟩ := List.forall_mem_cons.mp hfunctions
    rw [type] at ht
    obtain ⟨ts, hts, ht⟩ := Outcome.bind_eq_ok ht
    cases ht
    intro u hu
    rcases List.mem_cons.mp hu with rfl | hu
    · exact Or.inl rfl
    · obtain ⟨us, hus, rfl⟩ := List.mem_map.mp hu
      exact Function.builtins_steady f hf h.1 us ts
        (AllDetermined.settled args ts h.2 hargs hts us hus)
  | .operation op operands, t, h, hfunctions, ht => by
    rw [type] at ht
    obtain ⟨ts, hts, ht⟩ := Outcome.bind_eq_ok ht
    intro u hu
    rcases List.mem_cons.mp hu with rfl | hu
    · exact Or.inl rfl
    · obtain ⟨us, hus, hu⟩ := List.mem_filterMap.mp hu
      exact Operator.nullOr_of_typeOn ht
        (AllDetermined.settled operands ts h hfunctions hts us hus) hu
  | .unbound _ _, _, _, _, _ => fun _ hu => nomatch hu
  | .other _, _, _, _, ht => by cases ht

theorem AllDetermined.settled : ∀ (es : List Bound) (ts : List DataType), AllDetermined es →
    (∀ f ∈ functionsOfAll es, f ∈ Function.builtins) → types es = .ok ts →
    ∀ us ∈ possibleTypesAll params es, List.Forall₂ DataType.NullOr us ts
  | [], ts, _, _, hts => by
    cases hts
    intro us hus
    rw [List.mem_singleton.mp hus]
    exact .nil
  | e :: es, ts, h, hfunctions, hts => by
    obtain ⟨hfirst, hrest⟩ := List.forall_mem_append.mp hfunctions
    rw [types] at hts
    obtain ⟨t, ht, hts⟩ := Outcome.bind_eq_ok hts
    obtain ⟨rest, hrestTypes, hts⟩ := Outcome.bind_eq_ok hts
    cases hts
    intro us hus
    obtain ⟨u, hu, hus⟩ := List.mem_flatMap.mp hus
    obtain ⟨others, hothers, rfl⟩ := List.mem_map.mp hus
    exact .cons (Determined.settled e t h.1 hfirst ht u hu)
      (AllDetermined.settled es rest h.2 hrest hrestTypes others hothers)

end

end Bound

end SelectEngine
