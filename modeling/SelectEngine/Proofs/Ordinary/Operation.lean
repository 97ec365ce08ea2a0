import Mathlib.Data.List.Forall2
import SelectEngine.Proofs.Evaluation
import SelectEngine.Function.Builtin
import SelectEngine.Proofs.Ordinary.Basic

/-!
# Operators and functions fail ordinarily

An operator on as many operands as it takes gives a value, or a failure that the operands account
for: their types, a null, a zero divisor, a result that does not fit (`Operator.onValues_apply`).
The same holds of the functions that every registry starts with, whatever their arguments
(`Registry.withBuiltins_onValues`). Such a failure is ordinary.
-/

set_option autoImplicit false

namespace SelectEngine

variable {α β : Type}

/-- The outcome is a value, or a failure with the property. -/
def FailsIn (E : Error → Prop) (x : Except Error α) : Prop :=
  match x with
  | .ok _ => True
  | .error e => E e

theorem failsIn_bind {E : Error → Prop} {x : Except Error α} {f : α → Except Error β}
    (hx : FailsIn E x) (hf : ∀ a, FailsIn E (f a)) : FailsIn E (x >>= f) := by
  cases x with
  | ok a => exact hf a
  | error e => exact hx

theorem FailsIn.of_error {E : Error → Prop} {x : Except Error α} {e : Error} (h : FailsIn E x)
    (hx : x = .error e) : E e := by
  rw [hx] at h
  exact h

theorem FailsIn.mono {E E' : Error → Prop} {x : Except Error α} (h : FailsIn E x)
    (himp : ∀ e, E e → E' e) : FailsIn E' x := by
  cases x with
  | ok a => trivial
  | error e => exact himp e h

/-- The values at hand account for the failure: their types, a null, a zero divisor, a result that
does not fit. -/
def Error.OfValues : Error → Prop
  | .typeMismatch .. | .nullValue _ | .divisionByZero | .integerOverflow => True
  | _ => False

theorem Error.OfValues.ordinary {e : Error} (h : e.OfValues) : e.Ordinary := by
  cases e <;> trivial

/-- The outcome is a value, or a failure that the values at hand account for. -/
abbrev OnValues (x : Except Error α) : Prop := FailsIn Error.OfValues x

theorem OnValues.ordinarily {x : Except Error α} (h : OnValues x) :
    Ordinarily x fun _ => True := by
  cases x with
  | ok a => trivial
  | error e => exact Error.OfValues.ordinary h

/-! ## Values -/

namespace Value

theorem onValues_require (v : Value) (view : Value → Option α) (expected : String) :
    OnValues (v.require view expected) := by
  rw [require]
  split <;> trivial

theorem onValues_truth (v : Value) : OnValues v.truth := by
  cases v <;> trivial

theorem onValues_ofNumeral (numeral : String) : OnValues (ofNumeral numeral) := by
  rw [ofNumeral]
  split <;> trivial

theorem onValues_exact (i : Int) : OnValues (exact i) := by
  rw [exact]
  split <;> trivial

theorem onValues_arithmeticType (a b : Value) : OnValues (arithmeticType a b) := by
  rw [arithmeticType]
  split <;> trivial

/-- Operands of one type are both integers or both have a double, so that the promotion of other
values is never asked for. -/
theorem arithmetic_eq (onInts : Int → Int → Int) (onDoubles : Double → Double → Double)
    (a b : Value) :
    arithmetic onInts onDoubles a b = (do
      let _ ← arithmeticType a b
      match a, b with
      | integer x, integer y => exact (onInts x.toInt y.toInt)
      | _, _ =>
        match a.double?, b.double? with
        | some x, some y => .ok (double (onDoubles x y))
        | _, _ => .ok null) := by
  cases a <;> cases b <;> rfl

theorem onValues_arithmetic (onInts : Int → Int → Int) (onDoubles : Double → Double → Double)
    (a b : Value) : OnValues (arithmetic onInts onDoubles a b) := by
  rw [arithmetic_eq]
  apply failsIn_bind (onValues_arithmeticType a b)
  intro _
  split
  · exact onValues_exact _
  · split <;> trivial

theorem onValues_dividing (onInts : Int → Int → Int) (onDoubles : Double → Double → Double)
    (a b : Value) : OnValues (dividing onInts onDoubles a b) := by
  rw [dividing]
  split
  · exact failsIn_bind (onValues_arithmeticType a b) fun _ => trivial
  · exact onValues_arithmetic onInts onDoubles a b

theorem onValues_neg (v : Value) : OnValues v.neg := by
  cases v with
  | integer i => exact onValues_exact _
  | _ => trivial

theorem onValues_pos (v : Value) : OnValues v.pos := by
  cases v <;> trivial

theorem onValues_joined (v : Value) : OnValues v.joined := onValues_require v joined? "text"

theorem onValues_concat (a b : Value) : OnValues (a.concat b) := by
  unfold concat
  split
  · trivial
  · exact failsIn_bind (onValues_joined _) fun _ => trivial
  · exact failsIn_bind (onValues_joined _) fun _ => trivial
  · exact failsIn_bind (onValues_joined _) fun _ =>
      failsIn_bind (onValues_joined _) fun _ => trivial

theorem onValues_compare? (a b : Value) : OnValues (a.compare? b) := by
  unfold compare?
  split
  · trivial
  · split
    case h_5 => split <;> trivial
    all_goals trivial

end Value

/-! ## Operators -/

namespace Operator

theorem onValues_refuseNulls (op : Operator) (nulls : NullMode) (operands : List Value) :
    OnValues (op.refuseNulls nulls operands) := by
  rw [refuseNulls]
  split <;> trivial

theorem onValues_comparing (test : Ordering → Bool) (a b : Value) :
    OnValues (comparing test a b) :=
  failsIn_bind (a.onValues_compare? b) fun _ => trivial

theorem onValues_connecting (connective : Truth → Truth → Truth) (a b : Value) :
    OnValues (connecting connective a b) :=
  failsIn_bind a.onValues_truth fun _ => failsIn_bind b.onValues_truth fun _ => trivial

theorem onValues_combine {op : Operator} (hop : op.isUnary = false) (a b : Value) :
    OnValues (op.combine a b) := by
  cases op with
  | add | sub | mul => exact Value.onValues_arithmetic _ _ a b
  | div | mod => exact Value.onValues_dividing _ _ a b
  | concat => exact a.onValues_concat b
  | eq | ne | lt | gt | le | ge => exact onValues_comparing _ a b
  | and | or | xor => exact onValues_connecting _ a b
  | not | neg | pos | isNull | isNotNull => cases hop

theorem onValues_applyBinary {op : Operator} (hop : op.isUnary = false) (a b : Value)
    (nulls : NullMode) : OnValues (op.applyBinary a b nulls) := by
  unfold applyBinary
  split
  · exact onValues_combine hop a b
  · exact failsIn_bind (op.onValues_refuseNulls nulls [a, b]) fun _ => onValues_combine hop a b

theorem onValues_applyUnary {op : Operator} (hop : op.isUnary = true) (a : Value)
    (nulls : NullMode) : OnValues (op.applyUnary a nulls) := by
  cases op with
  | not => exact failsIn_bind a.onValues_truth fun _ => trivial
  | neg => exact failsIn_bind (onValues_refuseNulls _ nulls [a]) fun _ => a.onValues_neg
  | pos => exact failsIn_bind (onValues_refuseNulls _ nulls [a]) fun _ => a.onValues_pos
  | isNull | isNotNull => trivial
  | _ => cases hop

/-- What an operator takes: one operand or two. -/
theorem operands_of_arity {op : Operator} {operands : List α} (h : operands.length = op.arity) :
    (op.isUnary = true ∧ ∃ a, operands = [a]) ∨
      (op.isUnary = false ∧ ∃ a b, operands = [a, b]) := by
  unfold arity at h
  split at h
  · next hop => exact Or.inl ⟨hop, List.length_eq_one_iff.mp h⟩
  · next hop => exact Or.inr ⟨by simpa using hop, List.length_eq_two.mp h⟩

/-- An operator on as many operands as it takes. -/
theorem onValues_apply {op : Operator} {operands : List Value} (nulls : NullMode)
    (h : operands.length = op.arity) : OnValues (op.apply nulls operands) := by
  rcases operands_of_arity h with ⟨hop, a, rfl⟩ | ⟨hop, a, b, rfl⟩
  · exact onValues_applyUnary hop a nulls
  · exact onValues_applyBinary hop a b nulls

theorem onValues_requireAll (op : Operator) (test : DataType → Bool) (expected : String)
    (types : List DataType) : OnValues (op.requireAll test expected types) := by
  rw [requireAll]
  split <;> trivial

theorem onValues_arithmeticType (op : Operator) (l r : DataType) :
    OnValues (op.arithmeticType l r) := by
  rw [arithmeticType]
  split <;> trivial

theorem onValues_comparisonType (op : Operator) (l r : DataType) :
    OnValues (op.comparisonType l r) := by
  rw [comparisonType]
  split <;> trivial

/-- An operator on as many types as it takes operands. -/
theorem onValues_resultType {op : Operator} {types : List DataType}
    (h : types.length = op.arity) : OnValues (op.resultType types) := by
  rcases operands_of_arity h with ⟨hop, t, rfl⟩ | ⟨hop, l, r, rfl⟩
  · cases op with
    | neg | pos | not => exact failsIn_bind (onValues_requireAll _ _ _ _) fun _ => trivial
    | isNull | isNotNull => trivial
    | _ => cases hop
  · cases op with
    | and | or | xor | concat =>
      exact failsIn_bind (onValues_requireAll _ _ _ _) fun _ => trivial
    | add | sub | mul | div | mod => exact onValues_arithmeticType _ l r
    | eq | ne | lt | gt | le | ge => exact onValues_comparisonType _ l r
    | _ => cases hop

end Operator

/-! ## Functions -/

/-- Whatever the arguments, they account for a failure of the function. -/
def Function.OnValues (f : Function) : Prop := ∀ args, SelectEngine.OnValues (f.invoke args)

/-- Whatever the arguments, a failure of the function is ordinary. -/
def Function.Ordinary (f : Function) : Prop :=
  ∀ args, Ordinarily (f.invoke args) fun _ => True

namespace Function

theorem ofText_onValues (name : String) (onText : String → String) :
    (ofText name onText).OnValues := by
  intro args
  simp only [ofText]
  split
  · trivial
  · exact failsIn_bind (Value.onValues_require _ _ _) fun _ => trivial

theorem length_onValues : length.OnValues := by
  intro args
  simp only [length]
  split
  · trivial
  · exact Value.onValues_exact _
  · exact failsIn_bind (Value.onValues_require _ _ _) fun _ => Value.onValues_exact _

theorem abs_onValues : abs.OnValues := by
  intro args
  simp only [abs]
  split
  · trivial
  · exact Value.onValues_exact _
  · trivial
  · trivial

theorem nullif_onValues : nullif.OnValues := by
  intro args
  exact failsIn_bind (Value.onValues_compare? _ _) fun _ => trivial

theorem builtins_onValues : ∀ f ∈ builtins, f.OnValues := by
  have hcoalesce : coalesce.OnValues := fun _ => trivial
  have hifnull : ifnull.OnValues := fun _ => trivial
  have htypeof : typeof.OnValues := fun _ => trivial
  simp only [builtins, List.forall_mem_cons]
  exact ⟨ofText_onValues _ _, ofText_onValues _ _, length_onValues, abs_onValues, hcoalesce,
    hifnull, nullif_onValues, htypeof, nofun⟩

end Function

namespace Registry

/-- Every function that statements can call fails ordinarily. -/
def Ordinary (r : Registry) : Prop := ∀ f ∈ r.functions, f.Ordinary

/-- A registry of several functions has no others. -/
theorem mem_of_mem_ofList {fs : List Function} {f : Function} (h : f ∈ (ofList fs).functions) :
    f ∈ fs := by
  have hfold : ∀ (fs : List Function) (r : Registry), f ∈ (fs.foldl register r).functions →
      f ∈ r.functions ∨ f ∈ fs := by
    intro fs
    induction fs with
    | nil => exact fun r hf => Or.inl hf
    | cons g fs ih =>
      intro r hf
      rcases ih (r.register g) hf with hf | hf
      · rcases List.mem_cons.mp hf with rfl | hf
        · exact Or.inr List.mem_cons_self
        · exact Or.inl (List.mem_filter.mp hf).1
      · exact Or.inr (List.mem_cons_of_mem _ hf)
  exact (hfold fs empty h).resolve_left List.not_mem_nil

theorem withBuiltins_onValues : ∀ f ∈ withBuiltins.functions, f.OnValues :=
  fun f hf => Function.builtins_onValues f (mem_of_mem_ofList hf)

theorem withBuiltins_ordinary : withBuiltins.Ordinary :=
  fun f hf args => (withBuiltins_onValues f hf args).ordinarily

/-- A function that is found is one of the registry. -/
theorem mem_of_find? {r : Registry} {name : String} {args : Int} {f : Function}
    (h : r.find? name args = some f) : f ∈ r.functions := by
  unfold find? at h
  split at h
  · next g hg =>
    cases h
    exact List.mem_of_find?_eq_some hg
  · obtain ⟨hfound, -⟩ := Option.filter_eq_some_iff.mp h
    exact List.mem_of_find?_eq_some hfound

end Registry

end SelectEngine
