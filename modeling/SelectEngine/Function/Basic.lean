import SelectEngine.Text.Ascii
import SelectEngine.Text.Quoted
import SelectEngine.Value

/-!
# Functions and their registry

A function has a name, a number of arguments and a meaning. A registry holds at most one function
for each name, up to ASCII letter case, and number of arguments; `Registry.find?` prefers the one
for exactly the arguments at hand to the one for any number.
-/

set_option autoImplicit false

namespace SelectEngine

/-- A function on values. -/
structure Function where
  name : String
  /-- The number of arguments, `-1` for any number. -/
  arity : Int
  /-- The fewest arguments of a function of any number. -/
  minArgs : Nat
  /-- The type of the result for arguments of given types, null where it is not known. -/
  returnType : List DataType → DataType
  invoke : List Value → Except Error Value

/-- The functions that statements can call. -/
structure Registry where
  functions : List Function

namespace Registry

/-- A registry of no functions. -/
def empty : Registry := ⟨[]⟩

/-- The function is registered under a name and a number of arguments. -/
def hasKey (name : String) (arity : Int) (f : Function) : Bool :=
  Text.raiseCase f.name == Text.raiseCase name && f.arity == arity

/-- The function registered under a name and exactly a number of arguments. -/
def get? (r : Registry) (name : String) (arity : Int) : Option Function :=
  r.functions.find? (hasKey name arity)

/-- Registers a function in place of the one with its name and number of arguments. -/
def register (r : Registry) (f : Function) : Registry :=
  ⟨f :: r.functions.filter fun g => !hasKey f.name f.arity g⟩

/-- The registry of several functions, each in place of those before it. -/
def ofList (fs : List Function) : Registry := fs.foldl register empty

/-- The function that a call with this many arguments means. -/
def find? (r : Registry) (name : String) (args : Int) : Option Function :=
  match r.get? name args with
  | some f => some f
  | none => (r.get? name (-1)).filter fun f => decide (f.minArgs ≤ args)

/-- The function that the call of a statement means. Numbers of arguments have 32 bits and a sign,
so that there is none for a call with more than that. -/
def forCall? (r : Registry) (name : String) (args : Nat) : Option Function :=
  if args ≤ Int32.maxValue.toInt then r.find? name args else none

theorem find?_of_forCall? {r : Registry} {name : String} {args : Nat} {f : Function}
    (h : r.forCall? name args = some f) : r.find? name args = some f := by
  unfold forCall? at h
  split at h
  · exact h
  · cases h

theorem forCall?_eq_none {r : Registry} {name : String} {args : Nat}
    (h : r.find? name args = none) : r.forCall? name args = none := by
  rw [forCall?, h, ite_self]

def size (r : Registry) : Nat := r.functions.length

/-- The order of functions by name and number of arguments. -/
def before (f g : Function) : Bool :=
  ((compare (Text.raiseCase f.name) (Text.raiseCase g.name)).then (compare f.arity g.arity)).isLE

/-- The key of a function in diagnostics. -/
def keyText (f : Function) : String :=
  s!"FunctionKey \x7b name: {Text.quoted (Text.raiseCase f.name)}, num_args: {f.arity} \x7d"

/-- The registry in diagnostics, sorted by name and number of arguments. -/
def text (r : Registry) : String :=
  let keys := ", ".intercalate ((r.functions.mergeSort before).map keyText)
  s!"FunctionRegistry \x7b scalars: [{keys}] \x7d"

/-- A key finds the function registered last under it. -/
theorem get?_register (r : Registry) (f : Function) (name : String) (arity : Int) :
    (r.register f).get? name arity = if hasKey name arity f then some f else r.get? name arity := by
  unfold get? register
  by_cases h : hasKey name arity f = true
  · simp [h]
  · have same : ∀ fs : List Function,
        (fs.filter fun g => !hasKey f.name f.arity g).find? (hasKey name arity) =
          fs.find? (hasKey name arity) := by
      intro fs
      induction fs with
      | nil => rfl
      | cons g rest ih =>
        by_cases hg : hasKey f.name f.arity g = true
        · have hne : hasKey name arity g = false := by
            simp only [hasKey, Bool.and_eq_true, beq_iff_eq] at hg h
            simp only [hasKey, Bool.and_eq_false_iff, beq_eq_false_iff_ne]
            by_cases ha : g.arity = arity
            · refine Or.inl fun hn => h ⟨?_, ?_⟩
              · rw [← hg.1, hn]
              · rw [← hg.2, ha]
            · exact Or.inr ha
          simp [hg, hne, ih]
        · simp [hg, List.find?_cons, ih]
    simp [h, same]

end Registry

end SelectEngine
