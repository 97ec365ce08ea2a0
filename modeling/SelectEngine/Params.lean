import SelectEngine.Keyed
import SelectEngine.Value

/-!
# Statement parameters

The values of the positional parameters of a statement, by position from one. A position that was
never bound reads as null.
-/

set_option autoImplicit false

namespace SelectEngine

/-- The bound positions, each once. -/
structure Params where
  entries : List (Nat × Value)

namespace Params

/-- Nothing bound. -/
def empty : Params := ⟨[]⟩

/-- The value bound at a position. -/
def find? (p : Params) (position : Nat) : Option Value := p.entries.lookup position

/-- The value that a position reads as. -/
def value (p : Params) (position : Nat) : Value := (p.find? position).getD .null

def isBound (p : Params) (position : Nat) : Bool := (p.find? position).isSome

/-- The number of bound positions. -/
def size (p : Params) : Nat := p.entries.length

/-- Binds a position, in place of what it was bound to. -/
def bind (p : Params) (position : Nat) (v : Value) : Params :=
  ⟨Keyed.put position v p.entries⟩

/-- The values of the positions one, two and so on. -/
def ofList (vs : List Value) : Params := ⟨vs.zipIdx.map fun (v, i) => (i + 1, v)⟩

@[simp] theorem value_empty (position : Nat) : empty.value position = .null := rfl

theorem find?_bind (p : Params) (position : Nat) (v : Value) (other : Nat) :
    (p.bind position v).find? other = if other = position then some v else p.find? other :=
  Keyed.lookup_put position other v p.entries

/-- The position that was bound reads as the value that it was bound to. -/
theorem value_bind (p : Params) (position : Nat) (v : Value) :
    (p.bind position v).value position = v := by
  simp [value, find?_bind]

/-- Binding a position leaves all others as they were. -/
theorem value_bind_of_ne (p : Params) {position other : Nat} (v : Value) (h : other ≠ position) :
    (p.bind position v).value other = p.value other := by
  simp [value, find?_bind, h]

end Params

end SelectEngine
