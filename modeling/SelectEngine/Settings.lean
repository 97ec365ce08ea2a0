import SelectEngine.Operation
import SelectEngine.Parse

/-!
# Settings

How statements are read, bound and evaluated.
-/

set_option autoImplicit false

namespace SelectEngine

/-- The settings of the engine. -/
structure Settings where
  reading : ReadSettings
  nulls : NullMode
  /-- The first part of the names of columns that the statement does not name. -/
  aliasPrefix : String
  /-- The deepest nesting of operators and calls. -/
  maxDepth : Nat
deriving DecidableEq

namespace Settings

/-- The settings where none are given. -/
def default : Settings := ⟨.default, .propagate, "EXPR", 256⟩

/-- The settings with another depth limit, which may not be zero. -/
def withMaxDepth (s : Settings) (max : Nat) : Option Settings :=
  if max = 0 then none else some { s with maxDepth := max }

/-- The name of the `n`th column that the statement does not name. -/
def anonymousName (s : Settings) (n : Nat) : String := s!"{s.aliasPrefix}_{n}"

end Settings

end SelectEngine
