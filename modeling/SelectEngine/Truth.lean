/-!
# Three-valued truth

A truth is true, false or unknown, and unknown is written `none`. The connectives are Kleene's:
unknown stands for either value, and the result is known where both lead to the same.
-/

set_option autoImplicit false

namespace SelectEngine

/-- True, false, or unknown. -/
abbrev Truth := Option Bool

namespace Truth

def and : Truth → Truth → Truth
  | some false, _ | _, some false => some false
  | some true, some true => some true
  | _, _ => none

def or : Truth → Truth → Truth
  | some true, _ | _, some true => some true
  | some false, some false => some false
  | _, _ => none

/-- Unknown if either side is. -/
def xor : Truth → Truth → Truth
  | some a, some b => some (a != b)
  | _, _ => none

def not (t : Truth) : Truth := t.map (!·)

end Truth

end SelectEngine
