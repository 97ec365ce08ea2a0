import SelectEngine.Function.Basic
import SelectEngine.Text.Case

/-!
# The functions that every registry starts with

An argument that is missing counts as null; the registry never calls a function with fewer arguments
than it takes.
-/

set_option autoImplicit false

namespace SelectEngine.Function

/-- The first argument. -/
def argument (args : List Value) : Value := args.headD .null

/-- The text of an argument, or the failure of one that has none. -/
def textArgument (name : String) (v : Value) : Except Error String :=
  v.require Value.joined? s!"text argument to {name}"

/-- A function of one text; null for null. -/
def ofText (name : String) (onText : String → String) : Function where
  name := name
  arity := 1
  minArgs := 0
  returnType _ := .text
  invoke args :=
    match argument args with
    | .null => .ok .null
    | v => do
      let s ← textArgument name v
      .ok (.text (onText s))

/-- The number of characters of a text or of bytes of a blob. -/
def length : Function where
  name := "length"
  arity := 1
  minArgs := 0
  returnType _ := .integer
  invoke args :=
    match argument args with
    | .null => .ok .null
    | .blob bytes => Value.exact bytes.length
    | v => do
      let s ← textArgument "length" v
      Value.exact s.length

/-- A number without its sign. -/
def abs : Function where
  name := "abs"
  arity := 1
  minArgs := 0
  returnType types := types.headD .null
  invoke args :=
    match argument args with
    | .null => .ok .null
    | .integer i => Value.exact i.toInt.natAbs
    | .double d => .ok (.double d.abs)
    | v => .error (v.mismatch "numeric argument to abs")

/-- The first argument that is not null. -/
def firstValue (args : List Value) : Value :=
  (args.find? fun v => !v.isNull).getD .null

/-- The first type that is known. -/
def firstType (types : List DataType) : DataType :=
  (types.find? fun t => t != .null).getD .null

/-- The first of any number of arguments that is not null. -/
def coalesce : Function where
  name := "coalesce"
  arity := -1
  minArgs := 1
  returnType := firstType
  invoke args := .ok (firstValue args)

/-- The first of two arguments that is not null. -/
def ifnull : Function where
  name := "ifnull"
  arity := 2
  minArgs := 0
  returnType := firstType
  invoke args := .ok (firstValue args)

/-- Null if the two arguments compare as equal, else the first. -/
def nullif : Function where
  name := "nullif"
  arity := 2
  minArgs := 0
  returnType types := types.headD .null
  invoke args := do
    let order ← (argument args).compare? (argument args.tail)
    .ok (if order = some .eq then .null else argument args)

/-- The name of the argument's type in lower case. -/
def typeof : Function where
  name := "typeof"
  arity := 1
  minArgs := 0
  returnType _ := .text
  invoke args := .ok (.text (Text.foldCase (argument args).type.name))

/-- All of them. -/
def builtins : List Function :=
  [ofText "upper" Text.upper, ofText "lower" Text.lower, length, abs, coalesce, ifnull, nullif,
    typeof]

end SelectEngine.Function

namespace SelectEngine.Registry

/-- The registry that statements are bound with where none is given. -/
def withBuiltins : Registry := ofList Function.builtins

end SelectEngine.Registry
