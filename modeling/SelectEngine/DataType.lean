/-!
# Types of values

The types and the two tables that decide how operands of different types meet: the result of an
arithmetic operator, and the domain in which two operands are compared. `DataType.null` is the type
of the null value, and of a field whose type is not known before it is read.
-/

set_option autoImplicit false

namespace SelectEngine

/-- The type of a value. -/
inductive DataType where
  | null | boolean | integer | double | text | blob
deriving DecidableEq

namespace DataType

/-- The types in their customary order. -/
def all : List DataType := [null, boolean, integer, double, text, blob]

/-- The name of a type in descriptors and messages. -/
def name : DataType → String
  | null => "NULL"
  | boolean => "BOOLEAN"
  | integer => "INTEGER"
  | double => "DOUBLE"
  | text => "TEXT"
  | blob => "BLOB"

def isNumeric : DataType → Bool
  | integer | double => true
  | _ => false

/-- Values of the type can be joined as text. -/
def isTextual : DataType → Bool
  | text | integer | double => true
  | _ => false

/-- The type of a sum, difference, product, quotient or remainder: integers stay integers, a double
makes the result a double, and null takes the other side's type. -/
def arithmetic? : DataType → DataType → Option DataType
  | integer, integer => some integer
  | integer, double | double, integer | double, double => some double
  | null, null => some null
  | null, integer | integer, null => some integer
  | null, double | double, null => some double
  | _, _ => none

/-- The type in which two operands are compared. -/
def comparison? : DataType → DataType → Option DataType
  | null, t | t, null => some t
  | integer, integer => some integer
  | integer, double | double, integer | double, double => some double
  | boolean, boolean => some boolean
  | text, text => some text
  | blob, blob => some blob
  | _, _ => none

end DataType

end SelectEngine
