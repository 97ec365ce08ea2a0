import SelectEngine.DataType
import SelectEngine.Double.Text
import SelectEngine.Error
import SelectEngine.Text.Ascii
import SelectEngine.Truth

/-!
# Values

A value is null, a truth, a 64-bit integer, a double, a text or a run of bytes. Arithmetic on
integers is exact or refused: the result is computed without bound and must fit 64 bits. A null
operand makes the result null, once the types have been found to agree.
-/

set_option autoImplicit false

namespace SelectEngine

/-- A value of any type. -/
inductive Value where
  | null
  | bool (b : Bool)
  | integer (i : Int64)
  | double (d : Double)
  | text (s : String)
  | blob (bytes : List UInt8)
deriving DecidableEq, Inhabited

namespace Value

/-- The type of a value. -/
def type : Value → DataType
  | null => .null
  | bool _ => .boolean
  | integer _ => .integer
  | double _ => .double
  | text _ => .text
  | blob _ => .blob

def isNull : Value → Bool
  | null => true
  | _ => false

/-- The failure of a value where another type is needed. -/
def mismatch (v : Value) (expected : String) : Error :=
  .typeMismatch expected v.type.name

/-- The value of a truth: unknown is null. -/
def ofTruth : Truth → Value
  | some b => bool b
  | none => null

/-! ## Views -/

def bool? : Value → Option Bool
  | bool b => some b
  | _ => none

def integer? : Value → Option Int64
  | integer i => some i
  | _ => none

/-- The number as a double; an integer is rounded to the nearest. -/
def double? : Value → Option Double
  | double d => some d
  | integer i => some (Double.ofInt i.toInt)
  | _ => none

def text? : Value → Option String
  | text s => some s
  | _ => none

def blob? : Value → Option (List UInt8)
  | blob b => some b
  | _ => none

/-- The value that a view shows, or a failure that names the type it wants. -/
def require {α : Type} (v : Value) (view : Value → Option α) (expected : String) :
    Except Error α :=
  match view v with
  | some a => .ok a
  | none => .error (v.mismatch expected)

/-- The truth of a value: null is unknown, and only booleans are known. -/
def truth (v : Value) : Except Error Truth :=
  match v with
  | null => .ok none
  | bool b => .ok (some b)
  | _ => .error (v.mismatch "boolean")

/-! ## Text -/

/-- The text of a value that can be joined to text. -/
def joined? : Value → Option String
  | text s => some s
  | integer i => some (toString i.toInt)
  | double d => some d.text
  | _ => none

/-- The two digits of a byte in base sixteen. -/
def hexByte (b : UInt8) : List Char :=
  [Nat.digitChar (b.toNat / 16), Nat.digitChar (b.toNat % 16)].map Char.toUpper

/-- The text with each single quote doubled. -/
def doubleQuotes (cs : List Char) : List Char :=
  cs.flatMap fun c => if c = '\'' then ['\'', '\''] else [c]

/-- The literal of a value in a statement. -/
def literal : Value → String
  | null => "NULL"
  | bool true => "TRUE"
  | bool false => "FALSE"
  | integer i => toString i.toInt
  | double d => d.text
  | text s => String.ofList ('\'' :: doubleQuotes s.toList ++ ['\''])
  | blob bytes => String.ofList ('X' :: '\'' :: bytes.flatMap hexByte ++ ['\''])

/-- An integer that fits 64 bits. -/
def ofInt? (i : Int) : Option Value :=
  if -9223372036854775808 ≤ i ∧ i ≤ 9223372036854775807 then some (integer (Int64.ofInt i))
  else none

/-- The value of a numeric literal. Without a point it is an integer if it fits, else, and with a
point, a double. -/
def ofNumeral (numeral : String) : Except Error Value :=
  let digits := Text.trim numeral.toList
  let exact := if digits.contains '.' then none else (Decimal.readInt? digits).bind ofInt?
  match exact.orElse fun _ => (Decimal.readDouble? digits).map double with
  | some v => .ok v
  | none => .error (.typeMismatch "numeric literal" s!"'{numeral}'")

/-! ## Arithmetic -/

/-- The type of an arithmetic result, or the operand that has none. -/
def arithmeticType (a b : Value) : Except Error DataType :=
  match DataType.arithmetic? a.type b.type with
  | some t => .ok t
  | none => .error ((if a.type.isNumeric || a.isNull then b else a).mismatch "numeric")

/-- An exact result on integers, if it fits 64 bits. -/
def exact (i : Int) : Except Error Value :=
  match ofInt? i with
  | some v => .ok v
  | none => .error .integerOverflow

/-- An operator on numbers: exact on two integers, else on doubles; null with a null operand. -/
def arithmetic (onInts : Int → Int → Int) (onDoubles : Double → Double → Double) (a b : Value) :
    Except Error Value := do
  let type ← arithmeticType a b
  if a.isNull || b.isNull then .ok null
  else if type = .integer then
    match a, b with
    | integer x, integer y => exact (onInts x.toInt y.toInt)
    | _, _ => .error (.internal "integer promotion on non-integers")
  else
    match a.double?, b.double? with
    | some x, some y => .ok (double (onDoubles x y))
    | _, _ => .error (.internal "double promotion on non-numerics")

def isZero : Value → Bool
  | integer i => i.toInt == 0
  | double d => d.isZero
  | _ => false

def add : Value → Value → Except Error Value := arithmetic (· + ·) Double.add

def sub : Value → Value → Except Error Value := arithmetic (· - ·) Double.sub

def mul : Value → Value → Except Error Value := arithmetic (· * ·) Double.mul

/-- An operator that divides: a zero divisor is refused unless the dividend is null. -/
def dividing (onInts : Int → Int → Int) (onDoubles : Double → Double → Double) (a b : Value) :
    Except Error Value :=
  if b.isZero && !a.isNull then do
    let _ ← arithmeticType a b
    .error .divisionByZero
  else arithmetic onInts onDoubles a b

/-- The quotient; on integers it is rounded toward zero. -/
def div : Value → Value → Except Error Value := dividing Int.tdiv Double.div

/-- The remainder, with the sign of the dividend. -/
def mod : Value → Value → Except Error Value := dividing Int.tmod Double.mod

/-- Unary minus. -/
def neg : Value → Except Error Value
  | null => .ok null
  | integer i => exact (-i.toInt)
  | double d => .ok (double d.neg)
  | v => .error (v.mismatch "numeric")

/-- Unary plus, which asks for a number and keeps it. -/
def pos : Value → Except Error Value
  | null => .ok null
  | integer i => .ok (integer i)
  | double d => .ok (double d)
  | v => .error (v.mismatch "numeric")

/-- The text of a value, or the failure of one that has none. -/
def joined (v : Value) : Except Error String := v.require joined? "text"

/-- The two texts one behind the other; null if either is, once the other can be joined. -/
def concat : Value → Value → Except Error Value
  | null, null => .ok null
  | null, b => do
    let _ ← b.joined
    .ok null
  | a, null => do
    let _ ← a.joined
    .ok null
  | a, b => do
    let x ← a.joined
    let y ← b.joined
    .ok (text (x ++ y))

/-! ## Comparison -/

/-- The order of two values of comparable types; none if either is null or not a number. Texts are
ordered by code points, runs of bytes byte by byte, and an integer meets a double as a double. -/
def compare? (a b : Value) : Except Error (Option Ordering) :=
  match DataType.comparison? a.type b.type with
  | none => .error (b.mismatch a.type.name)
  | some _ =>
    match a, b with
    | integer x, integer y => .ok (some (compare x.toInt y.toInt))
    | bool x, bool y => .ok (some (compare x y))
    | text x, text y => .ok (some (compare x y))
    | blob x, blob y => .ok (some (List.compareLex compare x y))
    | _, _ =>
      match a.double?, b.double? with
      | some x, some y => .ok (x.compare? y)
      | _, _ => .ok none

/-- The same type and the same content: null is the same as null, and a double as itself and as the
zero of the other sign. -/
def same : Value → Value → Bool
  | double x, double y => x == y || x.compare? y == some .eq
  | a, b => a == b

/-! ## Promotion -/

/-- The value as one of type `target`, where a promotion leads there. -/
def coerce? (v : Value) (target : DataType) : Option Value :=
  if v.type = target then some v
  else
    match v, target with
    | null, _ => some null
    | integer i, .double => some (double (Double.ofInt i.toInt))
    | integer _, .text | double _, .text => v.joined?.map text
    | _, _ => none

end Value

end SelectEngine
