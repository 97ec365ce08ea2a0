import SelectEngine.Decimal.Shortest
import SelectEngine.Double.Basic

/-!
# The text of a double

A whole number below `10 ^ 15` is written with one decimal place (`120.0`, `-0.0`); any other
finite double with the fewest digits that read back, never with an exponent; the rest as `NaN`,
`inf` and `-inf`.

A decimal is read from an optional sign, digits with at most one point among them and at least one
digit, and optionally an exponent. It is read as the nearest double. `inf`, `infinity` and `nan` in
any letter case are doubles too. `readInt?` reads a sign and digits as an exact integer.
-/

set_option autoImplicit false

/-! ## Writing -/

namespace SelectEngine.Double

/-- The value of a finite double without its sign, if it is a whole number. -/
def whole? (d : Double) : Option Nat :=
  let unit := Nat.pow 2 (-d.exponent).toNat
  if d.significand % unit = 0 then some (d.significand / unit * Nat.pow 2 d.exponent.toNat) else none

/-- The shortest positional decimal of a finite double without its sign. -/
def shortestDigits (d : Double) : List Char :=
  if d.isZero then ['0']
  else
    let (digits, e) := Decimal.shortest d.significand d.exponent
    Decimal.positional digits e

/-- The text of a finite double without its sign. -/
def digits (d : Double) : List Char :=
  match d.whole? with
  | some n => if n < Nat.pow 10 15 then Nat.toDigits 10 n ++ ['.', '0'] else d.shortestDigits
  | none => d.shortestDigits

/-- The text of a double. -/
def text (d : Double) : String :=
  if d.isNaN then "NaN"
  else
    let body := if d.isInfinite then ['i', 'n', 'f'] else d.digits
    String.ofList (if d.negative then '-' :: body else body)

end SelectEngine.Double

/-! ## Reading -/

namespace SelectEngine.Decimal

/-- The value of a run of digits. -/
def valueOf (digits : List Char) : Nat :=
  digits.foldl (fun n c => 10 * n + (c.toNat - '0'.toNat)) 0

/-- An optional sign, and what follows it. -/
def readSign : List Char → Bool × List Char
  | '-' :: rest => (true, rest)
  | '+' :: rest => (false, rest)
  | rest => (false, rest)

/-- An exact integer: an optional sign and at least one digit. -/
def readInt? (text : List Char) : Option Int :=
  let (negative, digits) := readSign text
  if digits = [] ∨ digits.any (fun c => !c.isDigit) then none
  else some (if negative then -(valueOf digits : Int) else valueOf digits)

/-- An optional exponent that ends the text. -/
def readExponent? : List Char → Option Int
  | [] => some 0
  | c :: rest => if c = 'e' ∨ c = 'E' then readInt? rest else none

/-- The double nearest to `n * 10 ^ e`. Beyond the range of doubles the power is not computed. -/
def toDouble (negative : Bool) (n : Nat) (e : Int) : Double :=
  let top := (digitCount n : Int) + e
  if n = 0 ∨ top < -330 then Double.zero negative
  else if 310 < top then Double.infinity negative
  else Double.ofRatio negative (n * Nat.pow 10 e.toNat) (Nat.pow 10 (-e).toNat)

/-- A decimal without its sign. -/
def readUnsigned? (negative : Bool) (text : List Char) : Option Double :=
  let whole := text.takeWhile Char.isDigit
  let (fraction, rest) :=
    match text.dropWhile Char.isDigit with
    | '.' :: rest => (rest.takeWhile Char.isDigit, rest.dropWhile Char.isDigit)
    | rest => ([], rest)
  if whole = [] ∧ fraction = [] then none
  else
    (readExponent? rest).map fun e =>
      toDouble negative (valueOf (whole ++ fraction)) (e - fraction.length)

/-- A double: a decimal, or the name of one that is not finite. -/
def readDouble? (text : List Char) : Option Double :=
  let (negative, body) := readSign text
  let name := String.ofList (body.map Char.toLower)
  if name = "inf" ∨ name = "infinity" then some (Double.infinity negative)
  else if name = "nan" then some Double.nan
  else readUnsigned? negative body

end SelectEngine.Decimal
