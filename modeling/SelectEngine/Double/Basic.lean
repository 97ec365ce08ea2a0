/-!
# Double-precision numbers

A `Double` is the 64-bit pattern of a binary floating-point number. A finite one stands for
`significand * 2 ^ exponent` with its sign. Sums, differences, products and quotients are those of
the machine; order, conversion and remainder are exact arithmetic on the pattern:

* `Double.compare?` orders by `Double.key`, an integer that grows with the number and is zero for
  both zeros; nothing compares with a number that is none.
* `Double.ofRatio` is the nearest double to a fraction, a tie going to the even significand.
* `Double.mod` is the exact remainder with the sign of the dividend.
-/

set_option autoImplicit false

namespace SelectEngine

/-- A double-precision number, as its bits. -/
structure Double where
  bits : UInt64
deriving DecidableEq

namespace Double

/-- The bits without the sign, as a number. -/
def magnitude (d : Double) : Nat := d.bits.toNat % Nat.pow 2 63

/-- The sign bit is set. -/
def negative (d : Double) : Bool := decide (Nat.pow 2 63 ≤ d.bits.toNat)

/-- The double with the given sign and magnitude. -/
def ofMagnitude (negative : Bool) (magnitude : Nat) : Double :=
  ⟨UInt64.ofNat (if negative then magnitude + Nat.pow 2 63 else magnitude)⟩

/-- The magnitude of the infinities; that of a number that is none is larger. -/
def infinite : Nat := 0x7ff * Nat.pow 2 52

def isNaN (d : Double) : Bool := decide (infinite < d.magnitude)

def isInfinite (d : Double) : Bool := d.magnitude == infinite

def isFinite (d : Double) : Bool := decide (d.magnitude < infinite)

/-- The number that is none. -/
def nan : Double := ofMagnitude false (infinite + Nat.pow 2 51)

def infinity (negative : Bool) : Double := ofMagnitude negative infinite

def zero (negative : Bool) : Double := ofMagnitude negative 0

/-- The integer that a finite double is a power of two times. -/
def significand (d : Double) : Nat :=
  if d.magnitude < Nat.pow 2 52 then d.magnitude else d.magnitude % Nat.pow 2 52 + Nat.pow 2 52

/-- The exponent of that power of two. -/
def exponent (d : Double) : Int :=
  if d.magnitude < Nat.pow 2 52 then -1074 else ((d.magnitude / Nat.pow 2 52 : Nat) : Int) - 1075

/-- Either zero. -/
def isZero (d : Double) : Bool := d.magnitude == 0

/-- The double with the other sign. -/
def neg (d : Double) : Double := ofMagnitude (!d.negative) d.magnitude

/-- The double without its sign. -/
def abs (d : Double) : Double := ofMagnitude false d.magnitude

/-! ## Order -/

/-- The place of a double in the order of numbers. -/
def key (d : Double) : Int :=
  if d.negative then -(d.magnitude : Int) else d.magnitude

/-- The order of two doubles, if both are numbers. -/
def compare? (a b : Double) : Option Ordering :=
  if a.isNaN || b.isNaN then none else some (compare a.key b.key)

/-! ## Rounding -/

/-- The integer nearest to `n / d`, a tie going to the even one. -/
def roundDiv (n d : Nat) : Nat :=
  let q := n / d
  let r := 2 * (n % d)
  if d < r ∨ r = d ∧ q % 2 = 1 then q + 1 else q

/-- The exponent of two such that `n / d` has 53 binary digits in front of the point, or the least
exponent there is. -/
def unitExponent (n d : Nat) : Int :=
  let q := max ((n.log2 : Int) - d.log2 - 53) (-1074)
  if Nat.pow 2 53 ≤ (n * Nat.pow 2 (-q).toNat) / (d * Nat.pow 2 q.toNat) then q + 1 else q

/-- The double nearest to `n / d`, a tie going to the even significand; beyond the largest finite
double it is infinite. -/
def ofRatio (negative : Bool) (n d : Nat) : Double :=
  if n = 0 ∨ d = 0 then zero negative
  else
    let q := unitExponent n d
    let m := roundDiv (n * Nat.pow 2 (-q).toNat) (d * Nat.pow 2 q.toNat)
    ofMagnitude negative (min ((q + 1074).toNat * Nat.pow 2 52 + m) infinite)

/-- The double nearest to `m * 2 ^ q`. -/
def ofScaled (negative : Bool) (m : Nat) (q : Int) : Double :=
  ofRatio negative (m * Nat.pow 2 q.toNat) (Nat.pow 2 (-q).toNat)

/-- The double nearest to an integer. -/
def ofInt (i : Int) : Double := ofRatio (decide (i < 0)) i.natAbs 1

/-! ## Arithmetic -/

/-- The value of the machine with these bits. -/
def toFloat (d : Double) : Float := Float.ofBits d.bits

def ofFloat (f : Float) : Double := ⟨f.toBits⟩

def add (a b : Double) : Double := ofFloat (a.toFloat + b.toFloat)

def sub (a b : Double) : Double := ofFloat (a.toFloat - b.toFloat)

def mul (a b : Double) : Double := ofFloat (a.toFloat * b.toFloat)

def div (a b : Double) : Double := ofFloat (a.toFloat / b.toFloat)

/-- The remainder of a division that rounds toward zero, exact and with the sign of the dividend. -/
def mod (a b : Double) : Double :=
  if a.isNaN || b.isNaN || a.isInfinite || b.isZero then nan
  else if b.isInfinite then a
  else
    let q := min a.exponent b.exponent
    let x := a.significand * Nat.pow 2 (a.exponent - q).toNat
    let y := b.significand * Nat.pow 2 (b.exponent - q).toNat
    ofScaled a.negative (x % y) q

end Double

end SelectEngine
