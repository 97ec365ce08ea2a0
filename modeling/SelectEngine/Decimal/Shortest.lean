/-!
# The fewest decimal digits that read back

A positive binary number `m * 2 ^ q` with its neighbours owns an interval of reals that round to
it. `shortest` finds the coarsest decimal grid, of one to seventeen digits, with a point in that
interval, and of the points there the nearest; of two equally near the larger.

All arithmetic is on natural numbers. If a point of a grid lies in the interval then so does one of
the two points next to the number itself, so only these two are tried.
-/

set_option autoImplicit false

namespace SelectEngine.Decimal

/-- The number of decimal digits of `n`. -/
def digitCount (n : Nat) : Nat := (Nat.toDigits 10 n).length

/-- The exponent of the first decimal digit of `n / d`, for positive `n` and `d`. -/
def leadingExponent (n d : Nat) : Int :=
  let guess := (digitCount n : Int) - digitCount d
  if d * Nat.pow 10 guess.toNat ≤ n * Nat.pow 10 (-guess).toNat then guess else guess - 1

/-- The reals that round to a binary number, in quarters of its unit. -/
structure Interval where
  low : Nat
  value : Nat
  high : Nat
  /-- The ends round to the number too. -/
  closed : Bool

/-- The interval of `m * 2 ^ q`: half a unit to each side, and a quarter below a power of two, where
the units get smaller. -/
def Interval.around (m : Nat) (q : Int) : Interval :=
  { low := 4 * m - if m = Nat.pow 2 52 ∧ -1074 < q then 1 else 2
    value := 4 * m
    high := 4 * m + 2
    closed := m % 2 == 0 }

/-- The point `digits * 10 ^ e` lies in the interval, whose unit is `up / down`. -/
def Interval.contains (i : Interval) (up down digits : Nat) (e : Int) : Bool :=
  let point := digits * down * Nat.pow 10 e.toNat
  let low := i.low * up * Nat.pow 10 (-e).toNat
  let high := i.high * up * Nat.pow 10 (-e).toNat
  if i.closed then decide (low ≤ point ∧ point ≤ high) else decide (low < point ∧ point < high)

/-- The point of the grid `10 ^ e` in the interval that is nearest to the number. -/
def Interval.onGrid? (i : Interval) (up down : Nat) (e : Int) : Option Nat :=
  let n := i.value * up * Nat.pow 10 (-e).toNat
  let d := down * Nat.pow 10 e.toNat
  let below := n / d
  let above := below + 1
  if i.contains up down below e then
    if i.contains up down above e then
      some (if n - below * d < above * d - n then below else above)
    else some below
  else if i.contains up down above e then some above
  else none

/-- Digits and exponent of the shortest decimal that rounds to `m * 2 ^ q`, for positive `m`. -/
def shortest (m : Nat) (q : Int) : Nat × Int :=
  let i := Interval.around m q
  let up := Nat.pow 2 (q - 2).toNat
  let down := Nat.pow 2 (2 - q).toNat
  let top := leadingExponent (i.value * up) down
  let grids := (List.range 17).map fun (k : Nat) => top - (k : Int)
  match grids.findSome? fun e => (i.onGrid? up down e).map fun digits => (digits, e) with
  | some point => point
  | none => (i.value * up, 0)

/-- The digits of `n` without the zeros at its end. -/
def significantDigits (n : Nat) : List Char :=
  ((Nat.toDigits 10 n).reverse.dropWhile (· == '0')).reverse

/-- The decimal `digits * 10 ^ e` with a point where one is needed, and no exponent. -/
def positional (digits : Nat) (e : Int) : List Char :=
  let all := Nat.toDigits 10 digits
  let kept := significantDigits digits
  let point := (all.length : Int) + e
  if point ≤ 0 then '0' :: '.' :: (List.replicate (-point).toNat '0' ++ kept)
  else if kept.length ≤ point.toNat then kept ++ List.replicate (point.toNat - kept.length) '0'
  else kept.take point.toNat ++ '.' :: kept.drop point.toNat

end SelectEngine.Decimal
