/-!
# Shortest decimals

The shortest decimal inside an interval of rationals: among the multiples of the
largest power of ten that has one in the interval, the one nearest to a given
point of it.  Two equally near multiples are settled upwards.

A decimal is written positionally, however long that makes it, with as many
places as its power of ten asks for.
-/

namespace ClassMachine

structure Decimal where
  digits : Nat
  exponent : Int
  deriving DecidableEq, Repr

namespace Decimal

def text (d : Decimal) : String :=
  let places := (-d.exponent).toNat
  let unit := Nat.pow 10 places
  let whole := d.digits * Nat.pow 10 d.exponent.toNat
  if places = 0 then
    toString whole
  else
    let fraction := Nat.toDigits 10 (whole % unit)
    toString (whole / unit) ++ "." ++
      String.ofList (List.replicate (places - fraction.length) '0' ++ fraction)

end Decimal

/-- The rationals from `low / scale` to `high / scale` around `point / scale`. -/
structure Interval where
  low : Nat
  point : Nat
  high : Nat
  scale : Nat
  closed : Bool
  deriving DecidableEq, Repr

namespace Interval

/-- The order of an end point and a point inside: an end point is itself inside a
closed interval only. -/
def ordered (closed : Bool) (small large : Nat) : Bool :=
  if closed then small ≤ large else small < large

/-- The multiple of `10 ^ exponent` in the interval that is nearest to the point. -/
def nearestMultiple (i : Interval) (exponent : Int) : Option Nat :=
  let factor := Nat.pow 10 (-exponent).toNat
  let unit := i.scale * Nat.pow 10 exponent.toNat
  let below := i.point * factor / unit
  let above := below + 1
  let belowInside := ordered i.closed (i.low * factor) (below * unit)
  let aboveInside := ordered i.closed (above * unit) (i.high * factor)
  let nearerBelow := i.point * factor - below * unit < above * unit - i.point * factor
  if belowInside && (nearerBelow || !aboveInside) then some below
  else if aboveInside then some above
  else none

/-- Tries the powers of ten from one above the interval down to one that has the
point itself as a multiple, when `scale` divides a power `10 ^ places`. -/
def shortest (i : Interval) (places : Nat) : Decimal :=
  let top := (Nat.toDigits 10 (i.high / i.scale)).length
  let candidate := (List.range (top + places + 1)).findSome? fun (step : Nat) =>
    let exponent := (top : Int) - step
    (i.nearestMultiple exponent).map fun digits => Decimal.mk digits exponent
  candidate.getD ⟨i.point, 0⟩

end Interval

end ClassMachine
