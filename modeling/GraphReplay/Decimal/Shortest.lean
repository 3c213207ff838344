import GraphReplay.Decimal.Magnitude

/-!
# Shortest decimals

The fewest digits that read back to a given double.  A decimal reads back when it lies in the
interval of reals that round to the double: from halfway to the double below to halfway to the
double above, the two ends included exactly when the significand is even.  On the decimal grids of
1, 2, … 17 digits the two neighbours of the value are tried; the first grid with a hit wins, of two
hits the nearer, and the upper one if both are equally near.
-/

namespace GraphReplay.Decimal

/-- The number `digits * 10 ^ exponent`. -/
structure Scaled where
  digits : Nat
  exponent : Int
deriving DecidableEq

namespace Magnitude

/-- Four times the lower end of the interval that rounds to `x`, in units of `2 ^ x.exponent`. -/
def lowerEnd (x : Magnitude) : Nat :=
  if x.narrowBelow then 4 * x.significand - 1 else 4 * x.significand - 2

/-- Four times the upper end of the interval that rounds to `x`, in units of `2 ^ x.exponent`. -/
def upperEnd (x : Magnitude) : Nat :=
  4 * x.significand + 2

/-- `n / 4` units of `2 ^ x.exponent` against a decimal, on a common denominator. -/
def compareQuarters (x : Magnitude) (n : Nat) (d : Scaled) : Ordering :=
  compare (n * Nat.pow 2 x.exponent.toNat * Nat.pow 10 (-d.exponent).toNat)
    (d.digits * Nat.pow 10 d.exponent.toNat * (4 * x.denominator))

/-- The decimal lies among the reals that round to `x`. -/
def readsBack (x : Magnitude) (d : Scaled) : Bool :=
  let low := x.compareQuarters x.lowerEnd d
  let high := x.compareQuarters x.upperEnd d
  if x.significand % 2 = 0 then low != .gt && high != .lt else low == .lt && high == .gt

/-- The greatest multiple of `10 ^ e` that is not above `x`. -/
def floorAt (x : Magnitude) (e : Int) : Scaled :=
  ⟨x.numerator * Nat.pow 10 (-e).toNat / (x.denominator * Nat.pow 10 e.toNat), e⟩

/-- The least `k` with `x < 10 ^ k`: the number of digits that `x * 10 ^ 340` has before the point,
less 340.  Every double that is not zero has at least one. -/
def decimalScale (x : Magnitude) : Int :=
  (Nat.toDigits 10 (x.floorAt (-340)).digits).length - 340

/-- The neighbour of `x` on the grid of `10 ^ e` that reads back and is nearer to `x`, if any. -/
def nearestAt (x : Magnitude) (e : Int) : Option Scaled :=
  let below := x.floorAt e
  let above := { below with digits := below.digits + 1 }
  match x.readsBack below, x.readsBack above with
  | true, true =>
    -- Halfway between the two is a five on the next decimal place.
    let middle : Scaled := ⟨10 * below.digits + 5, e - 1⟩
    if x.compareQuarters (4 * x.significand) middle == .lt then some below else some above
  | true, false => some below
  | false, true => some above
  | false, false => none

/-- The shortest decimal that reads back, or the exact value if 17 digits were not enough. -/
def shortest (x : Magnitude) : Scaled :=
  let k := x.decimalScale
  let grids := (List.range 17).map fun n : Nat => k - (n + 1 : Nat)
  match grids.findSome? x.nearestAt with
  | some d => d
  | none => x.floorAt (min x.exponent 0)

end Magnitude

end GraphReplay.Decimal
