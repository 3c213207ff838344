import GraphReplay.Decimal.Magnitude

/-!
# Remainders of doubles

The remainder of a division of doubles truncated toward zero, computed exactly: it has the sign of
the dividend, a zero included, and is smaller than the divisor.
-/

namespace GraphReplay.Decimal

/-- What is left of `x` after taking away `y` as often as it fits; not a number when `x` is
infinite or `y` is zero. -/
def remainder (x y : Float) : Float :=
  match decode x, decode y with
  | .finite negative a, .finite _ b =>
    if b.significand = 0 then 0.0 / 0.0
    else
      let q := min a.exponent b.exponent
      encode negative (a.multipleOf q % b.multipleOf q) q
  | .finite .., .infinity _ => x
  | _, _ => 0.0 / 0.0

example : remainder (-14.5) 1.5 = -1.0 := by decide +kernel
example : remainder (-3.0) 1.5 = -0.0 := by decide +kernel
example : remainder 5e-324 1e300 = 5e-324 := by decide +kernel

end GraphReplay.Decimal
