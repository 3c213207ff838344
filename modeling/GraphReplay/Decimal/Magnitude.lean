/-!
# The exact value of a double

A double is not a number, an infinity, or a signed natural multiple of a power of two.  `decode`
reads its bits and `encode` writes them; everything that this library prints or rounds exactly
goes through these two and is computed on natural numbers.
-/

namespace GraphReplay.Decimal

/-- The number `significand * 2 ^ exponent`, as a double holds it. -/
structure Magnitude where
  significand : Nat
  exponent : Int
  /-- The double below is only half as far away as the double above. -/
  narrowBelow : Bool
deriving DecidableEq

inductive Decoded where
  | nan
  | infinity (negative : Bool)
  | finite (negative : Bool) (magnitude : Magnitude)
deriving DecidableEq

/-- A double keeps its sign in bit 63, the exponent in 11 bits below and 52 bits of fraction. -/
def decode (x : Float) : Decoded :=
  let bits := x.toBits.toNat
  let negative := bits / Nat.pow 2 63 == 1
  let field : Nat := bits / Nat.pow 2 52 % Nat.pow 2 11
  let fraction := bits % Nat.pow 2 52
  if field = 2047 then
    if fraction = 0 then .infinity negative else .nan
  else if field = 0 then
    .finite negative ⟨fraction, -1074, false⟩
  else
    .finite negative ⟨Nat.pow 2 52 + fraction, (field : Int) - 1075, fraction == 0 && 1 < field⟩

/-- The double `± n * 2 ^ q`, for `n` below `2 ^ 53` and `q` from -1074 to 971. -/
def encode (negative : Bool) (n : Nat) (q : Int) : Float :=
  let shift := min (52 - n.log2) (q + 1074).toNat
  let significand := n * Nat.pow 2 shift
  let bits :=
    if significand < Nat.pow 2 52 then significand
    else (q - shift + 1075).toNat * Nat.pow 2 52 + (significand - Nat.pow 2 52)
  Float.ofBits (UInt64.ofNat ((if negative then Nat.pow 2 63 else 0) + bits))

namespace Magnitude

/-- The numerator over `denominator`. -/
def numerator (x : Magnitude) : Nat :=
  x.significand * Nat.pow 2 x.exponent.toNat

/-- A power of two; `numerator` over it is the value. -/
def denominator (x : Magnitude) : Nat :=
  Nat.pow 2 (-x.exponent).toNat

theorem denominator_pos (x : Magnitude) : 0 < x.denominator :=
  Nat.pow_pos (by decide)

/-- How often `2 ^ q` goes into a value whose exponent is `q` or more. -/
def multipleOf (x : Magnitude) (q : Int) : Nat :=
  x.significand * Nat.pow 2 (x.exponent - q).toNat

end Magnitude

end GraphReplay.Decimal
