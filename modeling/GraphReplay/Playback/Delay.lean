import GraphReplay.Decimal.Magnitude

/-!
# Delays

How long a player waits between two steps: a whole number of nanoseconds, below `2 ^ 64` seconds.
A number of seconds is rounded to the nearest nanosecond, a tie to the even one.
-/

namespace GraphReplay

def Delay.nanosPerSec : Nat :=
  1000000000

/-- Whole seconds, and nanoseconds that do not make up another one. -/
structure Delay where
  secs : Nat
  nanos : Nat := 0
  nanos_lt : nanos < Delay.nanosPerSec := by decide
deriving DecidableEq

/-- The natural number nearest to `n / d`, the even one of two that are equally near. -/
def roundHalfEven (n d : Nat) : Nat :=
  let q := n / d
  match compare (2 * (n % d)) d with
  | .lt => q
  | .gt => q + 1
  | .eq => if q % 2 = 0 then q else q + 1

namespace Delay

/-- The delay of this many nanoseconds. -/
def ofNanos (n : Nat) : Delay :=
  ⟨n / nanosPerSec, n % nanosPerSec, Nat.mod_lt n (by decide)⟩

/-- The delay of `x` seconds, unless `x` is negative, not a number, or too large. -/
def ofSeconds? (x : Float) : Option Delay :=
  match Decimal.decode x with
  | .finite negative m =>
    if negative && m.significand != 0 then none
    else if m.numerator < UInt64.size * m.denominator then
      some (ofNanos (roundHalfEven (m.numerator * nanosPerSec) m.denominator))
    else none
  | _ => none

/-- The wait between two steps at `speed` steps per second. -/
def atSpeed? (speed : Float) : Option Delay :=
  ofSeconds? (1.0 / speed)

example : atSpeed? 4.0 = some { secs := 0, nanos := 250000000 } := by decide +kernel
example : atSpeed? 0.0 = none := by decide +kernel

end Delay

end GraphReplay
