/-!
# Colors on a canvas

A canvas takes colors as text.  It cannot look up a style variable, so every variable is drawn in
the primary color, and a label is drawn in black or white, whichever reads better on the fill.
-/

namespace GraphReplay.Color

/-- The color that stands for every style variable. -/
def primary : String := "#ff0072"

def drawable (color : String) : String :=
  if ['v', 'a', 'r', '('].isPrefixOf color.toList then primary else color

def hexDigit? (c : Char) : Option Nat :=
  if '0' ≤ c ∧ c ≤ '9' then some (c.toNat - '0'.toNat)
  else if 'a' ≤ c ∧ c ≤ 'f' then some (c.toNat - 'a'.toNat + 10)
  else if 'A' ≤ c ∧ c ≤ 'F' then some (c.toNat - 'A'.toNat + 10)
  else none

/-- The value of a channel of two digits, of which the first may be a plus sign; zero for anything
else. -/
def channel (a b : Char) : Nat :=
  match hexDigit? a, hexDigit? b with
  | some m, some n => 16 * m + n
  | none, some n => if a = '+' then n else 0
  | _, none => 0

/-- How bright a color looks, from 0 to 1. -/
def luminance (red green blue : Nat) : Float :=
  (0.299 * Float.ofNat red + 0.587 * Float.ofNat green + 0.114 * Float.ofNat blue) / 255.0

/-- The color of a label on `fill`: white on a dark fill of three channels, black on any other. -/
def labelOn (fill : String) : String :=
  match fill.toList with
  | '#' :: cs =>
    match cs.dropWhile (· == '#') with
    | [a, b, c, d, e, f] =>
      if [a, b, c, d, e, f].all (·.toNat < 128) &&
          luminance (channel a b) (channel c d) (channel e f) < 0.5 then "#ffffff"
      else "#000000"
    | _ => "#000000"
  | _ => "#000000"

example : labelOn "#000080" = "#ffffff" := by decide +kernel
example : labelOn "#ffd700" = "#000000" := by decide +kernel

end GraphReplay.Color
