import GraphReplay.Decimal.Shortest

/-!
# Positional text of doubles

How a double is written: the fewest digits that read back, never with an exponent, and without a
point when nothing follows it.  The sign of a negative zero is kept.
-/

namespace GraphReplay.Decimal

def dropTrailingZeros (digits : List Char) : List Char :=
  (digits.reverse.dropWhile (· == '0')).reverse

/-- The digits of `d` around a decimal point, zeros filled in on either side. -/
def Scaled.positional (d : Scaled) : List Char :=
  let digits := Nat.toDigits 10 d.digits
  let point := (digits.length : Int) + d.exponent
  let whole :=
    if 0 < point then digits.take point.toNat ++ List.replicate d.exponent.toNat '0' else ['0']
  let fraction :=
    dropTrailingZeros (List.replicate (-point).toNat '0' ++ digits.drop point.toNat)
  if fraction.isEmpty then whole else whole ++ '.' :: fraction

def signText (negative : Bool) : String :=
  if negative then "-" else ""

def text (x : Float) : String :=
  match decode x with
  | .nan => "NaN"
  | .infinity negative => signText negative ++ "inf"
  | .finite negative magnitude =>
    let digits := if magnitude.significand = 0 then ['0'] else magnitude.shortest.positional
    signText negative ++ String.ofList digits

example : text 0.1 = "0.1" := by decide +kernel
example : text 1e21 = "1000000000000000000000" := by decide +kernel
example : text (2.98023223876953125e-8) = "0.000000029802322387695313" := by decide +kernel
example : text (-0.0) = "-0" := by decide +kernel

end GraphReplay.Decimal
