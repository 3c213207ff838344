import GraphReplay.Text.Numeral

/-!
# Decimal literals

The numbers that a trace or the speed slider may give: an optional sign, then digits with at most
one point and an optional exponent, or one of the words `inf`, `infinity` and `nan` in any case.
`literal?` reads a whole text and `longestLiteral?` the longest beginning of a text that is a
literal.
-/

namespace GraphReplay.Decimal

open Text (digitsValue)

/-- A literal by its meaning: `digits * 10 ^ exponent` and the two special words. -/
inductive Literal where
  | number (negative : Bool) (digits : Nat) (exponent : Int)
  | infinity (negative : Bool)
  | nan
deriving DecidableEq

/-- Whether there was a minus sign, and the text after the sign, if there was one. -/
def splitSign : List Char → Bool × List Char
  | '-' :: cs => (true, cs)
  | '+' :: cs => (false, cs)
  | cs => (false, cs)

/-- An exponent is nothing, or the letter `e` in either case and a signed run of digits. -/
def exponent? : List Char → Option Int
  | [] => some 0
  | c :: cs =>
    let (negative, digits) := splitSign cs
    if (c == 'e' || c == 'E') && !digits.isEmpty && digits.all Char.isDigit then
      some (if negative then -(digitsValue digits : Int) else digitsValue digits)
    else none

/-- The digits after a decimal point and the text after them. -/
def splitFraction : List Char → List Char × List Char
  | '.' :: cs => cs.span Char.isDigit
  | cs => ([], cs)

/-- Digits with at most one point and at least one digit, and an exponent. -/
def unsigned? (negative : Bool) (cs : List Char) : Option Literal :=
  let (whole, afterWhole) := cs.span Char.isDigit
  let (fraction, afterFraction) := splitFraction afterWhole
  if (whole ++ fraction).isEmpty then none
  else
    (exponent? afterFraction).map fun e =>
      .number negative (digitsValue (whole ++ fraction)) (e - fraction.length)

/-- The words that stand for no finite number. -/
def word? (negative : Bool) (cs : List Char) : Option Literal :=
  let letters := cs.map Char.toLower
  if letters = ['i', 'n', 'f'] || letters = ['i', 'n', 'f', 'i', 'n', 'i', 't', 'y'] then
    some (.infinity negative)
  else if letters = ['n', 'a', 'n'] then some .nan
  else none

def literal? (cs : List Char) : Option Literal :=
  let (negative, rest) := splitSign cs
  unsigned? negative rest <|> word? negative rest

def longestLiteral? (cs : List Char) : Option Literal :=
  (List.range (cs.length + 1)).reverse.findSome? fun n => literal? (cs.take n)

/-- The double nearest to `digits * 10 ^ exponent`.  Four hundred decimal places above or below the
point are past the range of doubles, so such numbers are not computed. -/
def nearestDouble (digits : Nat) (exponent : Int) : Float :=
  let leading := ((Nat.toDigits 10 digits).length : Int) + exponent
  if digits = 0 || leading < -400 then 0.0
  else if 400 < leading then 1.0 / 0.0
  else Float.ofScientific digits (exponent < 0) exponent.natAbs

def Literal.value : Literal → Float
  | .number negative digits exponent =>
    if negative then -(nearestDouble digits exponent) else nearestDouble digits exponent
  | .infinity negative => if negative then -1.0 / 0.0 else 1.0 / 0.0
  | .nan => 0.0 / 0.0

/-- The double that the whole text denotes, if it is a literal. -/
def read? (s : String) : Option Float :=
  (literal? s.toList).map Literal.value

/-- The double that the longest literal at the beginning of a text denotes; zero when there is none
or it is not finite. -/
def readLeading (s : String) : Float :=
  match longestLiteral? s.toList with
  | some l => if l.value.isFinite then l.value else 0.0
  | none => 0.0

end GraphReplay.Decimal
