/-!
# Decimal numerals

Natural numbers as text.  `natural?` reads a number of any size, and `numeral?` only one that fits
in 64 bits: `numeral?_eq_some_iff` says that this is all that tells them apart.  The bound is the
size of a machine word, and a machine with shorter words would read fewer numbers.
-/

namespace GraphReplay.Text

/-- The number that a run of decimal digits stands for, the most significant digit first. -/
def digitsValue (cs : List Char) : Nat :=
  cs.foldl (fun n c => 10 * n + (c.toNat - '0'.toNat)) 0

/-- The characters after a leading plus sign, if there is one. -/
def dropPlus : List Char → List Char
  | '+' :: cs => cs
  | cs => cs

/-- The number that a text stands for, if it is one digit or more, perhaps after a plus sign. -/
def natural? (s : String) : Option Nat :=
  let digits := dropPlus s.toList
  if !digits.isEmpty && digits.all Char.isDigit then some (digitsValue digits) else none

/-- The number that a text stands for, if it is below `2 ^ 64`. -/
def numeral? (s : String) : Option Nat :=
  (natural? s).filter (· < UInt64.size)

theorem numeral?_eq_some_iff {s : String} {n : Nat} :
    numeral? s = some n ↔ natural? s = some n ∧ n < UInt64.size := by
  simp [numeral?, Option.filter_eq_some_iff]

/-- The decimal digits of a number, the most significant first and no leading zeros. -/
def numeral (n : Nat) : String :=
  Nat.repr n

end GraphReplay.Text
