/-!
# Blank space

The blank characters and the three ways in which they cut a text: its trimmed form, its tokens and
its lines.  Each is defined on lists of characters and wrapped for strings.  Tokens and lines are
both cut by `splitAtEach`: `splitAtEach_append_cons` says that a separator divides the pieces, and
`not_sep_of_mem_splitAtEach` that none is left in them.
-/

namespace GraphReplay.Text

/-- The 25 characters of the Unicode property White_Space. -/
def isBlank (c : Char) : Bool :=
  let n := c.toNat
  (0x09 ≤ n && n ≤ 0x0D) || n == 0x20 || n == 0x85 || n == 0xA0 || n == 0x1680 ||
    (0x2000 ≤ n && n ≤ 0x200A) || n == 0x2028 || n == 0x2029 || n == 0x202F || n == 0x205F ||
    n == 0x3000

/-- The text up to the first separator, and the pieces after it. -/
def cutAtEach (sep : Char → Bool) : List Char → List Char × List (List Char)
  | [] => ([], [])
  | c :: cs =>
    let (first, others) := cutAtEach sep cs
    if sep c then ([], first :: others) else (c :: first, others)

/-- The pieces between separators: one more than there are separators, some perhaps empty. -/
def splitAtEach (sep : Char → Bool) (cs : List Char) : List (List Char) :=
  (cutAtEach sep cs).1 :: (cutAtEach sep cs).2

theorem splitAtEach_nil (sep : Char → Bool) : splitAtEach sep [] = [[]] := rfl

theorem splitAtEach_cons_of_sep {sep : Char → Bool} {c : Char} (h : sep c = true) (cs : List Char) :
    splitAtEach sep (c :: cs) = [] :: splitAtEach sep cs := by
  simp [splitAtEach, cutAtEach, h]

theorem splitAtEach_ne_nil (sep : Char → Bool) (cs : List Char) : splitAtEach sep cs ≠ [] := by
  simp [splitAtEach]

/-- A text without separators is its own only piece. -/
theorem splitAtEach_of_forall_not {sep : Char → Bool} {cs : List Char}
    (h : ∀ c ∈ cs, sep c = false) : splitAtEach sep cs = [cs] := by
  induction cs with
  | nil => rfl
  | cons c cs ih =>
    have hs := ih fun d hd => h d (List.mem_cons_of_mem c hd)
    simp only [splitAtEach, List.cons.injEq] at hs
    simp [splitAtEach, cutAtEach, h c List.mem_cons_self, hs.1, hs.2]

/-- A separator ends one run of pieces and starts the next. -/
theorem splitAtEach_append_cons {sep : Char → Bool} {c : Char} (h : sep c = true)
    (as bs : List Char) :
    splitAtEach sep (as ++ c :: bs) = splitAtEach sep as ++ splitAtEach sep bs := by
  induction as with
  | nil => simp [splitAtEach_cons_of_sep h, splitAtEach_nil]
  | cons a as ih =>
    simp only [splitAtEach, List.cons_append, List.cons.injEq] at ih
    by_cases ha : sep a = true <;> simp [splitAtEach, cutAtEach, ha, ih.1, ih.2]

/-- No piece holds a separator. -/
theorem not_sep_of_mem_splitAtEach {sep : Char → Bool} {cs p : List Char}
    (hp : p ∈ splitAtEach sep cs) : ∀ c ∈ p, sep c = false := by
  induction cs generalizing p with
  | nil => simp_all [splitAtEach, cutAtEach]
  | cons a as ih =>
    by_cases ha : sep a = true
    · rw [splitAtEach_cons_of_sep ha] at hp
      rcases List.mem_cons.1 hp with rfl | hp
      · simp
      · exact ih hp
    · simp only [splitAtEach, cutAtEach, ha, if_neg, Bool.false_eq_true, not_false_eq_true,
        List.mem_cons] at hp ih
      rcases hp with rfl | hp
      · intro c hc
        rcases List.mem_cons.1 hc with rfl | hc
        · simpa using ha
        · exact ih (Or.inl rfl) c hc
      · exact ih (Or.inr hp)

/-- The characters from the first one on that is not blank. -/
def dropBlanks (cs : List Char) : List Char :=
  cs.dropWhile isBlank

/-- The characters without the blanks at either end. -/
def trimBlanks (cs : List Char) : List Char :=
  (dropBlanks (dropBlanks cs).reverse).reverse

def trim (s : String) : String :=
  String.ofList (trimBlanks s.toList)

/-- The maximal runs of characters that are not blank. -/
def blankSeparated (cs : List Char) : List (List Char) :=
  (splitAtEach isBlank cs).filter (!·.isEmpty)

def tokens (s : String) : List String :=
  (blankSeparated s.toList).map String.ofList

/-- The texts between line feeds: one more than there are line feeds. -/
def lines (s : String) : List String :=
  (splitAtEach (· == '\n') s.toList).map String.ofList

theorem lines_ne_nil (s : String) : lines s ≠ [] := by
  simp [lines, splitAtEach_ne_nil]

end GraphReplay.Text
