import Mathlib.Data.List.TakeWhile
import GraphReplay.Text.Blank
import GraphReplay.Text.Numeral

/-!
# Lines and what is read from them

A line may end in a carriage return.  That is a blank, so neither the trimmed form of a line nor its
tokens depend on it.  `IsNumeral` says which tokens stand for numbers.
-/

namespace GraphReplay.Text

/-! ## 1. Blanks at the end -/

theorem dropBlanks_eq_nil_iff {cs : List Char} :
    dropBlanks cs = [] ↔ ∀ c ∈ cs, isBlank c = true := by
  unfold dropBlanks
  rw [List.dropWhile_eq_nil_iff]

theorem trimBlanks_eq_nil_iff {cs : List Char} :
    trimBlanks cs = [] ↔ ∀ c ∈ cs, isBlank c = true := by
  unfold trimBlanks
  rw [List.reverse_eq_nil_iff, dropBlanks_eq_nil_iff]
  constructor
  · intro h
    -- What is left of `cs` without the leading blanks cannot begin with a blank.
    cases hdrop : dropBlanks cs with
    | nil => exact dropBlanks_eq_nil_iff.mp hdrop
    | cons c rest =>
      have hblank : isBlank c = true := by
        apply h
        rw [hdrop, List.mem_reverse]
        exact List.mem_cons_self
      have hfirst : isBlank c = false := by
        have hhead := List.head?_dropWhile_not isBlank cs
        change List.dropWhile isBlank cs = c :: rest at hdrop
        rw [hdrop] at hhead
        exact hhead
      rw [hblank] at hfirst
      exact nomatch hfirst
  · intro h c hc
    rw [List.mem_reverse] at hc
    exact h c (List.dropWhile_subset isBlank hc)

theorem trimBlanks_append_blank {c : Char} (hc : isBlank c = true) (cs : List Char) :
    trimBlanks (cs ++ [c]) = trimBlanks cs := by
  unfold trimBlanks
  by_cases hblank : dropBlanks cs = []
  · have hall : dropBlanks (cs ++ [c]) = [] := by
      rw [dropBlanks_eq_nil_iff] at hblank ⊢
      intro d hd
      rcases List.mem_append.mp hd with hd | hd
      · exact hblank d hd
      · rw [List.mem_singleton.mp hd]
        exact hc
    rw [hall, hblank]
  · have hkept : dropBlanks (cs ++ [c]) = dropBlanks cs ++ [c] := by
      have hempty : (List.dropWhile isBlank cs).isEmpty = false :=
        List.isEmpty_eq_false_iff.mpr hblank
      unfold dropBlanks
      rw [List.dropWhile_append, hempty, if_neg Bool.false_ne_true]
    rw [hkept, List.reverse_append, List.reverse_singleton, List.singleton_append]
    congr 1
    unfold dropBlanks
    rw [List.dropWhile_cons_of_pos hc]

theorem blankSeparated_append_blank {c : Char} (hc : isBlank c = true) (cs : List Char) :
    blankSeparated (cs ++ [c]) = blankSeparated cs := by
  unfold blankSeparated
  rw [splitAtEach_append_cons hc, splitAtEach_nil, List.filter_append]
  exact List.append_nil _

/-! ## 2. Carriage returns -/

/-- A line without the carriage return that may end it. -/
def dropReturn (line : String) : String :=
  if line.toList.getLast? = some '\r' then String.ofList line.toList.dropLast else line

theorem toList_of_getLast?_eq_return {line : String} (h : line.toList.getLast? = some '\r') :
    line.toList = (dropReturn line).toList ++ ['\r'] := by
  obtain ⟨before, hbefore⟩ := List.getLast?_eq_some_iff.mp h
  unfold dropReturn
  rw [if_pos h, String.toList_ofList, hbefore, List.dropLast_concat]

theorem trim_dropReturn (line : String) : trim (dropReturn line) = trim line := by
  by_cases h : line.toList.getLast? = some '\r'
  · unfold trim
    rw [toList_of_getLast?_eq_return h, trimBlanks_append_blank (by decide)]
  · unfold dropReturn
    rw [if_neg h]

theorem tokens_dropReturn (line : String) : tokens (dropReturn line) = tokens line := by
  by_cases h : line.toList.getLast? = some '\r'
  · unfold tokens
    rw [toList_of_getLast?_eq_return h, blankSeparated_append_blank (by decide)]
  · unfold dropReturn
    rw [if_neg h]

theorem isEmpty_trim_iff {s : String} :
    (trim s).isEmpty = true ↔ ∀ c ∈ s.toList, isBlank c = true := by
  rw [← trimBlanks_eq_nil_iff, String.isEmpty_iff, trim, ← String.toList_inj, String.toList_ofList]
  rfl

/-! ## 3. Numerals -/

theorem natural?_eq_some_iff {s : String} {n : Nat} :
    natural? s = some n ↔ dropPlus s.toList ≠ [] ∧
      (∀ c ∈ dropPlus s.toList, c.isDigit = true) ∧ digitsValue (dropPlus s.toList) = n := by
  unfold natural?
  simp only [Bool.and_eq_true, Bool.not_eq_true', List.isEmpty_eq_false_iff, List.all_eq_true,
    Option.ite_none_right_eq_some, Option.some_inj, and_assoc]

/-- One digit or more, perhaps after a plus sign, for a number of 64 bits. -/
def IsNumeral (s : String) (n : Nat) : Prop :=
  ∃ digits : List Char, (s.toList = digits ∨ s.toList = '+' :: digits) ∧ digits ≠ [] ∧
    (∀ c ∈ digits, c.isDigit = true) ∧ digitsValue digits = n ∧ n < UInt64.size

theorem numeral?_eq_some_iff_isNumeral {s : String} {n : Nat} :
    numeral? s = some n ↔ IsNumeral s n := by
  rw [numeral?_eq_some_iff, natural?_eq_some_iff]
  constructor
  · rintro ⟨⟨hne, hdigits, hvalue⟩, hlt⟩
    refine ⟨dropPlus s.toList, ?_, hne, hdigits, hvalue, hlt⟩
    unfold dropPlus
    split
    · next cs hcs => exact Or.inr hcs
    · exact Or.inl rfl
  · rintro ⟨digits, hlist, hne, hdigits, hvalue, hlt⟩
    have hdrop : dropPlus s.toList = digits := by
      rcases hlist with hlist | hlist
      · -- A digit is no plus sign, so nothing is dropped.
        rw [hlist]
        unfold dropPlus
        split
        · exact absurd (hdigits '+' List.mem_cons_self) (by decide)
        · rfl
      · rw [hlist]
        rfl
    rw [hdrop]
    exact ⟨⟨hne, hdigits, hvalue⟩, hlt⟩

end GraphReplay.Text
