import Mathlib.Data.List.Basic
import GraphReplay.Graph.Edit

/-!
# Ids

Node ids are numerals, record ids are numbered, and a pair id is made of two node ids.  None of the
three forgets what it was made of: `edgeId_inj` gives back the number, and `pairId_eq_iff` the two
ends, up to their order.
-/

namespace GraphReplay

namespace Text

theorem natural?_numeral (n : Nat) : natural? (numeral n) = some n := by
  have hdigits : ∀ c ∈ Nat.toDigits 10 n, c.isDigit := fun c hc =>
    Nat.isDigit_of_mem_toDigits (by decide) (by decide) hc
  -- The first digit is no plus sign, so nothing is taken away before reading.
  have hplus : dropPlus (Nat.toDigits 10 n) = Nat.toDigits 10 n := by
    unfold dropPlus
    split
    · next cs hcs =>
      rw [hcs] at hdigits
      exact absurd (hdigits '+' List.mem_cons_self) (by decide)
    · rfl
  have hall : (!(Nat.toDigits 10 n).isEmpty && (Nat.toDigits 10 n).all Char.isDigit) = true := by
    rw [Bool.and_eq_true, List.all_eq_true]
    exact ⟨by simp, hdigits⟩
  simp only [natural?, numeral, Nat.toList_repr, hplus, hall, if_true, Option.some.injEq]
  exact Nat.ofDigitChars_ten_toDigits

theorem numeral_inj {m n : Nat} : numeral m = numeral n ↔ m = n := by
  constructor
  · intro h
    have hnumber : some m = some n := by
      rw [← natural?_numeral m, h, natural?_numeral]
    injection hnumber
  · intro h
    rw [h]

theorem not_mem_numeral_of_not_digit {c : Char} (hc : c.isDigit = false) (n : Nat) :
    c ∉ (numeral n).toList := by
  intro hmem
  rw [numeral, Nat.toList_repr] at hmem
  rw [Nat.isDigit_of_mem_toDigits (by decide) (by decide) hmem] at hc
  exact nomatch hc

end Text

/-! ## 1. Records -/

theorem edgeNumber?_edgeId (k : Nat) : edgeNumber? (edgeId k) = some k := by
  have hlist : (edgeId k).toList = 'e' :: 'd' :: 'g' :: 'e' :: '-' :: (Text.numeral k).toList := by
    rw [edgeId, String.toList_append]
    rfl
  unfold edgeNumber?
  rw [hlist]
  simp only [String.ofList_toList]
  exact Text.natural?_numeral k

theorem edgeId_inj {j k : Nat} : edgeId j = edgeId k ↔ j = k := by
  constructor
  · intro h
    have hnumber : some j = some k := by
      rw [← edgeNumber?_edgeId j, h, edgeNumber?_edgeId]
    injection hnumber
  · intro h
    rw [h]

theorem edgeId_even_inj {m n : Nat} : edgeId (2 * m) = edgeId (2 * n) ↔ m = n := by
  rw [edgeId_inj]
  omega

theorem edgeId_odd_inj {m n : Nat} : edgeId (2 * m + 1) = edgeId (2 * n + 1) ↔ m = n := by
  rw [edgeId_inj]
  omega

theorem edgeId_even_ne_odd (m n : Nat) : edgeId (2 * m) ≠ edgeId (2 * n + 1) := by
  rw [ne_eq, edgeId_inj]
  omega

/-! ## 2. Pairs -/

theorem pairId_comm (a b : String) : pairId a b = pairId b a := by
  unfold pairId
  split
  · next hab =>
    split
    · next hba => rw [String.le_antisymm hab hba]
    · rfl
  · next hab =>
    rw [if_pos ((String.le_total a b).resolve_left hab)]

theorem append_dash_inj {a b c d : String} (ha : '-' ∉ a.toList) (hb : '-' ∉ b.toList)
    (h : a ++ "-" ++ b = c ++ "-" ++ d) : a = c ∧ b = d := by
  have hlist : a.toList ++ '-' :: b.toList = c.toList ++ '-' :: d.toList := by
    have htoList := congrArg String.toList h
    simp only [String.toList_append, List.append_assoc] at htoList
    exact htoList
  have hparts := (List.append_cons_inj_of_notMem ha hb).mp hlist
  exact ⟨String.toList_inj.mp hparts.1, String.toList_inj.mp hparts.2.2⟩

/-- Node ids hold no dash, so a pair id tells which two nodes it joins. -/
theorem pairId_eq_iff {a b c d : String} (ha : '-' ∉ a.toList) (hb : '-' ∉ b.toList) :
    pairId a b = pairId c d ↔ (a = c ∧ b = d) ∨ (a = d ∧ b = c) := by
  constructor
  · intro h
    unfold pairId at h
    -- The two ends were put in order on each side, one way or the other.
    split at h <;> split at h
    · exact Or.inl (append_dash_inj ha hb h)
    · exact Or.inr (append_dash_inj ha hb h)
    · obtain ⟨hbc, had⟩ := append_dash_inj hb ha h
      exact Or.inr ⟨had, hbc⟩
    · obtain ⟨hbd, hac⟩ := append_dash_inj hb ha h
      exact Or.inl ⟨hac, hbd⟩
  · rintro (⟨rfl, rfl⟩ | ⟨rfl, rfl⟩)
    · rfl
    · exact pairId_comm a b

/-! ## 3. Fresh numbers -/

/-- The least number that is not in use is the only one with no unused number below it. -/
theorem leastUnused_eq_of {used : List Nat} {n : Nat} (hn : n ∉ used) (hbelow : ∀ m < n, m ∈ used) :
    leastUnused used = n := by
  rcases Nat.lt_trichotomy (leastUnused used) n with hlt | heq | hgt
  · exact absurd (hbelow _ hlt) (not_mem_leastUnused used)
  · exact heq
  · exact absurd (mem_of_lt_leastUnused hgt) hn

theorem length_freshNumbers (count : Nat) (used : List Nat) :
    (freshNumbers count used).length = count := by
  induction count generalizing used with
  | zero => rfl
  | succ count ih => rw [freshNumbers, List.length_cons, ih]

theorem not_mem_of_mem_freshNumbers {count n : Nat} {used : List Nat}
    (h : n ∈ freshNumbers count used) : n ∉ used := by
  induction count generalizing used with
  | zero => exact absurd h List.not_mem_nil
  | succ count ih =>
    rcases List.mem_cons.mp h with rfl | hrest
    · exact not_mem_leastUnused used
    · exact fun hmem => ih hrest (List.mem_cons_of_mem _ hmem)

/-- The numbers below a fresh one are in use, or fresh as well. -/
theorem mem_or_mem_of_lt_freshNumbers {count m n : Nat} {used : List Nat}
    (h : n ∈ freshNumbers count used) (hm : m < n) : m ∈ freshNumbers count used ∨ m ∈ used := by
  induction count generalizing used with
  | zero => exact absurd h List.not_mem_nil
  | succ count ih =>
    rw [freshNumbers, List.mem_cons]
    rcases List.mem_cons.mp h with rfl | hrest
    · exact Or.inr (mem_of_lt_leastUnused hm)
    · rcases ih hrest with hfresh | hused
      · exact Or.inl (Or.inr hfresh)
      · rcases List.mem_cons.mp hused with heq | hused
        · exact Or.inl (Or.inl heq)
        · exact Or.inr hused

theorem pairwise_freshNumbers (count : Nat) (used : List Nat) :
    (freshNumbers count used).Pairwise (· < ·) := by
  induction count generalizing used with
  | zero => exact List.Pairwise.nil
  | succ count ih =>
    apply List.pairwise_cons.mpr
    refine ⟨fun n hn => ?_, ih _⟩
    -- A later number is none of those in use, so it is not below the least that is not.
    have hnot := not_mem_of_mem_freshNumbers hn
    rw [List.mem_cons, not_or] at hnot
    have hle : ¬n < leastUnused used := fun hlt => hnot.2 (mem_of_lt_leastUnused hlt)
    omega

end GraphReplay
