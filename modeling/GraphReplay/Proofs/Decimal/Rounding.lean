import Mathlib.Algebra.Order.Field.Basic
import Mathlib.Algebra.Order.Field.Power
import Mathlib.Data.Rat.Cast.Order
import Mathlib.Tactic.FieldSimp
import Mathlib.Tactic.Linarith
import Mathlib.Tactic.Ring
import GraphReplay.Decimal.Magnitude

/-!
# Rounding to doubles

A quotient or product of doubles is rounded to the nearest double, the even one of two that are
equally near.  `Represents` says what the mantissa of an intermediate result and its two extra bits
tell of the exact value; shifts keep it.  `RoundsTo` is the interval of values that belong to a
double, and `roundWithAccuracy_eq` says that these are rounded to it.
-/

namespace GraphReplay.Decimal

open Float.Model Float.Model.UnpackedFloat

/-! ## 1. Mantissas with two extra bits -/

/-- The mantissa is the whole part of `v`.  The first extra bit tells whether the rest is a half or
more, the second one whether it is neither nothing nor a half. -/
structure Represents (em : ExtendedMantissa) (v : ℚ) : Prop where
  le : (em.mantissa : ℚ) ≤ v
  lt : v < em.mantissa + 1
  round : em.roundBit = true ↔ (em.mantissa : ℚ) + 1 / 2 ≤ v
  sticky : em.stickyBit = true ↔ v ≠ em.mantissa ∧ v ≠ em.mantissa + 1 / 2

/-- `n` is nearest to `v`, and it is even if another number is as near. -/
structure NearestEven (v : ℚ) (n : Nat) : Prop where
  low : (n : ℚ) - 1 / 2 ≤ v
  high : v ≤ n + 1 / 2
  tie : v = n - 1 / 2 ∨ v = n + 1 / 2 → n % 2 = 0

variable {em : ExtendedMantissa} {v : ℚ}

theorem mantissa_ofMantissaAndAccuracy (m : Nat) (accuracy : Accuracy) :
    (ExtendedMantissa.ofMantissaAndAccuracy m accuracy).mantissa = m := by
  unfold ExtendedMantissa.ofMantissaAndAccuracy
  split <;> rfl

theorem represents_exact (m : Nat) :
    Represents (ExtendedMantissa.ofMantissaAndAccuracy m .exact) m where
  le := le_refl _
  lt := lt_add_one _
  round := by
    show false = true ↔ _
    refine iff_of_false Bool.false_ne_true ?_
    show ¬(m : ℚ) + 1 / 2 ≤ m
    linarith
  sticky := iff_of_false Bool.false_ne_true fun h => h.1 rfl

namespace Represents

theorem extra_bits (h : Represents em v) : (em.roundBit || em.stickyBit) = true ↔ v ≠ em.mantissa := by
  rw [Bool.or_eq_true, h.round, h.sticky]
  constructor
  · rintro (hround | ⟨hne, _⟩)
    · intro heq
      linarith
    · exact hne
  · intro hne
    by_cases hhalf : v = em.mantissa + 1 / 2
    · exact Or.inl hhalf.ge
    · exact Or.inr ⟨hne, hhalf⟩

theorem shiftRightOne (h : Represents em v) : Represents em.shiftRightOne (v / 2) := by
  have hle := h.le
  have hlt := h.lt
  have hbits := h.extra_bits
  have hlast : em.mantissa % 2 = 0 ∨ em.mantissa % 2 = 1 := by omega
  have hcast : (em.mantissa : ℚ) = 2 * (em.mantissa / 2 : Nat) + (em.mantissa % 2 : Nat) := by
    exact_mod_cast (Nat.div_add_mod em.mantissa 2).symm
  -- The bit that is shifted out is the first extra bit now, and the other two are one.
  constructor
  case le =>
    show ((em.mantissa / 2 : Nat) : ℚ) ≤ v / 2
    have hnonneg : (0 : ℚ) ≤ (em.mantissa % 2 : Nat) := Nat.cast_nonneg _
    linarith
  case lt =>
    show v / 2 < ((em.mantissa / 2 : Nat) : ℚ) + 1
    have hone : ((em.mantissa % 2 : Nat) : ℚ) ≤ 1 := by exact_mod_cast (by omega)
    linarith
  case round =>
    show (em.mantissa % 2 != 0) = true ↔ ((em.mantissa / 2 : Nat) : ℚ) + 1 / 2 ≤ v / 2
    rcases hlast with hbit | hbit <;> rw [hbit] at hcast ⊢
    · refine iff_of_false (by decide) ?_
      rw [not_le]
      push_cast at hcast
      linarith
    · refine iff_of_true (by decide) ?_
      push_cast at hcast
      linarith
  case sticky =>
    show (em.roundBit || em.stickyBit) = true ↔
      v / 2 ≠ ((em.mantissa / 2 : Nat) : ℚ) ∧ v / 2 ≠ ((em.mantissa / 2 : Nat) : ℚ) + 1 / 2
    rw [hbits]
    rcases hlast with hbit | hbit <;> rw [hbit] at hcast <;> push_cast at hcast
    · constructor
      · intro hne
        exact ⟨fun heq => hne (by linarith), fun heq => by linarith⟩
      · rintro ⟨hne, _⟩ heq
        exact hne (by linarith)
    · constructor
      · intro hne
        exact ⟨fun heq => by linarith, fun heq => hne (by linarith)⟩
      · rintro ⟨_, hne⟩ heq
        exact hne (by linarith)

theorem shiftRight (h : Represents em v) (count : Nat) :
    Represents (em >>> count) (v / 2 ^ count) := by
  induction count with
  | zero =>
    rw [pow_zero, div_one]
    exact h
  | succ count ih =>
    rw [pow_succ, ← div_div]
    exact ih.shiftRightOne

theorem roundedMantissa_eq (h : Represents em v) {n : Nat} (hn : NearestEven v n) :
    em.roundedMantissa = n := by
  have hle := h.le
  have hlt := h.lt
  obtain ⟨hlow, hhigh, htie⟩ := hn
  have hbelow : n ≤ em.mantissa + 1 := by
    have hcast : (n : ℚ) < em.mantissa + 2 := by linarith
    have hnat : n < em.mantissa + 2 := by exact_mod_cast hcast
    omega
  have habove : em.mantissa ≤ n := by
    have hcast : (em.mantissa : ℚ) < n + 1 := by linarith
    have hnat : em.mantissa < n + 1 := by exact_mod_cast hcast
    omega
  have hround := h.round
  have hsticky := h.sticky
  obtain ⟨m, roundBit, stickyBit⟩ := em
  dsimp only at *
  -- Half way between two numbers the extra bits leave it to the last bit of the mantissa.
  have hhalf : roundBit = true → stickyBit = false → v = m + 1 / 2 := by
    intro hone hzero
    rw [hzero] at hsticky
    by_contra hne
    have hmore := hround.mp hone
    exact Bool.false_ne_true (hsticky.mpr ⟨by linarith, hne⟩)
  obtain rfl | rfl : n = m ∨ n = m + 1 := by omega
  · cases roundBit with
    | false => cases stickyBit <;> rfl
    | true =>
      cases stickyBit with
      | false =>
        have heven := htie (Or.inr (hhalf rfl rfl))
        show n + n % 2 = n
        omega
      | true =>
        have hmore := hround.mp rfl
        have hne := (hsticky.mp rfl).2
        exact absurd (le_antisymm hhigh hmore) hne
  · push_cast at hlow htie
    cases roundBit with
    | false =>
      have hless : ¬(m : ℚ) + 1 / 2 ≤ v := fun hmore => Bool.false_ne_true (hround.mpr hmore)
      exact absurd (by linarith) hless
    | true =>
      cases stickyBit with
      | false =>
        have hv := hhalf rfl rfl
        have heven := htie (Or.inl (by linarith))
        show m + m % 2 = m + 1
        omega
      | true => rfl

end Represents

theorem represents_add (q : Nat) {f : ℚ} (hpos : 0 < f) (hlt : f < 1) :
    Represents (ExtendedMantissa.ofMantissaAndAccuracy q (.inexact (compare f (1 / 2)))) (q + f) := by
  cases hcompare : compare f (1 / 2) with
  | lt =>
    have hless : f < 1 / 2 := compare_lt_iff_lt.mp hcompare
    refine ⟨?_, ?_, iff_of_false Bool.false_ne_true ?_, iff_of_true rfl ⟨ne_of_gt ?_, ne_of_lt ?_⟩⟩ <;>
      dsimp only [ExtendedMantissa.ofMantissaAndAccuracy] <;> linarith
  | eq =>
    have hhalf : f = 1 / 2 := compare_eq_iff_eq.mp hcompare
    rw [hhalf]
    refine ⟨?_, ?_, iff_of_true rfl ?_, iff_of_false Bool.false_ne_true fun h => h.2 rfl⟩ <;>
      dsimp only [ExtendedMantissa.ofMantissaAndAccuracy] <;> linarith
  | gt =>
    have hmore : 1 / 2 < f := compare_gt_iff_gt.mp hcompare
    refine ⟨?_, ?_, iff_of_true rfl ?_, iff_of_true rfl ⟨ne_of_gt ?_, ne_of_gt ?_⟩⟩ <;>
      dsimp only [ExtendedMantissa.ofMantissaAndAccuracy] <;> linarith

/-- Numbers with a common denominator compare as their numerators. -/
theorem compare_eq_of_mul {a b c : ℚ} {m n : Nat} (hc : 0 < c) (ha : a * c = m) (hb : b * c = n) :
    compare a b = compare m n := by
  cases hcompare : compare m n with
  | lt =>
    have hnat : m < n := Nat.compare_eq_lt.mp hcompare
    rw [compare_lt_iff_lt, ← mul_lt_mul_iff_of_pos_right hc, ha, hb]
    exact_mod_cast hnat
  | eq =>
    have hnat : m = n := Nat.compare_eq_eq.mp hcompare
    rw [compare_eq_iff_eq]
    apply mul_right_cancel₀ hc.ne'
    rw [ha, hb, hnat]
  | gt =>
    have hnat : n < m := Nat.compare_eq_gt.mp hcompare
    rw [compare_gt_iff_gt, ← mul_lt_mul_iff_of_pos_right hc, ha, hb]
    exact_mod_cast hnat

/-- The rest of a division tells the extra bits of the quotient. -/
theorem represents_div (n : Nat) {d : Nat} (hd : 0 < d) :
    Represents (ExtendedMantissa.ofMantissaAndAccuracy (n / d) (accuracyOfFraction (n % d) d))
      ((n : ℚ) / d) := by
  have hpos : (0 : ℚ) < d := by exact_mod_cast hd
  have hparts : (n : ℚ) / d = (n / d : Nat) + ((n % d : Nat) : ℚ) / d := by
    have hnat : (n : ℚ) = d * (n / d : Nat) + (n % d : Nat) := by
      exact_mod_cast (Nat.div_add_mod n d).symm
    rw [div_eq_iff hpos.ne', add_mul, div_mul_cancel₀ _ hpos.ne', mul_comm]
    exact hnat
  have hrest : ((n % d : Nat) : ℚ) / d < 1 := by
    rw [div_lt_one hpos]
    exact_mod_cast Nat.mod_lt n hd
  rw [hparts]
  unfold accuracyOfFraction
  split
  · next hzero =>
    rw [hzero, Nat.cast_zero, zero_div, add_zero]
    exact represents_exact _
  · next hne =>
    have hsome : (0 : ℚ) < ((n % d : Nat) : ℚ) / d :=
      div_pos (by exact_mod_cast Nat.pos_of_ne_zero hne) hpos
    have hcompare : compare (((n % d : Nat) : ℚ) / d) (1 / 2) = compare (2 * (n % d)) d := by
      apply compare_eq_of_mul (c := 2 * d) (by linarith)
      · rw [mul_left_comm, div_mul_cancel₀ _ hpos.ne']
        push_cast
        rfl
      · rw [one_div, inv_mul_cancel_left₀ (by norm_num)]
    rw [← hcompare]
    exact represents_add _ hsome hrest

/-! ## 2. The values that belong to a double -/

/-- `m * 2 ^ e` is written as a double writes it: with 53 bits, or with fewer and the least exponent. -/
structure Canonical (m : Nat) (e : Int) : Prop where
  pos : 0 < m
  lt : m < 2 ^ 53
  least : -1074 ≤ e
  full : 2 ^ 52 ≤ m ∨ e = -1074

/-- `v` lies between the values half way to the neighbours of the double `m * 2 ^ e`, or it is one of
them and `m` is even.  Below a power of two the neighbour is half as far away. -/
structure RoundsTo (v : ℚ) (m : Nat) (e : Int) : Prop where
  low : ((m : ℚ) - 1 / 2) * 2 ^ e ≤ v
  narrow : m = 2 ^ 52 → -1074 < e → ((m : ℚ) - 1 / 4) * 2 ^ e ≤ v
  high : v ≤ ((m : ℚ) + 1 / 2) * 2 ^ e
  tie : v = ((m : ℚ) - 1 / 2) * 2 ^ e ∨ v = ((m : ℚ) + 1 / 2) * 2 ^ e → m % 2 = 0

theorem log2_le_of_lt {m k : Nat} (h : m < 2 ^ (k + 1)) : m.log2 ≤ k := by
  by_cases hm : m = 0
  · rw [hm]
    exact Nat.zero_le k
  · exact Nat.le_of_lt_succ ((Nat.log2_lt hm).mpr h)

theorem targetExponent_binary64 (total : Int) :
    Format.binary64.targetExponent total = max (total - 53) (-1074) := by
  unfold Format.targetExponent
  rfl

theorem two_zpow_pos (e : Int) : (0 : ℚ) < 2 ^ e :=
  zpow_pos (by norm_num) e

theorem RoundsTo.nearestEven {m : Nat} {e : Int} (h : RoundsTo v m e) :
    NearestEven (v / 2 ^ e) m := by
  have hpos := two_zpow_pos e
  refine ⟨(le_div_iff₀ hpos).mpr h.low, (div_le_iff₀ hpos).mpr h.high, ?_⟩
  rintro (heq | heq)
  · exact h.tie (Or.inl ((div_eq_iff hpos.ne').mp heq))
  · exact h.tie (Or.inr ((div_eq_iff hpos.ne').mp heq))

theorem two_zpow_lt_iff {a b : Int} : (2 : ℚ) ^ a < 2 ^ b ↔ a < b :=
  zpow_lt_zpow_iff_right₀ (by norm_num)

theorem two_pow_mul_two_zpow (k : Nat) (e : Int) : (2 : ℚ) ^ k * 2 ^ e = 2 ^ (k + e) := by
  rw [zpow_add₀ (by norm_num), zpow_natCast]

/-- The place of the highest bit of a mantissa is that of the value. -/
theorem log2_bounds {M : Nat} {E : Int} (hle : (M : ℚ) * 2 ^ E ≤ v) (hlt : v < (M + 1) * 2 ^ E) :
    v < 2 ^ ((M.log2 : Int) + 1 + E) ∧ (M ≠ 0 → (2 : ℚ) ^ ((M.log2 : Int) + E) ≤ v) := by
  have hpos := two_zpow_pos E
  constructor
  · have hnat : M + 1 ≤ 2 ^ (M.log2 + 1) := Nat.lt_log2_self
    have hcast : (M : ℚ) + 1 ≤ 2 ^ (M.log2 + 1) := by exact_mod_cast hnat
    calc v < (M + 1) * 2 ^ E := hlt
      _ ≤ 2 ^ (M.log2 + 1) * 2 ^ E := mul_le_mul_of_nonneg_right hcast hpos.le
      _ = 2 ^ ((M.log2 : Int) + 1 + E) := by rw [two_pow_mul_two_zpow, Nat.cast_succ]
  · intro hne
    have hcast : (2 : ℚ) ^ M.log2 ≤ M := by exact_mod_cast Nat.log2_self_le hne
    rw [← two_pow_mul_two_zpow]
    exact (mul_le_mul_of_nonneg_right hcast hpos.le).trans hle

theorem RoundsTo.lt_two_zpow {m : Nat} {e : Int} (hround : RoundsTo v m e) (hless : m < 2 ^ 53) :
    v < 2 ^ (53 + e) := by
  have hcast : (m : ℚ) + 1 ≤ 2 ^ 53 := by exact_mod_cast hless
  calc v ≤ (m + 1 / 2) * 2 ^ e := hround.high
    _ < 2 ^ 53 * 2 ^ e := mul_lt_mul_of_pos_right (by linarith) (two_zpow_pos e)
    _ = 2 ^ (53 + e) := two_pow_mul_two_zpow 53 e

/-- Below a power of two and nearest to it, a value is more than half of it. -/
theorem RoundsTo.below_power {m : Nat} {e : Int} (hround : RoundsTo v m e) (hfull : 2 ^ 52 ≤ m)
    (hleast : -1074 < e) (hv : v < 2 ^ (52 + e)) : m = 2 ^ 52 ∧ (2 : ℚ) ^ (51 + e) ≤ v := by
  have hpos := two_zpow_pos e
  have hpower : m = 2 ^ 52 := by
    by_contra hne
    have hcast : (2 : ℚ) ^ 52 + 1 ≤ m := by exact_mod_cast (by omega : 2 ^ 52 + 1 ≤ m)
    have habove : (2 : ℚ) ^ (52 + e) ≤ v := by
      calc (2 : ℚ) ^ (52 + e) = 2 ^ 52 * 2 ^ e := (two_pow_mul_two_zpow 52 e).symm
        _ ≤ (m - 1 / 2) * 2 ^ e := mul_le_mul_of_nonneg_right (by linarith) hpos.le
        _ ≤ v := hround.low
    exact absurd hv (not_lt.mpr habove)
  refine ⟨hpower, ?_⟩
  have hcast : (2 : ℚ) ^ 51 ≤ m - 1 / 4 := by
    rw [hpower]
    norm_num
  calc (2 : ℚ) ^ (51 + e) = 2 ^ 51 * 2 ^ e := (two_pow_mul_two_zpow 51 e).symm
    _ ≤ (m - 1 / 4) * 2 ^ e := mul_le_mul_of_nonneg_right hcast hpos.le
    _ ≤ v := hround.narrow hpower hleast

/-- The exponent that a value is shifted to is that of its double, or one less just below a power of
two. -/
theorem targetExponent_cases {m M : Nat} {e E : Int} (hcanonical : Canonical m e)
    (hround : RoundsTo v m e) (hle : (M : ℚ) * 2 ^ E ≤ v) (hlt : v < (M + 1) * 2 ^ E)
    (hfine : E ≤ Format.binary64.targetExponent (totalExponent M E)) :
    Format.binary64.targetExponent (totalExponent M E) = e ∨
      Format.binary64.targetExponent (totalExponent M E) = e - 1 ∧ m = 2 ^ 52 ∧ -1074 < e ∧
        v < 2 ^ (52 + e) := by
  obtain ⟨hm, hless, hleast, hfull⟩ := hcanonical
  obtain ⟨habove, hbelow⟩ := log2_bounds hle hlt
  rw [targetExponent_binary64] at hfine ⊢
  unfold totalExponent at hfine ⊢
  have hzero : M = 0 → E ≤ -1074 ∧ M.log2 = 0 := by
    rintro rfl
    rw [Nat.log2_zero] at hfine ⊢
    omega
  have hnotless : (M.log2 : Int) + E < 53 + e := by
    by_cases hM : M = 0
    · have hE := hzero hM
      omega
    · exact two_zpow_lt_iff.mp ((hbelow hM).trans_lt (hround.lt_two_zpow hless))
  by_cases hv : (2 : ℚ) ^ (52 + e) ≤ v
  · have hmore := two_zpow_lt_iff.mp (hv.trans_lt habove)
    left
    omega
  · rw [not_le] at hv
    by_cases he : e = -1074
    · left
      omega
    · obtain ⟨hpower, hhalf⟩ := hround.below_power (hfull.resolve_right he) (by omega) hv
      have hmore := two_zpow_lt_iff.mp (hhalf.trans_lt habove)
      have hM : M ≠ 0 := by
        intro hM
        have hE := hzero hM
        omega
      have hfewer := two_zpow_lt_iff.mp ((hbelow hM).trans_lt hv)
      right
      exact ⟨by omega, hpower, by omega, hv⟩

theorem shiftToTargetExponent_eq {M : Nat} {E : Int} (accuracy : Accuracy)
    (hfine : E ≤ Format.binary64.targetExponent (totalExponent M E)) :
    shiftToTargetExponent Format.binary64 M E accuracy =
      (ExtendedMantissa.ofMantissaAndAccuracy M accuracy >>>
          (Format.binary64.targetExponent (totalExponent M E) - E).toNat,
        Format.binary64.targetExponent (totalExponent M E)) := by
  unfold shiftToTargetExponent shiftToExponent
  dsimp only
  rw [Int.toNat_of_nonneg (by omega), add_sub_cancel]

theorem Represents.shift_to {M : Nat} {E T : Int} {accuracy : Accuracy} (hle : E ≤ T)
    (h : Represents (ExtendedMantissa.ofMantissaAndAccuracy M accuracy) (v / 2 ^ E)) :
    Represents (ExtendedMantissa.ofMantissaAndAccuracy M accuracy >>> (T - E).toNat)
      (v / 2 ^ T) := by
  have hpow : (2 : ℚ) ^ T = 2 ^ E * 2 ^ (T - E).toNat := by
    rw [← zpow_natCast, Int.toNat_of_nonneg (by omega), ← zpow_add₀ (by norm_num), add_sub_cancel]
  rw [hpow, ← div_div]
  exact h.shiftRight _

/-- The exponent of a double is the one that its mantissa is shifted to. -/
theorem Canonical.targetExponent {m : Nat} {e : Int} (h : Canonical m e) :
    Format.binary64.targetExponent (totalExponent m e) = e := by
  obtain ⟨hm, hless, hleast, hfull⟩ := h
  have hlog : m.log2 ≤ 52 := log2_le_of_lt hless
  rw [targetExponent_binary64]
  unfold totalExponent
  rcases hfull with hfull | he
  · have hlarge : 52 ≤ m.log2 := (Nat.le_log2 hm.ne').mpr hfull
    omega
  · omega

theorem mantissa_shiftRight (em : ExtendedMantissa) (count : Nat) :
    (em >>> count).mantissa = em.mantissa / 2 ^ count := by
  induction count with
  | zero => exact (Nat.div_one _).symm
  | succ count ih =>
    show (em >>> count).mantissa / 2 = _
    rw [ih, Nat.div_div_eq_div_mul, pow_succ]

theorem nearestEven_below_power {m : Nat} {e : Int} (hpower : m = 2 ^ 52) (hround : RoundsTo v m e)
    (hleast : -1074 < e) (hless : v < 2 ^ (52 + e)) : NearestEven (v / 2 ^ (e - 1)) (2 ^ 53) := by
  have hpos := two_zpow_pos (e - 1)
  have hdouble : (2 : ℚ) ^ e = 2 * 2 ^ (e - 1) := by
    rw [← zpow_one_add₀ (by norm_num), add_sub_cancel]
  have hnarrow := hround.narrow hpower hleast
  have hbelow : v < 2 ^ 53 * 2 ^ (e - 1) := by
    rw [zpow_add₀ (by norm_num), hdouble] at hless
    linarith
  rw [hpower, hdouble] at hnarrow
  push_cast at hnarrow
  refine ⟨?_, ?_, fun _ => by decide⟩
  · rw [le_div_iff₀ hpos]
    push_cast
    linarith
  · rw [div_le_iff₀ hpos]
    push_cast
    linarith

/-- A value that belongs to a double is rounded to it. -/
theorem roundWithAccuracy_eq {m M : Nat} {e E : Int} {accuracy : Accuracy}
    (hcanonical : Canonical m e) (hround : RoundsTo v m e)
    (hrep : Represents (ExtendedMantissa.ofMantissaAndAccuracy M accuracy) (v / 2 ^ E))
    (hfine : E ≤ Format.binary64.targetExponent (totalExponent M E)) (sign : Sign) :
    roundWithAccuracy Format.binary64 sign M E accuracy = .finite sign m e hcanonical.pos := by
  have hpos := two_zpow_pos E
  have hmantissa := mantissa_ofMantissaAndAccuracy M accuracy
  have hle : (M : ℚ) * 2 ^ E ≤ v := by
    rw [← hmantissa, ← le_div_iff₀ hpos]
    exact hrep.le
  have hlt : v < (M + 1) * 2 ^ E := by
    rw [← hmantissa, ← div_lt_iff₀ hpos]
    exact hrep.lt
  have hcases := targetExponent_cases hcanonical hround hle hlt hfine
  have hshifted := hrep.shift_to hfine
  unfold roundWithAccuracy
  rw [shiftToTargetExponent_eq accuracy hfine]
  dsimp only
  generalize Format.binary64.targetExponent (totalExponent M E) = T at *
  generalize ExtendedMantissa.ofMantissaAndAccuracy M accuracy >>> (T - E).toNat = em at *
  -- The second shift has a bit to drop if the value was rounded up to a power of two.
  have hfinal : ∃ final, shiftToTargetExponent Format.binary64 em.roundedMantissa T .exact =
      (final, e) ∧ final.mantissa = m := by
    rcases hcases with rfl | ⟨rfl, hpower, hleast, hless⟩
    · have hrounded := hshifted.roundedMantissa_eq hround.nearestEven
      rw [hrounded, shiftToTargetExponent_eq .exact hcanonical.targetExponent.ge,
        hcanonical.targetExponent, sub_self]
      exact ⟨_, rfl, mantissa_ofMantissaAndAccuracy m .exact⟩
    · have hnearest := nearestEven_below_power hpower hround hleast hless
      have hrounded := hshifted.roundedMantissa_eq hnearest
      have htarget : Format.binary64.targetExponent (totalExponent (2 ^ 53) (e - 1)) = e := by
        rw [targetExponent_binary64]
        unfold totalExponent
        rw [Nat.log2_two_pow]
        omega
      rw [hrounded, shiftToTargetExponent_eq .exact (by omega), htarget]
      refine ⟨_, rfl, ?_⟩
      rw [mantissa_shiftRight, mantissa_ofMantissaAndAccuracy, sub_sub_cancel, hpower]
      rfl
  obtain ⟨final, hfinal, rfl⟩ := hfinal
  rw [hfinal]
  exact dif_neg hcanonical.pos.ne'

/-! ## 3. Quotients and products -/

variable {m m₁ m₂ : Nat} {e e₁ e₂ : Int} {h₁ : 0 < m₁} {h₂ : 0 < m₂}

theorem le_targetExponent_of_le {M : Nat} {E : Int} (h : 2 ^ 52 ≤ M) :
    E ≤ Format.binary64.targetExponent (totalExponent M E) := by
  have hlog : 52 ≤ M.log2 := (Nat.le_log2 (by omega)).mpr h
  rw [targetExponent_binary64]
  unfold totalExponent
  omega

/-- The quotient of the mantissas has the bits of a double, unless its exponent is the least one. -/
theorem divCore_fine :
    let (M, E, _) := divCore Format.binary64 m₁ e₁ m₂ e₂
    0 < m₁ → 0 < m₂ → E ≤ Format.binary64.targetExponent (totalExponent M E) := by
  unfold divCore
  dsimp only
  intro h₁ h₂
  have htarget := targetExponent_binary64 (totalExponent m₁ e₁ - totalExponent m₂ e₂)
  unfold totalExponent at htarget
  generalize hE : min (e₁ - e₂)
    (Format.binary64.targetExponent (totalExponent m₁ e₁ - totalExponent m₂ e₂)) = E
  unfold totalExponent at hE
  by_cases hleast : E ≤ -1074
  · rw [targetExponent_binary64]
    omega
  · apply le_targetExponent_of_le
    have hbits : m₂.log2 + 1 + 52 ≤ m₁.log2 + (e₁ - e₂ - E).toNat := by omega
    rw [Nat.le_div_iff_mul_le h₂, Nat.shiftLeft_eq]
    calc 2 ^ 52 * m₂ ≤ 2 ^ 52 * 2 ^ (m₂.log2 + 1) := Nat.mul_le_mul_left _ Nat.lt_log2_self.le
      _ = 2 ^ (m₂.log2 + 1 + 52) := by rw [← pow_add, add_comm]
      _ ≤ 2 ^ (m₁.log2 + (e₁ - e₂ - E).toNat) := Nat.pow_le_pow_right (by decide) hbits
      _ = 2 ^ m₁.log2 * 2 ^ (e₁ - e₂ - E).toNat := pow_add _ _ _
      _ ≤ m₁ * 2 ^ (e₁ - e₂ - E).toNat := Nat.mul_le_mul_right _ (Nat.log2_self_le h₁.ne')

/-- A division is the rounding of a quotient that is known as finely as this takes. -/
theorem exists_rounded_div (sign₁ sign₂ : Sign) :
    ∃ M E accuracy,
      UnpackedFloat.div Format.binary64 (.finite sign₁ m₁ e₁ h₁) (.finite sign₂ m₂ e₂ h₂) =
        roundWithAccuracy Format.binary64 (sign₁ / sign₂) M E accuracy ∧
      Represents (ExtendedMantissa.ofMantissaAndAccuracy M accuracy)
        (m₁ * 2 ^ e₁ / (m₂ * 2 ^ e₂) / 2 ^ E) ∧
      E ≤ Format.binary64.targetExponent (totalExponent M E) := by
  have hfine := @divCore_fine m₁ m₂ e₁ e₂
  unfold UnpackedFloat.div
  unfold divCore at hfine ⊢
  dsimp only at hfine ⊢
  have hE : min (e₁ - e₂) (Format.binary64.targetExponent
    (totalExponent m₁ e₁ - totalExponent m₂ e₂)) ≤ e₁ - e₂ := min_le_left _ _
  generalize min (e₁ - e₂) _ = E at *
  refine ⟨_, E, _, rfl, ?_, hfine h₁ h₂⟩
  have hrep := represents_div (m₁ <<< (e₁ - e₂ - E).toNat) h₂
  have hvalue : (m₁ * 2 ^ e₁ / (m₂ * 2 ^ e₂) / 2 ^ E : ℚ) =
      (m₁ <<< (e₁ - e₂ - E).toNat : Nat) / m₂ := by
    rw [Nat.shiftLeft_eq]
    push_cast
    have hpow : (2 : ℚ) ^ e₁ = 2 ^ (e₁ - e₂ - E).toNat * (2 ^ e₂ * 2 ^ E) := by
      rw [← zpow_natCast, Int.toNat_of_nonneg (by omega), ← zpow_add₀ (by norm_num),
        ← zpow_add₀ (by norm_num)]
      congr 1
      ring
    have hE₂ := (two_zpow_pos e₂).ne'
    have hEE := (two_zpow_pos E).ne'
    rw [hpow]
    field_simp
  rw [hvalue]
  exact hrep

theorem div_finite (hcanonical : Canonical m e)
    (hround : RoundsTo (m₁ * 2 ^ e₁ / (m₂ * 2 ^ e₂)) m e) (sign₁ sign₂ : Sign) :
    UnpackedFloat.div Format.binary64 (.finite sign₁ m₁ e₁ h₁) (.finite sign₂ m₂ e₂ h₂) =
      .finite (sign₁ / sign₂) m e hcanonical.pos := by
  obtain ⟨M, E, accuracy, hdiv, hrep, hfine⟩ := @exists_rounded_div m₁ m₂ e₁ e₂ h₁ h₂ sign₁ sign₂
  rw [hdiv, roundWithAccuracy_eq hcanonical hround hrep hfine]

theorem mul_finite (hcanonical : Canonical m e)
    (hround : RoundsTo (m₁ * 2 ^ e₁ * (m₂ * 2 ^ e₂)) m e) (hfull : 2 ^ 52 ≤ m₁ * m₂)
    (sign₁ sign₂ : Sign) :
    UnpackedFloat.mul Format.binary64 (.finite sign₁ m₁ e₁ h₁) (.finite sign₂ m₂ e₂ h₂) =
      .finite (sign₁ * sign₂) m e hcanonical.pos := by
  refine roundWithAccuracy_eq hcanonical hround ?_ (le_targetExponent_of_le hfull) _
  have hvalue : (m₁ * 2 ^ e₁ * (m₂ * 2 ^ e₂) / 2 ^ (e₁ + e₂) : ℚ) = (m₁ * m₂ : Nat) := by
    have hE := (two_zpow_pos e₁).ne'
    have hE₂ := (two_zpow_pos e₂).ne'
    rw [zpow_add₀ (by norm_num)]
    push_cast
    field_simp
  rw [hvalue]
  exact represents_exact _

end GraphReplay.Decimal
