import Mathlib.Data.Int.Log
import Mathlib.Data.Rat.Floor
import GraphReplay.Proofs.Decimal.Rounding

/-!
# Values and the doubles that they belong to

Every value above half of the least positive double belongs to a double, if exponents have no upper
bound (`exists_roundsTo`).  The exponents of doubles have one, and the values that keep it are those
below `overflow`.
-/

namespace GraphReplay.Decimal

open Float.Model Float.Model.UnpackedFloat

variable {v : ℚ} {m : Nat} {q : Int}

/-! ## 1. The nearest double -/

theorem half_least : (1 : ℚ) / 2 * 2 ^ (-1074 : Int) = 1 / 2 ^ 1075 := by
  rw [zpow_neg, zpow_ofNat, one_div, one_div, ← mul_inv, ← pow_succ' 2 1074]

theorem exists_nearestEven {w : ℚ} (hw : 0 ≤ w) :
    ∃ n, NearestEven w n ∧ ⌊w⌋₊ ≤ n ∧ n ≤ ⌊w⌋₊ + 1 := by
  have hle : (⌊w⌋₊ : ℚ) ≤ w := Nat.floor_le hw
  have hlt : w < ⌊w⌋₊ + 1 := Nat.lt_floor_add_one w
  generalize ⌊w⌋₊ = f at *
  have hbelow : w ≤ f + 1 / 2 → (w = f + 1 / 2 → f % 2 = 0) → NearestEven w f := by
    intro hhigh htie
    refine ⟨by linarith, hhigh, ?_⟩
    rintro (heq | heq)
    · linarith
    · exact htie heq
  have habove : (f : ℚ) + 1 / 2 ≤ w → (w = f + 1 / 2 → (f + 1) % 2 = 0) →
      NearestEven w (f + 1) := by
    intro hlow htie
    refine ⟨by push_cast; linarith, by push_cast; linarith, ?_⟩
    push_cast
    rintro (heq | heq)
    · exact htie (by linarith)
    · linarith
  rcases lt_trichotomy w (f + 1 / 2) with hless | htie | hmore
  · exact ⟨f, hbelow hless.le fun heq => absurd heq hless.ne, by omega, by omega⟩
  · by_cases heven : f % 2 = 0
    · exact ⟨f, hbelow htie.le fun _ => heven, by omega, by omega⟩
    · exact ⟨f + 1, habove htie.ge fun _ => by omega, by omega, by omega⟩
  · exact ⟨f + 1, habove hmore.le fun heq => absurd heq hmore.ne', by omega, by omega⟩

theorem NearestEven.roundsTo (h : NearestEven (v / 2 ^ q) m)
    (hfull : m = 2 ^ 52 → -1074 < q → 2 ^ 52 ≤ v / 2 ^ q) : RoundsTo v m q := by
  have hpos := two_zpow_pos q
  refine ⟨(le_div_iff₀ hpos).mp h.low, fun hpower hleast => ?_, (div_le_iff₀ hpos).mp h.high, ?_⟩
  · have hle := (le_div_iff₀ hpos).mp (hfull hpower hleast)
    rw [hpower]
    push_cast
    linarith
  · rintro (heq | heq)
    · exact h.tie (Or.inl ((div_eq_iff hpos.ne').mpr heq))
    · exact h.tie (Or.inr ((div_eq_iff hpos.ne').mpr heq))

/-- A value that is rounded up to a power of two has the next exponent. -/
theorem NearestEven.roundsTo_carry (h : NearestEven (v / 2 ^ q) (2 ^ 53))
    (hlt : v / 2 ^ q < 2 ^ 53) : RoundsTo v (2 ^ 52) (q + 1) := by
  have hpos := two_zpow_pos q
  have hlow := (le_div_iff₀ hpos).mp h.low
  have hhigh := (div_lt_iff₀ hpos).mp hlt
  have hdouble : (2 : ℚ) ^ (q + 1) = 2 * 2 ^ q := by rw [zpow_add_one₀ (by norm_num), mul_comm]
  push_cast at hlow
  refine ⟨?_, fun _ _ => ?_, ?_, fun _ => by decide⟩ <;>
    · rw [hdouble]
      push_cast
      linarith

/-- Past half of the least one, every value belongs to a double, if exponents have no bound. -/
theorem exists_roundsTo (hv : 1 / 2 ^ 1075 < v) : ∃ m q, Canonical m q ∧ RoundsTo v m q := by
  have hvpos : 0 < v := lt_trans (by positivity) hv
  have hlog : (2 : ℚ) ^ Int.log 2 v ≤ v := Int.zpow_log_le_self one_lt_two hvpos
  have hnext : v < (2 : ℚ) ^ (Int.log 2 v + 1) := Int.lt_zpow_succ_log_self one_lt_two v
  generalize Int.log 2 v = k at *
  obtain ⟨q, hq⟩ : ∃ q, q = max (k - 52) (-1074) := ⟨_, rfl⟩
  have hpos := two_zpow_pos q
  have hlt : v / 2 ^ q < 2 ^ 53 := by
    rw [div_lt_iff₀ hpos]
    calc v < 2 ^ (k + 1) := hnext
      _ ≤ 2 ^ (53 + q) := zpow_le_zpow_right₀ (by norm_num) (by omega)
      _ = 2 ^ 53 * 2 ^ q := (two_pow_mul_two_zpow 53 q).symm
  have hfull : -1074 < q → 2 ^ 52 ≤ v / 2 ^ q := by
    intro hleast
    rw [le_div_iff₀ hpos]
    calc (2 : ℚ) ^ 52 * 2 ^ q = 2 ^ (52 + q) := two_pow_mul_two_zpow 52 q
      _ = 2 ^ k := by congr 1; omega
      _ ≤ v := hlog
  have hhalf : q = -1074 → 1 / 2 < v / 2 ^ q := by
    rintro rfl
    rw [lt_div_iff₀ hpos]
    rwa [half_least]
  obtain ⟨n, hn, hfloor, hceil⟩ := exists_nearestEven (div_pos hvpos hpos).le
  have hbits : -1074 < q → 2 ^ 52 ≤ n := fun hleast =>
    (Nat.le_floor (by exact_mod_cast hfull hleast)).trans hfloor
  have hless : n ≤ 2 ^ 53 := by
    have hwhole : ⌊v / 2 ^ q⌋₊ < 2 ^ 53 := Nat.floor_lt' (by decide) |>.mpr (by exact_mod_cast hlt)
    omega
  by_cases hcarry : n = 2 ^ 53
  · subst hcarry
    exact ⟨2 ^ 52, q + 1, ⟨by decide, by decide, by omega, Or.inl le_rfl⟩, hn.roundsTo_carry hlt⟩
  · refine ⟨n, q, ⟨?_, by omega, by omega, ?_⟩, hn.roundsTo fun _ => hfull⟩
    · apply Nat.pos_of_ne_zero
      rintro rfl
      by_cases hleast : q = -1074
      · have hsmall := hn.high
        have hlarge := hhalf hleast
        push_cast at hsmall
        linarith
      · exact absurd (hbits (by omega)) (by decide)
    · by_cases hleast : q = -1074
      · exact Or.inr hleast
      · exact Or.inl (hbits (by omega))

/-! ## 2. Exponents -/

theorem le_of_lt_exponent (hcanonical : Canonical m q) (hround : RoundsTo v m q) {k : Int}
    (hk : -1074 ≤ k) (hq : k < q) : ((2 : ℚ) ^ 53 - 1 / 2) * 2 ^ k ≤ v := by
  have hpos := two_zpow_pos q
  have hbits : 2 ^ 52 ≤ m := hcanonical.full.resolve_right (by omega)
  have hlow : ((2 : ℚ) ^ 52 - 1 / 4) * 2 ^ q ≤ v := by
    by_cases hpower : m = 2 ^ 52
    · have hnarrow := hround.narrow hpower (by omega)
      rw [hpower] at hnarrow
      exact_mod_cast hnarrow
    · have hcast : (2 : ℚ) ^ 52 + 1 ≤ m := by exact_mod_cast (by omega : 2 ^ 52 + 1 ≤ m)
      exact (mul_le_mul_of_nonneg_right (by linarith) hpos.le).trans hround.low
  calc ((2 : ℚ) ^ 53 - 1 / 2) * 2 ^ k = (2 ^ 52 - 1 / 4) * 2 ^ (1 + k) := by
        rw [zpow_add₀ (by norm_num), zpow_one]
        ring
    _ ≤ (2 ^ 52 - 1 / 4) * 2 ^ q :=
      mul_le_mul_of_nonneg_left (zpow_le_zpow_right₀ (by norm_num) (by omega)) (by norm_num)
    _ ≤ v := hlow

theorem lt_of_exponent_le (hcanonical : Canonical m q) (hround : RoundsTo v m q) {k : Int}
    (hq : q ≤ k) : v < ((2 : ℚ) ^ 53 - 1 / 2) * 2 ^ k := by
  have hunit := two_zpow_pos k
  have hcast : (m : ℚ) + 1 ≤ 2 ^ 53 := by exact_mod_cast hcanonical.lt
  rcases hq.lt_or_eq with hless | rfl
  · calc v ≤ (m + 1 / 2) * 2 ^ q := hround.high
      _ ≤ 2 ^ 53 * 2 ^ (k - 1) :=
        mul_le_mul (by linarith) (zpow_le_zpow_right₀ (by norm_num) (by omega))
          (two_zpow_pos q).le (by norm_num)
      _ = 2 ^ 52 * 2 ^ k := by
        rw [zpow_sub_one₀ (by norm_num)]
        ring
      _ < (2 ^ 53 - 1 / 2) * 2 ^ k := mul_lt_mul_of_pos_right (by norm_num) hunit
  · -- Half a unit past the greatest mantissa the even number is a power of two.
    have hhigh : v ≤ (2 ^ 53 - 1 / 2) * 2 ^ q :=
      hround.high.trans (mul_le_mul_of_nonneg_right (by linarith) hunit.le)
    refine hhigh.lt_of_ne fun heq => ?_
    by_cases hmax : m = 2 ^ 53 - 1
    · have heven := hround.tie (Or.inr (by rw [heq, hmax]; norm_num))
      omega
    · have hless := hcanonical.lt
      have hfewer : (m : ℚ) + 2 ≤ 2 ^ 53 := by exact_mod_cast (by omega : m + 2 ≤ 2 ^ 53)
      have hbelow := hround.high
      rw [heq, mul_le_mul_iff_left₀ hunit] at hbelow
      linarith

/-- The values with a greater exponent begin half a unit past the greatest mantissa. -/
theorem exponent_le_iff (hcanonical : Canonical m q) (hround : RoundsTo v m q) {k : Int}
    (hk : -1074 ≤ k) : q ≤ k ↔ v < ((2 : ℚ) ^ 53 - 1 / 2) * 2 ^ k := by
  refine ⟨lt_of_exponent_le hcanonical hround, fun hv => ?_⟩
  by_contra hq
  exact absurd hv (not_lt.mpr (le_of_lt_exponent hcanonical hround hk (not_le.mp hq)))

/-- Half a unit past the greatest double, where exponents begin that doubles do not have. -/
def overflow : ℚ :=
  (2 ^ 53 - 1 / 2) * 2 ^ (971 : Int)

theorem lt_overflow_iff (hcanonical : Canonical m q) (hround : RoundsTo v m q) :
    v < overflow ↔ q ≤ 971 :=
  (exponent_le_iff hcanonical hround (by norm_num)).symm

theorem least_lt_overflow : 1 / 2 ^ 1075 < overflow := by
  have hleast : (1 : ℚ) / 2 ^ 1075 < 1 := by
    rw [div_lt_one (by positivity)]
    exact one_lt_pow₀ (by norm_num) (by decide)
  calc (1 : ℚ) / 2 ^ 1075 < 1 := hleast
    _ ≤ (2 ^ 53 - 1 / 2) * 1 := by norm_num
    _ ≤ overflow :=
      mul_le_mul_of_nonneg_left (one_le_zpow₀ (by norm_num) (by norm_num)) (by norm_num)

end GraphReplay.Decimal
