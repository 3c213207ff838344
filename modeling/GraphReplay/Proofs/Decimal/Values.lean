import GraphReplay.Proofs.Decimal.ReadBack

/-!
# The doubles of literals

A literal of digits has an exact value, and the double that it is read as follows from this value
alone (`value_number_cases`): zero up to half of the least positive double, then the nearest double,
and of two that are equally near the even one, and an infinity from half a unit past the greatest
double on.
-/

namespace GraphReplay.Decimal

open Float.Model Float.Model.UnpackedFloat

variable {v : ℚ} {d m : Nat} {e q : Int}

/-! ## 1. The smallest values -/

/-- The exponent that a value below the least double is shifted to is the least one. -/
theorem targetExponent_of_tiny {M : Nat} {E : Int} (hv : v ≤ 1 / 2 ^ 1075)
    (hle : (M : ℚ) * 2 ^ E ≤ v) (hlt : v < (M + 1) * 2 ^ E)
    (hfine : E ≤ Format.binary64.targetExponent (totalExponent M E)) :
    Format.binary64.targetExponent (totalExponent M E) = -1074 := by
  obtain ⟨_, hbelow⟩ := log2_bounds hle hlt
  rw [targetExponent_binary64] at hfine ⊢
  unfold totalExponent at hfine ⊢
  by_cases hM : M = 0
  · subst hM
    rw [Nat.log2_zero] at hfine ⊢
    omega
  · have hless : (2 : ℚ) ^ ((M.log2 : Int) + E) < 2 ^ (-1074 : Int) := by
      have hunit := two_zpow_pos (-1074)
      rw [← half_least] at hv
      exact ((hbelow hM).trans hv).trans_lt (by linarith)
    have hexponent := two_zpow_lt_iff.mp hless
    omega

theorem roundWithAccuracy_zero {M : Nat} {E : Int} {accuracy : Accuracy} (hnonneg : 0 ≤ v)
    (hv : v ≤ 1 / 2 ^ 1075)
    (hrep : Represents (ExtendedMantissa.ofMantissaAndAccuracy M accuracy) (v / 2 ^ E))
    (hfine : E ≤ Format.binary64.targetExponent (totalExponent M E)) (sign : Sign) :
    roundWithAccuracy Format.binary64 sign M E accuracy = .zero sign := by
  have hpos := two_zpow_pos E
  have hmantissa := mantissa_ofMantissaAndAccuracy M accuracy
  have hle : (M : ℚ) * 2 ^ E ≤ v := by
    rw [← hmantissa, ← le_div_iff₀ hpos]
    exact hrep.le
  have hlt : v < (M + 1) * 2 ^ E := by
    rw [← hmantissa, ← div_lt_iff₀ hpos]
    exact hrep.lt
  have htarget := targetExponent_of_tiny hv hle hlt hfine
  have hshifted := hrep.shift_to hfine
  have hunit := two_zpow_pos (-1074)
  have hnearest : NearestEven (v / 2 ^ (-1074 : Int)) 0 := by
    refine ⟨?_, ?_, fun _ => rfl⟩
    · exact le_trans (by norm_num) (div_nonneg hnonneg hunit.le)
    · rw [div_le_iff₀ hunit, Nat.cast_zero, zero_add, half_least]
      exact hv
  unfold roundWithAccuracy
  rw [shiftToTargetExponent_eq accuracy hfine]
  dsimp only
  rw [htarget] at hshifted ⊢
  rw [hshifted.roundedMantissa_eq hnearest]
  rfl

theorem div_tiny {m₁ m₂ : Nat} {e₁ e₂ : Int} {h₁ : 0 < m₁} {h₂ : 0 < m₂}
    (hv : (m₁ * 2 ^ e₁ / (m₂ * 2 ^ e₂) : ℚ) ≤ 1 / 2 ^ 1075) (sign₁ sign₂ : Sign) :
    UnpackedFloat.div Format.binary64 (.finite sign₁ m₁ e₁ h₁) (.finite sign₂ m₂ e₂ h₂) =
      .zero (sign₁ / sign₂) := by
  obtain ⟨M, E, accuracy, hdiv, hrep, hfine⟩ := @exists_rounded_div m₁ m₂ e₁ e₂ h₁ h₂ sign₁ sign₂
  rw [hdiv, roundWithAccuracy_zero (by positivity) hv hrep hfine]

/-- A decimal is that small only through its power of ten. -/
theorem exponent_of_tiny (hv : (d : ℚ) * 10 ^ e ≤ 1 / 2 ^ 1075) (hd : 0 < d) : e < -22 := by
  by_contra he
  have hone : (1 : ℚ) ≤ d := by exact_mod_cast hd
  have hten : (0 : ℚ) < 10 ^ e := zpow_pos (by norm_num) e
  have hpower : (10 : ℚ) ^ 22 < 2 ^ 1075 :=
    lt_of_lt_of_le (by norm_num) (pow_le_pow_right₀ (by norm_num) (by decide : 80 ≤ 1075))
  have hlarge : (1 : ℚ) / 2 ^ 1075 < d * 10 ^ e := by
    calc (1 : ℚ) / 2 ^ 1075 < 1 / 10 ^ 22 := one_div_lt_one_div_of_lt (by positivity) hpower
      _ = 10 ^ (-22 : Int) := by rw [zpow_neg, zpow_ofNat, one_div]
      _ ≤ 10 ^ e := zpow_le_zpow_right₀ (by norm_num) (by omega)
      _ ≤ d * 10 ^ e := le_mul_of_one_le_left hten.le hone
  exact absurd hv (not_le.mpr hlarge)

/-- A decimal of at most half of the least double is read as zero. -/
theorem nearestDouble_tiny (hv : (d : ℚ) * 10 ^ e ≤ 1 / 2 ^ 1075) : nearestDouble d e = 0.0 := by
  unfold nearestDouble
  dsimp only
  split
  · rfl
  · next hguard =>
    rw [Bool.or_eq_true, decide_eq_true_eq, decide_eq_true_eq, not_or] at hguard
    have hd : 0 < d := Nat.pos_of_ne_zero hguard.1
    have he := exponent_of_tiny hv hd
    have hlength := length_toDigits_le d
    obtain ⟨_, hlarge⟩ := far_decimal hd e
    have hnear : ¬400 < ((Nat.toDigits 10 d).length : Int) + e := fun hfar =>
      absurd ((hlarge hfar).trans hv) (not_le.mpr least_lt_overflow)
    rw [if_neg hnear]
    rw [ofScientific_of_not_exact (by omega), ofScientific_of_neg hd (by omega) (by omega)]
    rw [← quotient_eq d (by omega)] at hv
    rw [div_tiny hv]
    decide +kernel

/-! ## 2. Literals -/

/-- The double with this sign that is nearest to a positive value, the even one of two. -/
def IsNearest (x : Float) (negative : Bool) (v : ℚ) : Prop :=
  ∃ m q, ∃ h : Canonical m q, q ≤ 971 ∧ RoundsTo v m q ∧
    x = Float.ofModel (.pack (.finite (signOf negative) m q h.pos))

variable {x : Float} {negative : Bool}

theorem IsNearest.isFinite (h : IsNearest x negative v) : x.isFinite = true := by
  obtain ⟨m, q, hcanonical, hq, _, rfl⟩ := h
  show (unpack Format.binary64 (pack Format.binary64 _)).isFinite = true
  rw [hcanonical.unpack_pack hq]
  rfl

/-- The exact value of a number tells its double. -/
theorem value_number_cases (negative : Bool) (d : Nat) (e : Int) :
    let v := (d : ℚ) * 10 ^ e
    let x := (Literal.number negative d e).value
    (v ≤ 1 / 2 ^ 1075 ∧ x = if negative then -0.0 else 0.0) ∨
      (1 / 2 ^ 1075 < v ∧ v < overflow ∧ IsNearest x negative v) ∨
      (overflow ≤ v ∧ x = if negative then -(1.0 / 0.0) else 1.0 / 0.0) := by
  intro v x
  by_cases htiny : v ≤ 1 / 2 ^ 1075
  · refine Or.inl ⟨htiny, ?_⟩
    show (if negative then -nearestDouble d e else nearestDouble d e) = _
    rw [nearestDouble_tiny htiny]
  · right
    rw [not_le] at htiny
    obtain ⟨m, q, hcanonical, hround⟩ := exists_roundsTo htiny
    have hx : x = if negative then -nearestDouble d e else nearestDouble d e := rfl
    rw [nearestDouble_eq hcanonical hround] at hx
    by_cases hq : q ≤ 971
    · have hover := (lt_overflow_iff hcanonical hround).mpr hq
      refine Or.inl ⟨htiny, hover, m, q, hcanonical, hq, hround, ?_⟩
      rw [hx, neg_ofModel_pack hcanonical hq]
      cases negative <;> rfl
    · refine Or.inr ⟨not_lt.mp (mt (lt_overflow_iff hcanonical hround).mp hq), ?_⟩
      rw [hx, hcanonical.pack_of_lt (by omega), infinite_eq]

/-- The finite literals are the numbers that do not overflow. -/
theorem isFinite_value_iff (l : Literal) :
    l.value.isFinite = true ↔
      ∃ negative d e, l = .number negative d e ∧ (d : ℚ) * 10 ^ e < overflow := by
  constructor
  · intro hfinite
    cases l with
    | number negative d e =>
      refine ⟨negative, d, e, rfl, ?_⟩
      rcases value_number_cases negative d e with ⟨htiny, _⟩ | ⟨_, hv, _⟩ | ⟨_, hx⟩
      · exact htiny.trans_lt least_lt_overflow
      · exact hv
      · rw [hx] at hfinite
        cases negative <;> exact absurd hfinite (by decide +kernel)
    | infinity negative => cases negative <;> exact absurd hfinite (by decide +kernel)
    | nan => exact absurd hfinite (by decide +kernel)
  · rintro ⟨negative, d, e, rfl, hv⟩
    rcases value_number_cases negative d e with ⟨_, hx⟩ | ⟨_, _, hx⟩ | ⟨hover, _⟩
    · rw [hx]
      cases negative <;> decide +kernel
    · exact hx.isFinite
    · exact absurd hv (not_lt.mpr hover)

end GraphReplay.Decimal
