import GraphReplay.Playback.Delay
import GraphReplay.Proofs.Decimal.Nearest
import GraphReplay.Proofs.Decimal.Order

/-!
# Speeds and their delays

The wait at a speed is one over it, rounded to a double, in seconds, and it is a delay if it is less
than `2 ^ 64` seconds.  That is so just for the speeds above `Delay.slowest`, one step in `2 ^ 64`
seconds (`Delay.atSpeed?_isSome_iff`).
-/

namespace GraphReplay

open Float.Model Float.Model.UnpackedFloat

variable {m : Nat} {e q : Int} {x : Float}

/-! ## 1. One over a double -/

namespace Decimal

theorem value_zero : value 0.0 = 0 :=
  rfl

theorem exists_unpack_of_pos (hfinite : x.isFinite = true) (hpos : 0.0 < x) :
    ∃ m e, ∃ h : Canonical m e, e ≤ 971 ∧ x.toModel.unpack = .finite .positive m e h.pos := by
  have hwritten := isWritten_unpack hfinite
  rw [lt_iff_value_lt rfl hfinite, value_zero] at hpos
  unfold value at hpos
  generalize x.toModel.unpack = u at hwritten hpos
  cases u with
  | notANumber => exact hwritten.elim
  | infinity sign => exact hwritten.elim
  | zero sign => exact absurd hpos (lt_irrefl 0)
  | finite sign m e hm =>
    cases sign with
    | positive => exact ⟨m, e, hwritten.1, hwritten.2, rfl⟩
    | negative =>
      have hnegative : -((m : ℚ) * 2 ^ e) < 0 := neg_lt_zero.mpr (magnitude_pos hm e)
      exact absurd hpos hnegative.not_gt

/-- One over a double is large enough not to be rounded to zero. -/
theorem Canonical.least_lt_one_div (h : Canonical m e) (he : e ≤ 971) :
    (1 : ℚ) / 2 ^ 1075 < 1 / (m * 2 ^ e) := by
  have hless : (m : ℚ) < 2 ^ 53 := by exact_mod_cast h.lt
  apply one_div_lt_one_div_of_lt (magnitude_pos h.pos e)
  calc (m : ℚ) * 2 ^ e < 2 ^ 53 * 2 ^ e := mul_lt_mul_of_pos_right hless (two_zpow_pos e)
    _ = 2 ^ (53 + e) := two_pow_mul_two_zpow 53 e
    _ ≤ 2 ^ (1075 : Int) := zpow_le_zpow_right₀ (by norm_num) (by omega)
    _ = 2 ^ 1075 := zpow_ofNat 2 1075

/-- One over a double, divided as doubles are, is the double that the exact quotient belongs to. -/
theorem exists_one_div_eq (hfinite : x.isFinite = true) (hpos : 0.0 < x) :
    ∃ m q, ∃ h : Canonical m q, RoundsTo (1 / value x) m q ∧
      1.0 / x = Float.ofModel (.pack (.finite .positive m q h.pos)) := by
  obtain ⟨m, e, h, he, hx⟩ := exists_unpack_of_pos hfinite hpos
  have hvalue : value x = m * 2 ^ e := congrArg exactValue hx
  have hone : (1.0 : Float).toModel.unpack = .finite .positive 4503599627370496 (-52) (by decide) :=
    rfl
  have hdividend : (1 : ℚ) = (4503599627370496 : Nat) * 2 ^ (-52 : Int) := by
    rw [zpow_neg, zpow_ofNat]
    norm_num
  obtain ⟨m', q, h', hround⟩ := exists_roundsTo (h.least_lt_one_div he)
  refine ⟨m', q, h', by rw [hvalue]; exact hround, ?_⟩
  rw [hdividend] at hround
  have hdiv : 1.0 / x = Float.ofModel (.pack
      (UnpackedFloat.div Format.binary64 (1.0 : Float).toModel.unpack x.toModel.unpack)) := rfl
  rw [hdiv, hone, hx, div_finite h' hround]
  rfl

end Decimal

/-! ## 2. Delays -/

namespace Delay

open Decimal

theorem numerator_lt_iff (h : Canonical m q) (narrow : Bool) :
    let x : Magnitude := ⟨m, q, narrow⟩
    x.numerator < UInt64.size * x.denominator ↔ q ≤ 11 := by
  intro x
  have hless := h.lt
  constructor
  · intro hlt
    by_contra hq
    have hwhole : x.denominator = 1 := by
      have hnone : (-q).toNat = 0 := by omega
      show 2 ^ (-q).toNat = 1
      rw [hnone, pow_zero]
    have hbits : 2 ^ 52 ≤ m := h.full.resolve_right (by omega)
    have hlarge : UInt64.size ≤ x.numerator := by
      calc UInt64.size = 2 ^ 52 * 2 ^ 12 := rfl
        _ ≤ m * 2 ^ q.toNat :=
          Nat.mul_le_mul hbits (Nat.pow_le_pow_right (by decide) (by omega))
    rw [hwhole] at hlt
    omega
  · intro hq
    have hpower : 2 ^ q.toNat ≤ 2 ^ 11 := Nat.pow_le_pow_right (by decide) (by omega)
    calc x.numerator
      _ ≤ m * 2 ^ 11 := Nat.mul_le_mul_left m hpower
      _ < 2 ^ 53 * 2 ^ 11 := Nat.mul_lt_mul_of_pos_right hless (by decide)
      _ = UInt64.size := rfl
      _ ≤ UInt64.size * x.denominator := Nat.le_mul_of_pos_right _ x.denominator_pos

theorem ofSeconds?_isSome_iff (h : Canonical m q) :
    (ofSeconds? (Float.ofModel (.pack (.finite .positive m q h.pos)))).isSome = true ↔ q ≤ 11 := by
  unfold ofSeconds?
  by_cases hq : q ≤ 971
  · obtain ⟨narrow, hdecode⟩ := h.exists_decode_pack hq false
    change decode (Float.ofModel (.pack (.finite .positive m q h.pos))) = _ at hdecode
    have hlt := numerator_lt_iff h narrow
    rw [hdecode]
    dsimp only
    rw [Bool.false_and, if_neg Bool.false_ne_true]
    split
    · next hless => exact iff_of_true rfl (hlt.mp hless)
    · next hless => exact iff_of_false Bool.false_ne_true (mt hlt.mpr hless)
  · have hinfinite : decode (1.0 / 0.0) = .infinity false := by decide +kernel
    rw [h.pack_of_lt (not_le.mp hq), ← infinite_eq, hinfinite]
    exact iff_of_false Bool.false_ne_true (by omega)

/-- One step in `2 ^ 64` seconds. -/
def slowest : Float :=
  1.0 / 18446744073709551616.0

theorem value_slowest : value slowest = (2 ^ 52 : Nat) * 2 ^ (-116 : Int) :=
  congrArg exactValue
    (rfl : slowest.toModel.unpack = .finite .positive (2 ^ 52) (-116) (by decide))

/-- A double above `slowest` is at least the next one. -/
theorem next_le_of_slowest_lt (h : Canonical m e)
    (hlt : ((2 ^ 52 : Nat) : ℚ) * 2 ^ (-116 : Int) < m * 2 ^ e) :
    ((2 ^ 52 + 1 : Nat) : ℚ) * 2 ^ (-116 : Int) ≤ m * 2 ^ e := by
  have hslowest : Canonical (2 ^ 52) (-116) := ⟨by decide, by decide, by decide, Or.inl le_rfl⟩
  have hnext : Canonical (2 ^ 52 + 1) (-116) := ⟨by decide, by decide, by decide, Or.inl (by decide)⟩
  rcases lt_trichotomy e (-116) with hless | rfl | hmore
  · exact absurd hlt (h.lt_of_exponent_lt hslowest hless).not_gt
  · have hpos := two_zpow_pos (-116)
    have hmantissa : 2 ^ 52 < m := by exact_mod_cast (mul_lt_mul_iff_of_pos_right hpos).mp hlt
    exact mul_le_mul_of_nonneg_right (by exact_mod_cast hmantissa) hpos.le
  · exact (hnext.lt_of_exponent_lt h hmore).le

/-- One over the double after `slowest` is less than `2 ^ 64` by more than rounding takes away. -/
theorem one_div_lt_iff (h : Canonical m e) :
    1 / ((m : ℚ) * 2 ^ e) < (2 ^ 53 - 1 / 2) * 2 ^ (11 : Int) ↔
      ((2 ^ 52 : Nat) : ℚ) * 2 ^ (-116 : Int) < m * 2 ^ e := by
  have hpos := magnitude_pos h.pos e
  have hunit : (2 : ℚ) ^ (-116 : Int) = 1 / 2 ^ 116 := by rw [zpow_neg, zpow_ofNat, one_div]
  rw [one_div_lt hpos (by norm_num)]
  constructor
  · intro hlt
    refine lt_of_le_of_lt ?_ hlt
    rw [hunit]
    norm_num
  · intro hlt
    refine lt_of_lt_of_le ?_ (next_le_of_slowest_lt h hlt)
    rw [hunit]
    norm_num

/-- There is a delay at a positive speed just if it is more than one step in `2 ^ 64` seconds. -/
theorem atSpeed?_isSome_iff (hfinite : x.isFinite = true) (hpos : 0.0 < x) :
    (atSpeed? x).isSome = true ↔ slowest < x := by
  obtain ⟨m, e, h, _, hx⟩ := exists_unpack_of_pos hfinite hpos
  have hvalue : value x = m * 2 ^ e := congrArg exactValue hx
  obtain ⟨m', q, h', hround, hquotient⟩ := exists_one_div_eq hfinite hpos
  unfold atSpeed?
  rw [hquotient, ofSeconds?_isSome_iff h', exponent_le_iff h' hround (by norm_num), hvalue,
    one_div_lt_iff h, lt_iff_value_lt rfl hfinite, hvalue, value_slowest]

end Delay

end GraphReplay
