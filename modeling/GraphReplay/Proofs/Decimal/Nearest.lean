import GraphReplay.Decimal.Literal
import GraphReplay.Proofs.Decimal.Intervals
import GraphReplay.Proofs.Decimal.Packing

/-!
# The double nearest to a decimal

`nearestDouble` reads a decimal either as a quotient or product of two doubles that are both exact,
or as one of whole numbers of any size.  Both ways give the double that the decimal belongs to,
which is infinite when its exponent is past those of doubles (`nearestDouble_eq`).
-/

namespace GraphReplay.Decimal

open Float.Model Float.Model.UnpackedFloat

variable {v : ℚ} {m d k : Nat} {e q : Int}

/-! ## 1. Quotients and products of whole numbers -/

/-- Within this range of exponents a decimal with a negative one is read as a quotient. -/
theorem ofScientific_of_neg (hd : 0 < d) (he : e < 0) (hlow : -(2048 + (d.log2 : Int)) ≤ e) :
    UnpackedFloat.ofScientific Format.binary64 d e =
      UnpackedFloat.div Format.binary64 (.finite .positive d 0 hd)
        (.finite .positive (10 ^ (-e).toNat) 0 (Nat.pow_pos (by decide))) := by
  have hlarge : ¬e > 2 ^ Format.binary64.exponentBits := by
    show ¬e > 2048
    omega
  have hsmall : ¬e < -((2 ^ Format.binary64.exponentBits : Int) + d.log2) := by
    show ¬e < -(2048 + (d.log2 : Int))
    omega
  unfold UnpackedFloat.ofScientific
  rw [dif_neg hd.ne', if_neg hlarge, if_neg hsmall, if_neg (by omega)]

theorem quotient_eq (d : Nat) (he : e < 0) :
    (d * 2 ^ (0 : Int) / ((10 ^ (-e).toNat : Nat) * 2 ^ (0 : Int)) : ℚ) = d * 10 ^ e := by
  have hnat : ((-e).toNat : Int) = -e := by omega
  rw [zpow_zero, mul_one, mul_one, Nat.cast_pow, ← zpow_natCast, hnat, zpow_neg, div_inv_eq_mul]
  rfl

theorem ofScientific_finite (hcanonical : Canonical m q) (hround : RoundsTo (d * 10 ^ e) m q)
    (hd : 0 < d) (hlow : -(2048 + (d.log2 : Int)) ≤ e) (hhigh : e ≤ 2048) :
    UnpackedFloat.ofScientific Format.binary64 d e = .finite .positive m q hcanonical.pos := by
  by_cases hwhole : 0 ≤ e
  · obtain ⟨k, rfl⟩ := Int.eq_ofNat_of_zero_le hwhole
    have hlarge : ¬(k : Int) > 2 ^ Format.binary64.exponentBits := not_lt.mpr hhigh
    have hsmall : ¬(k : Int) < -((2 ^ Format.binary64.exponentBits : Int) + d.log2) := by
      show ¬(k : Int) < -(2048 + (d.log2 : Int))
      omega
    unfold UnpackedFloat.ofScientific
    rw [dif_neg hd.ne', if_neg hlarge, if_neg hsmall, if_pos hwhole]
    refine mul_finite hcanonical ?_ ?_ .positive .positive
    · have hvalue : ((d <<< 53 : Nat) * 2 ^ (-53 : Int) * ((10 ^ k : Nat) * 2 ^ (0 : Int)) : ℚ) =
          d * 10 ^ (k : Int) := by
        rw [Nat.shiftLeft_eq, Nat.cast_mul, mul_assoc (d : ℚ), zpow_natCast]
        norm_num
      rw [← hvalue] at hround
      exact hround
    · show 2 ^ 52 ≤ d <<< 53 * 10 ^ k
      rw [Nat.shiftLeft_eq]
      have hpow : 0 < 10 ^ k := Nat.pow_pos (by decide)
      nlinarith
  · rw [ofScientific_of_neg hd (by omega) hlow]
    rw [← quotient_eq d (by omega)] at hround
    exact div_finite hcanonical hround .positive .positive

/-! ## 2. Quotients and products of exact doubles -/

/-- The double is this number, and it has a mantissa of 53 bits. -/
def IsExactly (x : Float) (v : ℚ) : Prop :=
  ∃ (m : Nat) (e : Int) (hm : 0 < m), 2 ^ 52 ≤ m ∧ (m : ℚ) * 2 ^ e = v ∧
    x.toModel.unpack = .finite .positive m e hm

theorem RoundsTo.exact (m : Nat) (e : Int) : RoundsTo (m * 2 ^ e) m e := by
  have hpos := two_zpow_pos e
  have hhalf : (m : ℚ) * 2 ^ e ≠ ((m : ℚ) - 1 / 2) * 2 ^ e ∧
      (m : ℚ) * 2 ^ e ≠ ((m : ℚ) + 1 / 2) * 2 ^ e := by
    constructor <;> intro heq <;> linarith
  refine ⟨by linarith, fun _ _ => by linarith, by linarith, ?_⟩
  rintro (heq | heq)
  · exact absurd heq hhalf.1
  · exact absurd heq hhalf.2

/-- A whole number of 53 bits at most is a double. -/
theorem isExactly_toFloat (hd : 0 < d) (hless : d < 2 ^ 53) : IsExactly d.toUInt64.toFloat d := by
  have hlog : d.log2 ≤ 52 := log2_le_of_lt hless
  have hbits : 52 - d.log2 + d.log2 = 52 := Nat.sub_add_cancel hlog
  let m := d * 2 ^ (52 - d.log2)
  let e : Int := d.log2 - 52
  have hfull : 2 ^ 52 ≤ m := by
    calc 2 ^ 52 = 2 ^ d.log2 * 2 ^ (52 - d.log2) := by rw [← pow_add, add_comm, hbits]
      _ ≤ m := Nat.mul_le_mul_right _ (Nat.log2_self_le hd.ne')
  have hcanonical : Canonical m e := by
    refine ⟨by omega, ?_, by omega, Or.inl hfull⟩
    calc m < 2 ^ (d.log2 + 1) * 2 ^ (52 - d.log2) :=
          Nat.mul_lt_mul_of_pos_right Nat.lt_log2_self (Nat.pow_pos (by decide))
      _ = 2 ^ 53 := by rw [← pow_add, add_right_comm, add_comm d.log2, hbits]
  have hvalue : (m : ℚ) * 2 ^ e = d := by
    have hpow : (2 : ℚ) ^ (52 - d.log2) * 2 ^ e = 1 := by
      rw [← zpow_natCast, ← zpow_add₀ (by norm_num), Int.natCast_sub hlog]
      show (2 : ℚ) ^ ((52 : Int) - d.log2 + (d.log2 - 52)) = 1
      norm_num
    show ((d * 2 ^ (52 - d.log2) : Nat) : ℚ) * 2 ^ e = d
    push_cast
    rw [mul_assoc, hpow, mul_one]
  have hround : UnpackedFloat.round Format.binary64 .positive d 0 =
      .finite .positive m e hcanonical.pos := by
    have htarget : Format.binary64.targetExponent (totalExponent d 0) = e := by
      rw [targetExponent_binary64]
      unfold totalExponent
      omega
    have hshift : (0 - e).toNat = 52 - d.log2 := by omega
    have hdecrease : decreaseExponent d 0 e = (m, e) := by
      unfold decreaseExponent
      dsimp only
      rw [hshift, Nat.shiftLeft_eq, Prod.mk.injEq]
      exact ⟨rfl, by omega⟩
    unfold UnpackedFloat.round
    dsimp only
    rw [htarget, hdecrease]
    refine roundWithAccuracy_eq hcanonical (RoundsTo.exact m e) ?_ hcanonical.targetExponent.ge _
    rw [mul_div_assoc, div_self (two_zpow_pos e).ne', mul_one]
    exact represents_exact m
  refine ⟨m, e, hcanonical.pos, hfull, hvalue, ?_⟩
  have hnat : d.toUInt64.toNat = d := Nat.mod_eq_of_lt (by omega)
  have hnormalize : UnpackedFloat.ofUInt64 Format.binary64 d.toUInt64 =
      .finite .positive m e hcanonical.pos := by
    unfold UnpackedFloat.ofUInt64 UnpackedFloat.ofNat UnpackedFloat.ofInt UnpackedFloat.normalize
    rw [hnat, Int.compare_eq_gt.mpr (by omega)]
    exact hround
  show unpack Format.binary64 (pack Format.binary64 (UnpackedFloat.ofUInt64 _ _)) = _
  rw [hnormalize]
  exact hcanonical.unpack_pack (by omega) .positive

/-- Whether a double is the power of ten, on a common denominator. -/
def isPowerOfTen (k : Nat) (x : Float) : Bool :=
  match x.toModel.unpack with
  | .finite .positive m e _ =>
    2 ^ 52 ≤ m && (-52 : Int) ≤ e && m * 2 ^ (e + 52).toNat == 10 ^ k * 2 ^ 52
  | _ => false

theorem isExactly_of_isPowerOfTen {x : Float} (h : isPowerOfTen k x = true) :
    IsExactly x (10 ^ k) := by
  unfold isPowerOfTen at h
  split at h
  · next m e hm hunpack =>
    simp only [Bool.and_eq_true, decide_eq_true_eq, beq_iff_eq] at h
    obtain ⟨⟨hfull, hle⟩, hvalue⟩ := h
    refine ⟨m, e, hm, hfull, ?_, hunpack⟩
    have hpow : (2 : ℚ) ^ e * 2 ^ 52 = 2 ^ (e + 52).toNat := by
      rw [← zpow_natCast (2 : ℚ) 52, ← zpow_add₀ (by norm_num), ← zpow_natCast,
        Int.toNat_of_nonneg (by omega)]
      rfl
    have hcast : (m : ℚ) * 2 ^ (e + 52).toNat = 10 ^ k * 2 ^ 52 := by exact_mod_cast hvalue
    rw [← hpow, ← mul_assoc] at hcast
    exact mul_right_cancel₀ (by norm_num) hcast
  · exact nomatch h

theorem isPowerOfTen_table : ∀ i : Fin Float.exactlyRepresentablePowersOfTen.size,
    isPowerOfTen i Float.exactlyRepresentablePowersOfTen[i] = true := by
  decide +kernel

theorem isExactly_powerOfTen (hk : k < Float.exactlyRepresentablePowersOfTen.size) :
    IsExactly Float.exactlyRepresentablePowersOfTen[k] (10 ^ k) :=
  isExactly_of_isPowerOfTen (isPowerOfTen_table ⟨k, hk⟩)

theorem IsExactly.div {x y : Float} {a b : ℚ} (hx : IsExactly x a) (hy : IsExactly y b)
    (hcanonical : Canonical m e) (hround : RoundsTo (a / b) m e) :
    x / y = Float.ofModel (.pack (.finite .positive m e hcanonical.pos)) := by
  obtain ⟨m₁, e₁, h₁, _, rfl, hx⟩ := hx
  obtain ⟨m₂, e₂, h₂, _, rfl, hy⟩ := hy
  show Float.ofModel (.pack (UnpackedFloat.div Format.binary64 x.toModel.unpack y.toModel.unpack)) = _
  rw [hx, hy, div_finite hcanonical hround]
  rfl

theorem IsExactly.mul {x y : Float} {a b : ℚ} (hx : IsExactly x a) (hy : IsExactly y b)
    (hcanonical : Canonical m e) (hround : RoundsTo (a * b) m e) :
    x * y = Float.ofModel (.pack (.finite .positive m e hcanonical.pos)) := by
  obtain ⟨m₁, e₁, h₁, hfull, rfl, hx⟩ := hx
  obtain ⟨m₂, e₂, h₂, _, rfl, hy⟩ := hy
  have hbits : 2 ^ 52 ≤ m₁ * m₂ := hfull.trans (Nat.le_mul_of_pos_right m₁ h₂)
  show Float.ofModel (.pack (UnpackedFloat.mul Format.binary64 x.toModel.unpack y.toModel.unpack)) = _
  rw [hx, hy, mul_finite hcanonical hround hbits]
  rfl

/-! ## 3. Decimals -/

/-- A decimal that is no quotient or product of exact doubles. -/
theorem ofScientific_of_not_exact (h : ¬(d < 2 ^ 53 ∧ e.natAbs ≤ 22)) :
    Float.ofScientific d (decide (e < 0)) e.natAbs =
      Float.ofModel (.pack (UnpackedFloat.ofScientific Format.binary64 d e)) := by
  have hexponent : (if decide (e < 0) = true then Int.negOfNat e.natAbs else Int.ofNat e.natAbs) =
      e := by
    by_cases he : e < 0
    · rw [if_pos (decide_eq_true he), Int.negOfNat_eq, Int.ofNat_eq_natCast]
      omega
    · rw [if_neg (by simpa using he), Int.ofNat_eq_natCast]
      omega
  unfold Float.ofScientific
  rw [dif_neg h]
  dsimp only
  rw [hexponent]
  rfl

theorem ofScientific_eq (hcanonical : Canonical m q) (hround : RoundsTo (d * 10 ^ e) m q)
    (hd : 0 < d) (hlow : -(2048 + (d.log2 : Int)) ≤ e) (hhigh : e ≤ 2048) :
    Float.ofScientific d (decide (e < 0)) e.natAbs =
      Float.ofModel (.pack (.finite .positive m q hcanonical.pos)) := by
  by_cases hexact : d < 2 ^ 53 ∧ e.natAbs ≤ 22
  · obtain ⟨hless, hsmall⟩ := hexact
    have hsize : e.natAbs < Float.exactlyRepresentablePowersOfTen.size := Nat.lt_succ_of_le hsmall
    have hx := isExactly_toFloat hd hless
    have hy := isExactly_powerOfTen hsize
    unfold Float.ofScientific
    rw [dif_pos ⟨hless, hsmall⟩]
    dsimp only
    by_cases he : e < 0
    · have hquotient : (d : ℚ) * 10 ^ e = d / 10 ^ e.natAbs := by
        rw [div_eq_mul_inv, ← zpow_natCast, ← zpow_neg]
        congr 2
        omega
      rw [hquotient] at hround
      rw [if_pos (decide_eq_true he)]
      exact hx.div hy hcanonical hround
    · have hproduct : (d : ℚ) * 10 ^ e = d * 10 ^ e.natAbs := by
        rw [← zpow_natCast]
        congr 2
        omega
      rw [hproduct] at hround
      rw [if_neg (by simpa using he)]
      exact hx.mul hy hcanonical hround
  · rw [ofScientific_of_not_exact hexact, ofScientific_finite hcanonical hround hd hlow hhigh]

theorem RoundsTo.least_le (hround : RoundsTo v m q) (hcanonical : Canonical m q) :
    1 / 2 ^ 1075 ≤ v := by
  have hone : (1 : ℚ) / 2 ≤ m - 1 / 2 := by
    have hcast : (1 : ℚ) ≤ m := by exact_mod_cast hcanonical.pos
    linarith
  calc (1 : ℚ) / 2 ^ 1075 = 1 / 2 * 2 ^ (-1074 : Int) := half_least.symm
    _ ≤ 1 / 2 * 2 ^ q :=
      mul_le_mul_of_nonneg_left (zpow_le_zpow_right₀ (by norm_num) hcanonical.least) (by norm_num)
    _ ≤ (m - 1 / 2) * 2 ^ q := mul_le_mul_of_nonneg_right hone (two_zpow_pos q).le
    _ ≤ v := hround.low

theorem pow_length_toDigits (hd : 0 < d) :
    10 ^ ((Nat.toDigits 10 d).length - 1) ≤ d ∧ d < 10 ^ (Nat.toDigits 10 d).length := by
  have hpos : 0 < (Nat.toDigits 10 d).length := Nat.length_toDigits_pos
  constructor
  · by_cases hone : (Nat.toDigits 10 d).length = 1
    · rw [hone]
      exact hd
    · have hiff := @Nat.length_toDigits_le_iff 10 d ((Nat.toDigits 10 d).length - 1) (by decide)
        (by omega)
      omega
  · exact (Nat.length_toDigits_le_iff (by decide) hpos).mp (Nat.le_refl _)

/-- The number of digits and the power of ten tell the size of a decimal. -/
theorem decimal_bounds (hd : 0 < d) (e : Int) :
    (10 : ℚ) ^ ((Nat.toDigits 10 d).length + e - 1) ≤ d * 10 ^ e ∧
      (d : ℚ) * 10 ^ e < 10 ^ ((Nat.toDigits 10 d).length + e) := by
  obtain ⟨hfirst, hlast⟩ := pow_length_toDigits hd
  have hlength : 0 < (Nat.toDigits 10 d).length := Nat.length_toDigits_pos
  generalize (Nat.toDigits 10 d).length = n at *
  have hten : (0 : ℚ) < 10 ^ e := zpow_pos (by norm_num) e
  constructor
  · have hcast : (10 : ℚ) ^ (n - 1) ≤ d := by exact_mod_cast hfirst
    calc (10 : ℚ) ^ ((n : Int) + e - 1) = 10 ^ (n - 1) * 10 ^ e := by
          rw [← zpow_natCast, ← zpow_add₀ (by norm_num), Nat.cast_sub hlength]
          congr 1
          push_cast
          omega
      _ ≤ d * 10 ^ e := mul_le_mul_of_nonneg_right hcast hten.le
  · have hcast : (d : ℚ) < 10 ^ n := by exact_mod_cast hlast
    calc (d : ℚ) * 10 ^ e < 10 ^ n * 10 ^ e := mul_lt_mul_of_pos_right hcast hten
      _ = 10 ^ ((n : Int) + e) := by rw [zpow_add₀ (by norm_num), zpow_natCast]

/-- A double with too large an exponent is packed as an infinity. -/
theorem Canonical.pack_of_lt (h : Canonical m q) (hq : 971 < q) (sign : Sign) :
    Float.Model.pack (.finite sign m q h.pos) = Float.Model.pack (.infinity sign) := by
  have hlarge : 2 ^ 11 ≤ (q + Format.binary64.exponentBias + (52 : Nat)).toNat + 1 := by
    show 2048 ≤ (q + (1023 : Nat) + (52 : Nat)).toNat + 1
    omega
  have hbits : UnpackedFloat.pack Format.binary64 (.finite sign m q h.pos) =
      UnpackedFloat.pack Format.binary64 (.infinity sign) := by
    unfold UnpackedFloat.pack
    dsimp only
    exact if_pos hlarge
  unfold Float.Model.pack
  rw [Float.Model.mk.injEq, hbits]

theorem two_pow_le_ten_pow {j n : Nat} (hj : j ≤ 3 * n) : (2 : ℚ) ^ j ≤ 10 ^ n := by
  calc (2 : ℚ) ^ j ≤ 2 ^ (3 * n) := pow_le_pow_right₀ (by norm_num) hj
    _ = (2 ^ 3) ^ n := pow_mul 2 3 n
    _ ≤ 10 ^ n := pow_le_pow_left₀ (by norm_num) (by norm_num) n

/-- The rule for decimals far from the range of doubles agrees with their exact values. -/
theorem far_decimal (hd : 0 < d) (e : Int) :
    (((Nat.toDigits 10 d).length : Int) + e < -400 → (d : ℚ) * 10 ^ e < 1 / 2 ^ 1075) ∧
      (400 < ((Nat.toDigits 10 d).length : Int) + e → overflow ≤ d * 10 ^ e) := by
  obtain ⟨hlow, hhigh⟩ := decimal_bounds hd e
  constructor
  · intro hfar
    calc (d : ℚ) * 10 ^ e < 10 ^ ((Nat.toDigits 10 d).length + e) := hhigh
      _ ≤ 10 ^ (-400 : Int) := zpow_le_zpow_right₀ (by norm_num) (by omega)
      _ = 1 / 10 ^ 400 := by rw [zpow_neg, zpow_ofNat, one_div]
      _ ≤ 1 / 2 ^ 1075 :=
        one_div_le_one_div_of_le (by positivity) (two_pow_le_ten_pow (by decide))
  · intro hfar
    calc overflow ≤ 2 ^ 53 * 2 ^ (971 : Int) :=
        mul_le_mul_of_nonneg_right (by norm_num) (two_zpow_pos 971).le
      _ = 2 ^ 1024 := by rw [two_pow_mul_two_zpow]; exact zpow_natCast 2 1024
      _ ≤ 10 ^ 400 := two_pow_le_ten_pow (by decide)
      _ = 10 ^ (400 : Int) := (zpow_ofNat 10 400).symm
      _ ≤ 10 ^ ((Nat.toDigits 10 d).length + e - 1) :=
        zpow_le_zpow_right₀ (by norm_num) (by omega)
      _ ≤ d * 10 ^ e := hlow

theorem length_toDigits_le (d : Nat) : (Nat.toDigits 10 d).length ≤ d.log2 + 1 := by
  rw [Nat.length_toDigits_le_iff (by decide) (Nat.succ_pos _)]
  exact Nat.lt_log2_self.trans_le (Nat.pow_le_pow_left (by decide) _)

theorem infinite_eq : (1.0 / 0.0 : Float) = Float.ofModel (.pack (.infinity .positive)) := by
  decide +kernel

/-- A decimal is read as the double that it belongs to. -/
theorem nearestDouble_eq (hcanonical : Canonical m q) (hround : RoundsTo (d * 10 ^ e) m q) :
    nearestDouble d e = Float.ofModel (.pack (.finite .positive m q hcanonical.pos)) := by
  have hleast := hround.least_le hcanonical
  have hd : 0 < d := by
    apply Nat.pos_of_ne_zero
    rintro rfl
    rw [Nat.cast_zero, zero_mul] at hleast
    exact absurd hleast (not_le.mpr (by positivity))
  have hlength := length_toDigits_le d
  obtain ⟨hsmall, hlarge⟩ := far_decimal hd e
  unfold nearestDouble
  dsimp only
  generalize (Nat.toDigits 10 d).length = n at *
  have hnear : -400 ≤ (n : Int) + e := by
    by_contra hfar
    exact absurd hleast (not_le.mpr (hsmall (by omega)))
  have hguard : (decide (d = 0) || decide ((n : Int) + e < -400)) = false := by
    rw [Bool.or_eq_false_iff, decide_eq_false_iff_not, decide_eq_false_iff_not]
    omega
  rw [hguard, if_neg Bool.false_ne_true]
  by_cases hfar : 400 < (n : Int) + e
  · have hq : 971 < q := by
      by_contra hq
      exact absurd (hlarge hfar) (not_le.mpr ((lt_overflow_iff hcanonical hround).mpr (by omega)))
    rw [if_pos hfar, infinite_eq, hcanonical.pack_of_lt hq]
  · rw [if_neg hfar]
    exact ofScientific_eq hcanonical hround hd (by omega) (by omega)

end GraphReplay.Decimal
