import GraphReplay.Proofs.Decimal.Packing

/-!
# The order of doubles

Finite doubles compare as their exact values do (`lt_iff_value_lt`, `le_iff_value_le`).  The bits are
compared field by field, and this is right because a double writes a value in one way only.
-/

namespace GraphReplay.Decimal

open Float.Model Float.Model.UnpackedFloat

variable {m m' : Nat} {e e' : Int} {x y : Float}

/-! ## 1. Exact values -/

/-- The exact value of a number; 0 for what is no number. -/
def exactValue : UnpackedFloat → ℚ
  | .finite .positive m e _ => m * 2 ^ e
  | .finite .negative m e _ => -(m * 2 ^ e)
  | _ => 0

def value (x : Float) : ℚ :=
  exactValue x.toModel.unpack

theorem magnitude_pos (hm : 0 < m) (e : Int) : (0 : ℚ) < m * 2 ^ e :=
  mul_pos (by exact_mod_cast hm) (two_zpow_pos e)

/-- A finite number as a double writes it. -/
def IsWritten : UnpackedFloat → Prop
  | .zero _ => True
  | .finite _ m e _ => Canonical m e ∧ e ≤ 971
  | _ => False

theorem isWritten_unpack (h : x.isFinite = true) : IsWritten x.toModel.unpack := by
  obtain ⟨negative, magnitude, hdecode⟩ := exists_decode_of_isFinite h
  by_cases hzero : magnitude.significand = 0
  · rw [eq_zero_of_decode hdecode hzero]
    cases negative <;> exact trivial
  · have hpos := Nat.pos_of_ne_zero hzero
    obtain ⟨_, hcanonical, hle, _⟩ := decode_eq_finite hdecode
    rw [eq_ofModel_pack hdecode hpos]
    show IsWritten (unpack Format.binary64 (pack Format.binary64 _))
    rw [(hcanonical hpos).unpack_pack hle]
    exact ⟨hcanonical hpos, hle⟩

/-! ## 2. Comparison -/

theorem Canonical.lt_of_exponent_lt (h : Canonical m e) (h' : Canonical m' e') (hlt : e < e') :
    (m : ℚ) * 2 ^ e < m' * 2 ^ e' := by
  have hless : (m : ℚ) < 2 ^ 53 := by exact_mod_cast h.lt
  have hfull : (2 : ℚ) ^ 52 ≤ m' := by
    have hleast := h.least
    exact_mod_cast h'.full.resolve_right (by omega)
  calc (m : ℚ) * 2 ^ e < 2 ^ 53 * 2 ^ e := mul_lt_mul_of_pos_right hless (two_zpow_pos e)
    _ = 2 ^ (53 + e) := two_pow_mul_two_zpow 53 e
    _ ≤ 2 ^ (52 + e') := zpow_le_zpow_right₀ (by norm_num) (by omega)
    _ = 2 ^ 52 * 2 ^ e' := (two_pow_mul_two_zpow 52 e').symm
    _ ≤ m' * 2 ^ e' := mul_le_mul_of_nonneg_right hfull (two_zpow_pos e').le

/-- The exponents decide first, and the mantissas of equal ones then. -/
theorem Canonical.compare_eq (h : Canonical m e) (h' : Canonical m' e') :
    compare ((m : ℚ) * 2 ^ e) (m' * 2 ^ e') = (compare e e').then (compare m m') := by
  rcases lt_trichotomy e e' with hlt | rfl | hgt
  · rw [compare_lt_iff_lt.mpr hlt]
    exact compare_lt_iff_lt.mpr (h.lt_of_exponent_lt h' hlt)
  · have hpos : (0 : ℚ) < (2 ^ e)⁻¹ := inv_pos.mpr (two_zpow_pos e)
    rw [compare_eq_iff_eq.mpr (rfl : e = e)]
    exact compare_eq_of_mul hpos (mul_inv_cancel_right₀ (two_zpow_pos e).ne' _)
      (mul_inv_cancel_right₀ (two_zpow_pos e).ne' _)
  · rw [compare_gt_iff_gt.mpr hgt]
    exact compare_gt_iff_gt.mpr (h'.lt_of_exponent_lt h hgt)

theorem swap_compare (a b : ℚ) : (compare a b).swap = compare (-a) (-b) := by
  rcases lt_trichotomy a b with hlt | rfl | hgt
  · rw [compare_lt_iff_lt.mpr hlt, compare_gt_iff_gt.mpr (neg_lt_neg hlt)]
    rfl
  · rw [compare_eq_iff_eq.mpr rfl, compare_eq_iff_eq.mpr rfl]
    rfl
  · rw [compare_gt_iff_gt.mpr hgt, compare_lt_iff_lt.mpr (neg_lt_neg hgt)]
    rfl

theorem compare_eq_compare_exactValue {x y : UnpackedFloat} (hx : IsWritten x) (hy : IsWritten y) :
    UnpackedFloat.compare x y = some (compare (exactValue x) (exactValue y)) := by
  cases x with
  | notANumber => exact hx.elim
  | infinity sign => exact hx.elim
  | zero sign =>
    cases y with
    | notANumber => exact hy.elim
    | infinity sign' => exact hy.elim
    | zero sign' => exact congrArg some (compare_eq_iff_eq.mpr rfl).symm
    | finite sign' m' e' hm' =>
      have hpos := magnitude_pos hm' e'
      cases sign' with
      | positive => exact congrArg some (compare_lt_iff_lt.mpr hpos).symm
      | negative => exact congrArg some (compare_gt_iff_gt.mpr (neg_lt_zero.mpr hpos)).symm
  | finite sign m e hm =>
    have hpos := magnitude_pos hm e
    cases y with
    | notANumber => exact hy.elim
    | infinity sign' => exact hy.elim
    | zero sign' =>
      cases sign with
      | positive => exact congrArg some (compare_gt_iff_gt.mpr hpos).symm
      | negative => exact congrArg some (compare_lt_iff_lt.mpr (neg_lt_zero.mpr hpos)).symm
    | finite sign' m' e' hm' =>
      -- Of two signs the minus comes first; of one sign the magnitudes decide.
      have hpos' := magnitude_pos hm' e'
      have hneg : -((m : ℚ) * 2 ^ e) < m' * 2 ^ e' := (neg_lt_zero.mpr hpos).trans hpos'
      have hneg' : -((m' : ℚ) * 2 ^ e') < m * 2 ^ e := (neg_lt_zero.mpr hpos').trans hpos
      have heq := hx.1.compare_eq hy.1
      cases sign with
      | positive =>
        cases sign' with
        | positive => exact congrArg some heq.symm
        | negative => exact congrArg some (compare_gt_iff_gt.mpr hneg').symm
      | negative =>
        cases sign' with
        | positive => exact congrArg some (compare_lt_iff_lt.mpr hneg).symm
        | negative =>
          show some ((compare e e').then (compare m m')).swap = _
          rw [← heq, swap_compare]
          rfl

theorem lt_iff_value_lt (hx : x.isFinite = true) (hy : y.isFinite = true) :
    x < y ↔ value x < value y := by
  have hcompare := compare_eq_compare_exactValue (isWritten_unpack hx) (isWritten_unpack hy)
  refine Iff.trans decide_eq_true_iff ?_
  show (UnpackedFloat.compare _ _ == some .lt) = true ↔ _
  rw [hcompare, beq_iff_eq, Option.some.injEq]
  exact compare_lt_iff_lt

theorem le_iff_value_le (hx : x.isFinite = true) (hy : y.isFinite = true) :
    x ≤ y ↔ value x ≤ value y := by
  have hcompare := compare_eq_compare_exactValue (isWritten_unpack hx) (isWritten_unpack hy)
  refine Iff.trans decide_eq_true_iff ?_
  show (UnpackedFloat.compare _ _).any (·.isLE) = true ↔ _
  rw [hcompare, Option.any_some]
  exact Ordering.isLE_iff_ne_gt.trans compare_le_iff_le

theorem le_self_of_isFinite (hx : x.isFinite = true) : x ≤ x :=
  (le_iff_value_le hx hx).mpr (le_refl _)

theorem le_of_not_lt_of_isFinite (hx : x.isFinite = true) (hy : y.isFinite = true)
    (h : ¬x < y) : y ≤ x := by
  rw [lt_iff_value_lt hx hy, not_lt] at h
  exact (le_iff_value_le hy hx).mpr h

theorem not_lt_of_le_of_isFinite (hx : x.isFinite = true) (hy : y.isFinite = true)
    (h : x ≤ y) : ¬y < x := by
  rw [lt_iff_value_lt hy hx, not_lt]
  exact (le_iff_value_le hx hy).mp h

theorem lt_of_lt_of_le_of_isFinite {z : Float} (hx : x.isFinite = true) (hy : y.isFinite = true)
    (hz : z.isFinite = true) (hxy : x < y) (hyz : y ≤ z) : x < z := by
  rw [lt_iff_value_lt hx hy] at hxy
  rw [le_iff_value_le hy hz] at hyz
  exact (lt_iff_value_lt hx hz).mpr (hxy.trans_le hyz)

theorem compare_of_le (h : x ≤ y) :
    (UnpackedFloat.compare x.toModel.unpack y.toModel.unpack).any (·.isLE) = true :=
  of_decide_eq_true h

/-- What lies between finite doubles is finite. -/
theorem isFinite_of_le_of_le {z : Float} (hx : x.isFinite = true) (hz : z.isFinite = true)
    (hxy : x ≤ y) (hyz : y ≤ z) : y.isFinite = true := by
  have hlow := compare_of_le hxy
  have hhigh := compare_of_le hyz
  have hx := isWritten_unpack hx
  have hz := isWritten_unpack hz
  show y.toModel.unpack.isFinite = true
  cases hy : y.toModel.unpack with
  | zero sign => rfl
  | finite sign m e hm => rfl
  | notANumber =>
    rw [hy] at hhigh
    exact nomatch hhigh
  | infinity sign =>
    -- An infinity is past one of the two ends.
    rw [hy] at hlow hhigh
    cases sign with
    | positive =>
      generalize z.toModel.unpack = u at hz hhigh
      cases u with
      | notANumber => exact hz.elim
      | infinity sign => exact hz.elim
      | zero sign => exact nomatch hhigh
      | finite sign m e hm => exact nomatch hhigh
    | negative =>
      generalize x.toModel.unpack = u at hx hlow
      cases u with
      | notANumber => exact hx.elim
      | infinity sign => exact hx.elim
      | zero sign => exact nomatch hlow
      | finite sign m e hm => cases sign <;> exact nomatch hlow

end GraphReplay.Decimal
