import Mathlib
import GraphReplay.Proofs.Decimal.Rounding

/-!
# Doubles and their bits

A mantissa and an exponent that are written as a double writes them are packed into 64 bits and
found again in them.  `eq_ofModel_pack` is about the other way: a finite double is packed from the
sign, the significand and the exponent that `decode` finds in it.
-/

namespace GraphReplay.Decimal

open Float.Model Float.Model.UnpackedFloat

variable {m : Nat} {e : Int}

/-! ## 1. Unpacking what was packed -/

theorem toNat_packComponents (sign : Sign) (exponent : BitVec 11) (fraction : BitVec 52) :
    (packComponents Format.binary64 sign exponent fraction).toNat =
      sign.toBitVec.toNat * 2 ^ 63 + exponent.toNat * 2 ^ 52 + fraction.toNat := by
  show (sign.toBitVec ++ exponent ++ fraction).toNat = _
  rw [BitVec.toNat_append, ← Nat.shiftLeft_add_eq_or_of_lt fraction.isLt, BitVec.toNat_append,
    ← Nat.shiftLeft_add_eq_or_of_lt exponent.isLt, Nat.shiftLeft_eq, Nat.shiftLeft_eq]
  omega

theorem unpackSign_packComponents (sign : Sign) (exponent : BitVec 11) (fraction : BitVec 52) :
    @unpackSign Format.binary64 (packComponents Format.binary64 sign exponent fraction) =
      sign.toBitVec := by
  show (sign.toBitVec ++ exponent ++ fraction).extractLsb' 63 1 = _
  rw [BitVec.extractLsb'_append_eq_of_le (by decide), BitVec.extractLsb'_append_eq_of_le (by decide)]
  exact BitVec.extractLsb'_eq_self

theorem ofBitVec_toBitVec (sign : Sign) : Sign.ofBitVec sign.toBitVec = sign := by
  cases sign <;> rfl

theorem toNat_one_append (fraction : BitVec 52) :
    (1#1 ++ fraction).toNat = 2 ^ 52 + fraction.toNat := by
  rw [BitVec.toNat_append, ← Nat.shiftLeft_add_eq_or_of_lt fraction.isLt]
  rfl

theorem unpack_normal (sign : Sign) {exponent : BitVec 11} (fraction : BitVec 52)
    (hones : exponent ≠ -1#11) (hzeros : exponent ≠ 0#11) :
    unpack Format.binary64 (packComponents Format.binary64 sign exponent fraction) =
      .finite sign (1#1 ++ fraction).toNat ((exponent.toNat : Int) - (1023 + 52))
        (toNat_one_append fraction ▸ Nat.add_pos_left (by decide) _) := by
  have hsign := unpackSign_packComponents sign exponent fraction
  unfold UnpackedFloat.unpack
  simp only [unpackMantissa_packComponents, unpackExponent_packComponents, hsign, ofBitVec_toBitVec,
    if_neg hones, if_neg hzeros]
  rfl

theorem unpack_subnormal (sign : Sign) {fraction : BitVec 52} (hpos : 0 < fraction.toNat) :
    unpack Format.binary64 (packComponents Format.binary64 sign 0#11 fraction) =
      .finite sign fraction.toNat (-1074) hpos := by
  have hsign := unpackSign_packComponents sign 0#11 fraction
  have hne : fraction ≠ 0#52 := by
    rintro rfl
    exact absurd hpos (by decide)
  have hones : (0#11 : BitVec 11) ≠ -1#11 := by decide
  unfold UnpackedFloat.unpack
  simp only [unpackMantissa_packComponents, unpackExponent_packComponents, hsign, ofBitVec_toBitVec]
  rw [if_neg hones, if_pos trivial, dif_neg hne]
  rfl

theorem Canonical.pack_eq (h : Canonical m e) (he : e ≤ 971) (sign : Sign) :
    pack Format.binary64 (.finite sign m e h.pos) =
      if 2 ^ 52 ≤ m then
        packComponents Format.binary64 sign (BitVec.ofNat 11 (e + 1075).toNat) (BitVec.ofNat 52 m)
      else packComponents Format.binary64 sign 0#11 (BitVec.ofNat 52 m) := by
  obtain ⟨hm, hless, hleast, hfull⟩ := h
  have hbiased : (e + Format.binary64.exponentBias + (52 : Nat)).toNat = (e + 1075).toNat := by
    show (e + (1023 : Nat) + (52 : Nat)).toNat = _
    congr 1
    omega
  have hsmall : ¬2 ^ 11 ≤ (e + 1075).toNat + 1 := by omega
  unfold UnpackedFloat.pack
  dsimp only
  rw [hbiased, if_neg hsmall]
  by_cases hnormal : 2 ^ 52 ≤ m
  · have hlog : m.log2 + 1 = Format.binary64.mantissaBits := by
      have hle := log2_le_of_lt hless
      have hge := (Nat.le_log2 hm.ne').mpr hnormal
      show m.log2 + 1 = 1 + 52
      omega
    rw [if_pos hlog, if_pos hnormal]
  · have hlog : ¬m.log2 + 1 = Format.binary64.mantissaBits := by
      have hlt := (Nat.log2_lt hm.ne').mpr (not_le.mp hnormal)
      show ¬m.log2 + 1 = 1 + 52
      omega
    rw [if_neg hlog, if_neg hnormal]

theorem Canonical.unpack_pack (h : Canonical m e) (he : e ≤ 971) (sign : Sign) :
    unpack Format.binary64 (pack Format.binary64 (.finite sign m e h.pos)) =
      .finite sign m e h.pos := by
  rw [h.pack_eq he]
  obtain ⟨hm, hless, hleast, hfull⟩ := h
  split
  · next hnormal =>
    have hexponent : (BitVec.ofNat 11 (e + 1075).toNat).toNat = (e + 1075).toNat :=
      Nat.mod_eq_of_lt (by omega)
    have hfraction : (BitVec.ofNat 52 m).toNat = m % 2 ^ 52 := BitVec.toNat_ofNat m 52
    generalize BitVec.ofNat 11 (e + 1075).toNat = exponent at *
    generalize BitVec.ofNat 52 m = fraction at *
    have hones : exponent ≠ -1#11 := by
      rintro rfl
      change 2047 = (e + 1075).toNat at hexponent
      omega
    have hzeros : exponent ≠ 0#11 := by
      rintro rfl
      change 0 = (e + 1075).toNat at hexponent
      omega
    rw [unpack_normal sign fraction hones hzeros]
    congr 1
    · rw [toNat_one_append, hfraction]
      omega
    · rw [hexponent]
      omega
  · next hnormal =>
    have hfraction : (BitVec.ofNat 52 m).toNat = m := Nat.mod_eq_of_lt (not_le.mp hnormal)
    rw [unpack_subnormal sign (hfraction.symm ▸ hm)]
    congr 1
    exact (hfull.resolve_left hnormal).symm

/-! ## 2. Packing what was decoded -/

theorem Canonical.toNat_pack (h : Canonical m e) (he : e ≤ 971) (sign : Sign) :
    (pack Format.binary64 (.finite sign m e h.pos)).toNat =
      sign.toBitVec.toNat * 2 ^ 63 +
        if 2 ^ 52 ≤ m then (e + 1075).toNat * 2 ^ 52 + (m - 2 ^ 52) else m := by
  have hless := h.lt
  have hexponent : (BitVec.ofNat 11 (e + 1075).toNat).toNat = (e + 1075).toNat :=
    Nat.mod_eq_of_lt (by omega)
  have hfraction : (BitVec.ofNat 52 m).toNat = m % 2 ^ 52 := BitVec.toNat_ofNat m 52
  rw [h.pack_eq he]
  split
  · rw [toNat_packComponents, hexponent, hfraction]
    omega
  · rw [toNat_packComponents, hfraction]
    show _ + 0 * 2 ^ 52 + _ = _
    omega

/-- The fields of a finite double, and what `decode` makes of them. -/
theorem exists_fields_of_decode {x : Float} {negative : Bool} {magnitude : Magnitude}
    (h : decode x = .finite negative magnitude) :
    ∃ field fraction : Nat, field < 2047 ∧ fraction < 2 ^ 52 ∧
      x.toBits.toNat = (if negative then 1 else 0) * 2 ^ 63 + field * 2 ^ 52 + fraction ∧
      magnitude =
        if field = 0 then ⟨fraction, -1074, false⟩
        else ⟨2 ^ 52 + fraction, field - 1075, fraction == 0 && decide (1 < field)⟩ := by
  have hbits : x.toBits.toNat < 2 ^ 64 := x.toBits.toNat_lt
  unfold decode at h
  dsimp only at h
  generalize x.toBits.toNat = bits at *
  have hsign : ((if (bits / 2 ^ 63 == 1) = true then 1 else 0) : Nat) = bits / 2 ^ 63 := by
    by_cases hone : bits / 2 ^ 63 = 1
    · rw [hone]
      rfl
    · rw [if_neg (by rw [beq_iff_eq]; exact hone)]
      omega
  have hparts : bits = (if (bits / 2 ^ 63 == 1) = true then 1 else 0) * 2 ^ 63 +
      bits / 2 ^ 52 % 2 ^ 11 * 2 ^ 52 + bits % 2 ^ 52 := by
    rw [hsign]
    omega
  refine ⟨bits / 2 ^ 52 % 2 ^ 11, bits % 2 ^ 52, ?_⟩
  split at h
  · split at h <;> exact nomatch h
  · next hfield =>
    change ¬bits / 2 ^ 52 % 2 ^ 11 = 2047 at hfield
    split at h
    · next hzero =>
      cases h
      exact ⟨by omega, Nat.mod_lt _ (by decide), hparts, (if_pos hzero).symm⟩
    · next hnormal =>
      cases h
      exact ⟨by omega, Nat.mod_lt _ (by decide), hparts, (if_neg hnormal).symm⟩

/-- What `decode` finds in a finite double is written as a double writes it. -/
theorem decode_eq_finite {x : Float} {negative : Bool} {magnitude : Magnitude}
    (h : decode x = .finite negative magnitude) :
    (x.toBits.toNat = (if negative then 1 else 0) * 2 ^ 63 +
      if 2 ^ 52 ≤ magnitude.significand then
        (magnitude.exponent + 1075).toNat * 2 ^ 52 + (magnitude.significand - 2 ^ 52)
      else magnitude.significand) ∧
    (0 < magnitude.significand → Canonical magnitude.significand magnitude.exponent) ∧
    magnitude.exponent ≤ 971 ∧
    (magnitude.narrowBelow = true ↔ magnitude.significand = 2 ^ 52 ∧ -1074 < magnitude.exponent) := by
  obtain ⟨field, fraction, hfield, hfraction, hbits, rfl⟩ := exists_fields_of_decode h
  rw [hbits]
  generalize (if negative = true then 1 else 0 : Nat) = sign
  by_cases hzero : field = 0
  · rw [if_pos hzero]
    dsimp only
    rw [if_neg (by omega)]
    refine ⟨by omega, fun hpos => ⟨hpos, by omega, Int.le_refl _, Or.inr rfl⟩, by omega, ?_⟩
    exact iff_of_false Bool.false_ne_true (by omega)
  · rw [if_neg hzero]
    dsimp only
    rw [if_pos (by omega), Bool.and_eq_true, beq_iff_eq, decide_eq_true_iff]
    exact ⟨by omega, fun _ => ⟨by omega, by omega, by omega, Or.inl (by omega)⟩, by omega, by omega⟩

theorem toNat_unpackExponent (bits : BitVec 64) :
    (@unpackExponent Format.binary64 bits).toNat = bits.toNat / 2 ^ 52 % 2 ^ 11 := by
  show (bits.extractLsb' 52 11).toNat = _
  rw [BitVec.extractLsb'_toNat, Nat.shiftRight_eq_div_pow]

theorem exists_decode_of_isFinite {x : Float} (h : x.isFinite = true) :
    ∃ negative magnitude, decode x = .finite negative magnitude := by
  have hfield := toNat_unpackExponent x.toBits.toBitVec
  have hne : @unpackExponent Format.binary64 x.toBits.toBitVec ≠ -1#11 := by
    intro hones
    change (unpack Format.binary64 x.toBits.toBitVec).isFinite = true at h
    unfold UnpackedFloat.unpack at h
    dsimp only at h
    rw [if_pos hones] at h
    split at h <;> exact nomatch h
  have hfinite : ¬x.toBits.toNat / Nat.pow 2 52 % Nat.pow 2 11 = 2047 := by
    intro hones
    exact hne (BitVec.eq_of_toNat_eq (hfield.trans hones))
  unfold decode
  dsimp only
  rw [if_neg hfinite]
  split
  · exact ⟨_, _, rfl⟩
  · exact ⟨_, _, rfl⟩

def signOf (negative : Bool) : Sign :=
  if negative then .negative else .positive

theorem toNat_signOf (negative : Bool) :
    (signOf negative).toBitVec.toNat = if negative then 1 else 0 := by
  cases negative <;> rfl

theorem eq_of_toNat_bits_eq {x y : Float} (h : x.toBits.toNat = y.toBits.toNat) : x = y := by
  obtain ⟨⟨bits, hbits⟩⟩ := x
  obtain ⟨⟨bits', hbits'⟩⟩ := y
  have heq : bits = bits' := UInt64.toNat_inj.mp h
  subst heq
  rfl

theorem eq_ofModel_pack {x : Float} {negative : Bool} {magnitude : Magnitude}
    (h : decode x = .finite negative magnitude) (hpos : 0 < magnitude.significand) :
    x = Float.ofModel (.pack
      (.finite (signOf negative) magnitude.significand magnitude.exponent hpos)) := by
  obtain ⟨hbits, hcanonical, hle, _⟩ := decode_eq_finite h
  apply eq_of_toNat_bits_eq
  rw [hbits, ← toNat_signOf]
  exact ((hcanonical hpos).toNat_pack hle (signOf negative)).symm

theorem eq_zero_of_decode {x : Float} {negative : Bool} {magnitude : Magnitude}
    (h : decode x = .finite negative magnitude) (hzero : magnitude.significand = 0) :
    x = if negative then -0.0 else 0.0 := by
  obtain ⟨hbits, _⟩ := decode_eq_finite h
  rw [hzero, if_neg (show ¬2 ^ 52 ≤ 0 by decide)] at hbits
  apply eq_of_toNat_bits_eq
  rw [hbits]
  cases negative <;> rfl

/-- What was packed is decoded again. -/
theorem Canonical.exists_decode_pack (h : Canonical m e) (he : e ≤ 971) (negative : Bool) :
    ∃ narrow, decode (Float.ofModel (.pack (.finite (signOf negative) m e h.pos))) =
      .finite negative ⟨m, e, narrow⟩ := by
  have hunpack := h.unpack_pack he (signOf negative)
  have hfinite : (Float.ofModel (.pack (.finite (signOf negative) m e h.pos))).isFinite = true := by
    show (unpack Format.binary64 (pack Format.binary64 _)).isFinite = true
    rw [hunpack]
    rfl
  obtain ⟨negative', ⟨m', e', narrow⟩, hdecode⟩ := exists_decode_of_isFinite hfinite
  obtain ⟨_, hcanonical, he', _⟩ := decode_eq_finite hdecode
  have hpos : 0 < m' := by
    apply Nat.pos_of_ne_zero
    intro hzero
    have hx := congrArg (fun x => x.toModel.unpack) (eq_zero_of_decode hdecode hzero)
    change unpack Format.binary64 (pack Format.binary64 _) = _ at hx
    rw [hunpack] at hx
    cases negative' <;> exact nomatch hx
  -- Both ways of writing the bits are unpacked, and give the same number.
  have hx := congrArg (fun x => x.toModel.unpack) (eq_ofModel_pack hdecode hpos)
  change unpack Format.binary64 (pack Format.binary64 _) =
    unpack Format.binary64 (pack Format.binary64 _) at hx
  rw [hunpack, (hcanonical hpos).unpack_pack he'] at hx
  injection hx with hsign hm he
  subst hm he
  have hnegative : negative = negative' := by
    cases negative <;> cases negative' <;> first | rfl | exact nomatch hsign
  subst hnegative
  exact ⟨narrow, hdecode⟩

end GraphReplay.Decimal
