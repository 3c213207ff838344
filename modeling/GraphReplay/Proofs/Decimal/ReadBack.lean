import Mathlib.Data.List.DropRight
import GraphReplay.Decimal.Positional
import GraphReplay.Proofs.Decimal.Nearest
import GraphReplay.Proofs.Text.Tokens

/-!
# Doubles read back

The text of a finite double is read as this double (`readLeading_text`).  The shortest decimal lies
among the values that belong to the double, its digits around a point are a literal of the same
value, and the double that this literal is read as is the one that the value belongs to.
-/

namespace GraphReplay.Decimal

open Text (digitsValue)

/-! ## 1. The shortest decimal -/

def Scaled.value (d : Scaled) : ℚ :=
  d.digits * 10 ^ d.exponent

theorem zpow_mul_pow_neg_toNat {a : ℚ} (ha : a ≠ 0) (e : Int) :
    a ^ e * a ^ (-e).toNat = a ^ e.toNat := by
  rw [← zpow_natCast, ← zpow_natCast, ← zpow_add₀ ha]
  congr 1
  omega

namespace Magnitude

variable {x : Magnitude} {d : Scaled}

theorem compareQuarters_eq (x : Magnitude) (n : Nat) (d : Scaled) :
    x.compareQuarters n d = compare ((n : ℚ) / 4 * 2 ^ x.exponent) d.value := by
  have htwo := @zpow_mul_pow_neg_toNat 2 (by norm_num) x.exponent
  have hten := @zpow_mul_pow_neg_toNat 10 (by norm_num) d.exponent
  symm
  apply compare_eq_of_mul (c := 2 ^ (-x.exponent).toNat * 10 ^ (-d.exponent).toNat * 4)
    (by positivity)
  · calc (n : ℚ) / 4 * 2 ^ x.exponent * (2 ^ (-x.exponent).toNat * 10 ^ (-d.exponent).toNat * 4) =
          n * (2 ^ x.exponent * 2 ^ (-x.exponent).toNat) * 10 ^ (-d.exponent).toNat := by ring
      _ = n * 2 ^ x.exponent.toNat * 10 ^ (-d.exponent).toNat := by rw [htwo]
      _ = _ := by rw [Nat.pow_eq, Nat.pow_eq]; push_cast; rfl
  · calc d.value * (2 ^ (-x.exponent).toNat * 10 ^ (-d.exponent).toNat * 4) =
          d.digits * (10 ^ d.exponent * 10 ^ (-d.exponent).toNat) *
            (4 * 2 ^ (-x.exponent).toNat) := by unfold Scaled.value; ring
      _ = d.digits * 10 ^ d.exponent.toNat * (4 * 2 ^ (-x.exponent).toNat) := by rw [hten]
      _ = _ := by unfold denominator; rw [Nat.pow_eq, Nat.pow_eq]; push_cast; rfl

/-- The lower end is a quarter of a unit away where the double below is nearer. -/
def lowerGap (x : Magnitude) : ℚ :=
  if x.narrowBelow then 1 / 4 else 1 / 2

theorem lowerEnd_eq (hpos : 0 < x.significand) :
    (x.lowerEnd : ℚ) / 4 = x.significand - x.lowerGap := by
  unfold lowerEnd lowerGap
  split
  · rw [Nat.cast_sub (by omega)]
    push_cast
    ring
  · rw [Nat.cast_sub (by omega)]
    push_cast
    ring

theorem upperEnd_eq (x : Magnitude) : (x.upperEnd : ℚ) / 4 = x.significand + 1 / 2 := by
  unfold upperEnd
  push_cast
  ring

theorem between_of_readsBack (hpos : 0 < x.significand) (h : x.readsBack d = true) :
    ((x.significand : ℚ) - x.lowerGap) * 2 ^ x.exponent ≤ d.value ∧
      d.value ≤ ((x.significand : ℚ) + 1 / 2) * 2 ^ x.exponent ∧
      (d.value = ((x.significand : ℚ) - x.lowerGap) * 2 ^ x.exponent ∨
        d.value = ((x.significand : ℚ) + 1 / 2) * 2 ^ x.exponent → x.significand % 2 = 0) := by
  unfold readsBack at h
  rw [compareQuarters_eq, compareQuarters_eq, lowerEnd_eq hpos, upperEnd_eq] at h
  dsimp only at h
  split at h
  · next heven =>
    rw [Bool.and_eq_true, bne_iff_ne, bne_iff_ne, ne_eq, ne_eq, compare_gt_iff_gt,
      compare_lt_iff_lt, not_lt, not_lt] at h
    exact ⟨h.1, h.2, fun _ => heven⟩
  · rw [Bool.and_eq_true, beq_iff_eq, beq_iff_eq, compare_lt_iff_lt, compare_gt_iff_gt] at h
    refine ⟨h.1.le, h.2.le, ?_⟩
    rintro (heq | heq)
    · exact absurd heq h.1.ne'
    · exact absurd heq h.2.ne

theorem roundsTo_of_readsBack (hpos : 0 < x.significand)
    (hnarrow : x.narrowBelow = true ↔ x.significand = 2 ^ 52 ∧ -1074 < x.exponent)
    (h : x.readsBack d = true) : RoundsTo d.value x.significand x.exponent := by
  obtain ⟨hlow, hhigh, htie⟩ := between_of_readsBack hpos h
  have hunit := two_zpow_pos x.exponent
  unfold lowerGap at hlow htie
  by_cases hbelow : x.narrowBelow = true
  · rw [if_pos hbelow] at hlow htie
    have heven : x.significand % 2 = 0 := by
      rw [(hnarrow.mp hbelow).1]
      rfl
    exact ⟨by nlinarith, fun _ _ => hlow, hhigh, fun _ => heven⟩
  · rw [if_neg hbelow] at hlow htie
    exact ⟨hlow, fun hpower hleast => absurd (hnarrow.mpr ⟨hpower, hleast⟩) hbelow, hhigh, htie⟩

theorem readsBack_of_nearestAt {e : Int} (h : x.nearestAt e = some d) : x.readsBack d = true := by
  unfold nearestAt at h
  dsimp only at h
  split at h
  · next hbelow habove =>
    split at h <;> cases h <;> assumption
  · next hbelow _ =>
    cases h
    exact hbelow
  · next habove =>
    cases h
    exact habove
  · exact nomatch h

/-- The last resort of `shortest` is exact: a power of two divides that of ten. -/
theorem value_floorAt_min (x : Magnitude) :
    (x.floorAt (min x.exponent 0)).value = x.significand * 2 ^ x.exponent := by
  have htwo := @zpow_mul_pow_neg_toNat 2 (by norm_num) x.exponent
  have hnone : (min x.exponent 0).toNat = 0 := by omega
  have hplaces : (-min x.exponent 0).toNat = (-x.exponent).toNat := by omega
  have hexponent : min x.exponent 0 = -((-x.exponent).toNat : Int) := by omega
  have hdigits : (x.floorAt (min x.exponent 0)).digits =
      x.significand * 2 ^ x.exponent.toNat * 5 ^ (-x.exponent).toNat := by
    unfold floorAt numerator denominator
    rw [hnone, hplaces]
    simp only [Nat.pow_eq]
    rw [pow_zero, mul_one, show 10 = 5 * 2 from rfl, mul_pow, ← mul_assoc,
      Nat.mul_div_cancel _ (Nat.pow_pos (by decide))]
  have hten : (10 : ℚ) ^ (-x.exponent).toNat = 2 ^ (-x.exponent).toNat * 5 ^ (-x.exponent).toNat := by
    rw [← mul_pow]
    norm_num
  unfold Scaled.value
  rw [hdigits, show (x.floorAt (min x.exponent 0)).exponent = min x.exponent 0 from rfl, hexponent,
    zpow_neg, zpow_natCast, ← div_eq_mul_inv, div_eq_iff (by positivity), hten]
  push_cast
  rw [← htwo]
  ring

/-- The shortest decimal belongs to the double. -/
theorem roundsTo_shortest (hpos : 0 < x.significand)
    (hnarrow : x.narrowBelow = true ↔ x.significand = 2 ^ 52 ∧ -1074 < x.exponent) :
    RoundsTo x.shortest.value x.significand x.exponent := by
  unfold shortest
  dsimp only
  split
  · next d hfound =>
    obtain ⟨e, _, hnear⟩ := List.exists_of_findSome?_eq_some hfound
    exact roundsTo_of_readsBack hpos hnarrow (readsBack_of_nearestAt hnear)
  · rw [value_floorAt_min]
    exact RoundsTo.exact x.significand x.exponent

end Magnitude

/-! ## 2. Digits around a point -/

theorem digitsValue_append (as bs : List Char) :
    digitsValue (as ++ bs) = digitsValue as * 10 ^ bs.length + digitsValue bs := by
  induction bs using List.reverseRecOn with
  | nil => rw [List.append_nil]; exact (Nat.mul_one _).symm
  | append_singleton bs c ih =>
    have hlast : ∀ cs : List Char, digitsValue (cs ++ [c]) =
        10 * digitsValue cs + (c.toNat - '0'.toNat) := by
      intro cs
      unfold digitsValue
      rw [List.foldl_append]
      rfl
    rw [← List.append_assoc, hlast, hlast, ih, List.length_append, List.length_singleton, pow_succ]
    ring

theorem digitsValue_toDigits (n : Nat) : digitsValue (Nat.toDigits 10 n) = n :=
  Nat.ofDigitChars_ten_toDigits

theorem digitsValue_zeros (n : Nat) : digitsValue (List.replicate n '0') = 0 := by
  induction n with
  | zero => rfl
  | succ n ih =>
    rw [List.replicate_succ', digitsValue_append, ih]
    rfl

theorem exists_eq_dropTrailingZeros_append (digits : List Char) :
    ∃ n, digits = dropTrailingZeros digits ++ List.replicate n '0' := by
  let zeros := digits.rtakeWhile (· == '0')
  have hzeros : zeros = List.replicate zeros.length '0' := by
    rw [List.eq_replicate_length]
    intro c hc
    exact eq_of_beq (@List.mem_rtakeWhile_imp _ (· == '0') digits c hc)
  refine ⟨zeros.length, ?_⟩
  rw [← hzeros]
  exact (@List.rdropWhile_append_rtakeWhile _ (· == '0') digits).symm

/-- Digits before a point and digits after it, or without a point when nothing follows it. -/
def pointed (whole fraction : List Char) : List Char :=
  if fraction.isEmpty then whole else whole ++ '.' :: fraction

structure AreDigits (whole fraction : List Char) : Prop where
  nonempty : whole ≠ []
  digits : ∀ c ∈ whole ++ fraction, c.isDigit = true

variable {whole fraction : List Char}

theorem AreDigits.head (h : AreDigits whole fraction) :
    ∀ c ∈ (pointed whole fraction).head?, c.isDigit = true := by
  obtain ⟨c, whole, rfl⟩ := List.exists_cons_of_ne_nil h.nonempty
  have hc := h.digits c List.mem_cons_self
  unfold pointed
  split <;> exact fun _ hfirst => Option.some.inj hfirst ▸ hc

theorem AreDigits.of_mem_pointed (h : AreDigits whole fraction) {c : Char}
    (hc : c ∈ pointed whole fraction) : c.isDigit = true ∨ c = '.' := by
  unfold pointed at hc
  split at hc
  · exact Or.inl (h.digits c (List.mem_append_left _ hc))
  · rcases List.mem_append.mp hc with hwhole | hrest
    · exact Or.inl (h.digits c (List.mem_append_left _ hwhole))
    · rcases List.mem_cons.mp hrest with hpoint | hfraction
      · exact Or.inr hpoint
      · exact Or.inl (h.digits c (List.mem_append_right _ hfraction))

theorem span_digits {digits rest : List Char} (hdigits : ∀ c ∈ digits, c.isDigit = true)
    (hrest : ∀ c ∈ rest.head?, c.isDigit = false) :
    (digits ++ rest).span Char.isDigit = (digits, rest) := by
  rw [List.span_eq_takeWhile_dropWhile, List.takeWhile_append_of_pos hdigits,
    List.dropWhile_append_of_pos hdigits]
  cases rest with
  | nil => rw [List.takeWhile_nil, List.dropWhile_nil, List.append_nil]
  | cons c rest =>
    have hc : ¬c.isDigit = true := by
      rw [hrest c rfl]
      exact Bool.false_ne_true
    rw [List.takeWhile_cons_of_neg hc, List.dropWhile_cons_of_neg hc, List.append_nil]

theorem AreDigits.unsigned?_pointed (h : AreDigits whole fraction) (negative : Bool) :
    unsigned? negative (pointed whole fraction) =
      some (.number negative (digitsValue (whole ++ fraction)) (-(fraction.length : Int))) := by
  have hwhole := fun c hc => h.digits c (List.mem_append_left fraction hc)
  have hfraction := fun c hc => h.digits c (List.mem_append_right whole hc)
  have hparts : ∃ rest, pointed whole fraction = whole ++ rest ∧
      (∀ c ∈ rest.head?, c.isDigit = false) ∧ splitFraction rest = (fraction, []) := by
    cases fraction with
    | nil => exact ⟨[], (List.append_nil whole).symm, nofun, rfl⟩
    | cons c fraction =>
      refine ⟨'.' :: c :: fraction, rfl, fun _ hpoint => Option.some.inj hpoint ▸ rfl, ?_⟩
      have hspan := @span_digits (c :: fraction) [] hfraction nofun
      rwa [List.append_nil] at hspan
  obtain ⟨rest, hpointed, hrest, hsplit⟩ := hparts
  have hsome : (whole ++ fraction).isEmpty = false := by
    rw [List.isEmpty_eq_false_iff]
    exact List.append_ne_nil_of_left_ne_nil h.nonempty _
  unfold unsigned?
  rw [hpointed, span_digits hwhole hrest]
  simp only [hsplit, hsome, exponent?, Option.map_some, zero_sub]
  rfl

theorem splitSign_signText (negative : Bool) {cs : List Char}
    (h : ∀ c ∈ cs.head?, c.isDigit = true) :
    splitSign ((signText negative).toList ++ cs) = (negative, cs) := by
  cases negative with
  | true => rfl
  | false =>
    show splitSign cs = (false, cs)
    unfold splitSign
    split
    · exact absurd (h '-' rfl) (by decide)
    · exact absurd (h '+' rfl) (by decide)
    · rfl

theorem AreDigits.literal?_pointed (h : AreDigits whole fraction) (negative : Bool) :
    literal? ((signText negative).toList ++ pointed whole fraction) =
      some (.number negative (digitsValue (whole ++ fraction)) (-(fraction.length : Int))) := by
  unfold literal?
  rw [splitSign_signText negative h.head]
  dsimp only
  rw [h.unsigned?_pointed negative]
  rfl

/-- The places of a decimal, before zeros at the end are dropped. -/
theorem Scaled.exists_positional (d : Scaled) :
    ∃ whole rest, d.positional = pointed whole (dropTrailingZeros rest) ∧ AreDigits whole rest ∧
      rest.length = (-d.exponent).toNat ∧
      digitsValue (whole ++ rest) = d.digits * 10 ^ d.exponent.toNat := by
  have hdigits : ∀ c ∈ Nat.toDigits 10 d.digits, c.isDigit = true := fun c hc =>
    Nat.isDigit_of_mem_toDigits (by decide) (by decide) hc
  have hvalue := digitsValue_toDigits d.digits
  have hlength : 0 < (Nat.toDigits 10 d.digits).length := Nat.length_toDigits_pos
  have hzeros : ∀ n, ∀ c ∈ List.replicate n '0', c.isDigit = true := by
    intro n c hc
    rw [List.eq_of_mem_replicate hc]
    rfl
  unfold positional
  dsimp only
  generalize Nat.toDigits 10 d.digits = digits at *
  generalize hpoint : (digits.length : Int) + d.exponent = point
  refine ⟨_, _, rfl, ⟨?_, ?_⟩, ?_, ?_⟩
  · split
    · refine List.append_ne_nil_of_left_ne_nil ?_ _
      rw [ne_eq, ← List.length_eq_zero_iff, List.length_take]
      omega
    · exact List.cons_ne_nil _ _
  · have hrest : ∀ c ∈ List.replicate (-point).toNat '0' ++ digits.drop point.toNat,
        c.isDigit = true :=
      List.forall_mem_append.mpr ⟨hzeros _, fun c hc => hdigits c (List.mem_of_mem_drop hc)⟩
    refine List.forall_mem_append.mpr ⟨?_, hrest⟩
    split
    · exact List.forall_mem_append.mpr ⟨fun c hc => hdigits c (List.mem_of_mem_take hc), hzeros _⟩
    · exact hzeros 1
  · rw [List.length_append, List.length_replicate, List.length_drop]
    omega
  · split
    · next hpos =>
      have hnone : (-point).toNat = 0 := by omega
      rw [hnone, List.replicate_zero, List.nil_append]
      by_cases hexponent : 0 ≤ d.exponent
      · rw [List.drop_eq_nil_of_le (by omega), List.take_of_length_le (by omega), List.append_nil,
          digitsValue_append, digitsValue_zeros, hvalue, List.length_replicate, Nat.add_zero]
      · have hzero : d.exponent.toNat = 0 := by omega
        rw [hzero, List.replicate_zero, List.append_nil, List.take_append_drop, hvalue, pow_zero,
          Nat.mul_one]
    · next hpos =>
      have hnone : point.toNat = 0 := by omega
      have hzero : d.exponent.toNat = 0 := by omega
      rw [hnone, hzero, List.drop_zero, digitsValue_append, digitsValue_append, digitsValue_zeros,
        hvalue, Nat.zero_mul, Nat.zero_add, pow_zero, Nat.mul_one]
      exact (congrArg (· + d.digits) (Nat.zero_mul _)).trans (Nat.zero_add _)

/-- A decimal is written as digits around a point that have its value. -/
theorem Scaled.exists_pointed (d : Scaled) :
    ∃ whole fraction, d.positional = pointed whole fraction ∧ AreDigits whole fraction ∧
      (digitsValue (whole ++ fraction) : ℚ) / 10 ^ fraction.length = d.value := by
  obtain ⟨whole, rest, hpositional, ⟨hne, hdigits⟩, hlength, hvalue⟩ := d.exists_positional
  obtain ⟨n, hrest⟩ := exists_eq_dropTrailingZeros_append rest
  have hten := @zpow_mul_pow_neg_toNat 10 (by norm_num) d.exponent
  generalize dropTrailingZeros rest = fraction at *
  subst hrest
  rw [← List.append_assoc] at hdigits hvalue
  refine ⟨whole, fraction, hpositional,
    ⟨hne, fun c hc => hdigits c (List.mem_append_left _ hc)⟩, ?_⟩
  rw [digitsValue_append, digitsValue_zeros, List.length_replicate, Nat.add_zero] at hvalue
  rw [List.length_append, List.length_replicate] at hlength
  have hcast : (digitsValue (whole ++ fraction) : ℚ) * 10 ^ n =
      d.digits * 10 ^ d.exponent.toNat := by exact_mod_cast hvalue
  rw [← hten, ← hlength, pow_add, ← mul_assoc, ← mul_assoc] at hcast
  rw [div_eq_iff (by positivity)]
  exact mul_right_cancel₀ (by positivity) hcast

/-! ## 3. Texts of doubles -/

theorem longestLiteral?_eq {cs : List Char} {l : Literal} (h : literal? cs = some l) :
    longestLiteral? cs = some l := by
  unfold longestLiteral?
  rw [List.range_succ, List.reverse_append, List.reverse_singleton, List.singleton_append,
    List.findSome?_cons, List.take_length, h]

variable {x : Float} {negative : Bool} {magnitude : Magnitude}

/-- A finite double is written as digits around a point, after its sign. -/
theorem exists_text_eq (h : decode x = .finite negative magnitude) :
    ∃ whole fraction, (text x).toList = (signText negative).toList ++ pointed whole fraction ∧
      AreDigits whole fraction ∧
      (digitsValue (whole ++ fraction) : ℚ) / 10 ^ fraction.length =
        if magnitude.significand = 0 then 0 else magnitude.shortest.value := by
  unfold text
  rw [h]
  dsimp only
  rw [String.toList_append, String.toList_ofList]
  split
  · refine ⟨['0'], [], rfl, ⟨List.cons_ne_nil _ _, fun c hc => ?_⟩, ?_⟩
    · rw [List.mem_singleton.mp hc]
      rfl
    · show ((0 : Nat) : ℚ) / 10 ^ 0 = 0
      norm_num
  · obtain ⟨whole, fraction, hpositional, hdigits, hvalue⟩ := magnitude.shortest.exists_pointed
    exact ⟨whole, fraction, congrArg _ hpositional, hdigits, hvalue⟩

theorem isToken_text (h : x.isFinite = true) : Text.IsToken (text x) := by
  obtain ⟨negative, magnitude, hdecode⟩ := exists_decode_of_isFinite h
  obtain ⟨whole, fraction, htext, hdigits, _⟩ := exists_text_eq hdecode
  have hpointed : pointed whole fraction ≠ [] := by
    unfold pointed
    split
    · exact hdigits.nonempty
    · exact List.append_ne_nil_of_left_ne_nil hdigits.nonempty _
  unfold Text.IsToken Text.IsWord
  rw [htext]
  refine ⟨List.append_ne_nil_of_right_ne_nil _ hpointed, List.forall_mem_append.mpr ⟨?_, ?_⟩⟩
  · cases negative with
    | true => exact fun c hc => List.mem_singleton.mp hc ▸ rfl
    | false => exact nofun
  · intro c hc
    rcases hdigits.of_mem_pointed hc with hdigit | rfl
    · exact Text.isBlank_of_isDigit hdigit
    · rfl

theorem neg_ofModel_pack {m : Nat} {e : Int} (h : Canonical m e) (he : e ≤ 971) :
    -Float.ofModel (.pack (.finite .positive m e h.pos)) =
      Float.ofModel (.pack (.finite .negative m e h.pos)) := by
  show Float.ofModel (.pack (Float.Model.UnpackedFloat.neg (Float.Model.UnpackedFloat.unpack
    Float.Model.Format.binary64 (Float.Model.UnpackedFloat.pack _ _)))) = _
  rw [h.unpack_pack he]
  rfl

/-- A literal with the value of a double is this double. -/
theorem value_number {d k : Nat} (h : decode x = .finite negative magnitude)
    (hvalue : (d : ℚ) / 10 ^ k =
      if magnitude.significand = 0 then 0 else magnitude.shortest.value) :
    (Literal.number negative d (-(k : Int))).value = x := by
  obtain ⟨hbits, hcanonical, hexponent, hnarrow⟩ := decode_eq_finite h
  unfold Literal.value
  dsimp only
  by_cases hzero : magnitude.significand = 0
  · rw [if_pos hzero, div_eq_zero_iff, Nat.cast_eq_zero] at hvalue
    have hd : d = 0 := hvalue.resolve_right (by positivity)
    have hnearest : nearestDouble d (-(k : Int)) = 0.0 := by
      unfold nearestDouble
      rw [hd]
      rfl
    have hsmall : ¬2 ^ 52 ≤ 0 := by decide
    rw [hnearest]
    apply eq_of_toNat_bits_eq
    rw [hbits, hzero, if_neg hsmall]
    cases negative <;> decide +kernel
  · have hpos := Nat.pos_of_ne_zero hzero
    rw [if_neg hzero] at hvalue
    have hround := magnitude.roundsTo_shortest hpos hnarrow
    rw [← hvalue, div_eq_mul_inv, ← zpow_natCast, ← zpow_neg] at hround
    have hnearest := nearestDouble_eq (hcanonical hpos) hround
    rw [hnearest, eq_ofModel_pack h hpos]
    cases negative with
    | true => exact neg_ofModel_pack (hcanonical hpos) hexponent
    | false => rfl

/-- A finite double is read from its text. -/
theorem readLeading_text (h : x.isFinite = true) : readLeading (text x) = x := by
  obtain ⟨negative, magnitude, hdecode⟩ := exists_decode_of_isFinite h
  obtain ⟨whole, fraction, htext, hdigits, hvalue⟩ := exists_text_eq hdecode
  have hliteral := hdigits.literal?_pointed negative
  rw [← htext] at hliteral
  unfold readLeading
  rw [longestLiteral?_eq hliteral]
  dsimp only
  rw [value_number hdecode hvalue, if_pos h]

end GraphReplay.Decimal
