import GraphReplay.Proofs.Decimal.ReadBack

/-!
# The language of literals

Which texts are literals, and what they stand for, is a relation, `Denotes`: a sign or none, then a
mantissa and an exponent or none, or one of the three words in any case.  A text is read as a
literal just when it denotes this literal (`literal?_eq_some_iff`).
-/

namespace GraphReplay.Decimal

open Text (digitsValue)

/-! ## 1. Parts of numbers -/

def AllDigits (cs : List Char) : Prop :=
  ∀ c ∈ cs, c.isDigit = true

/-- A sign or nothing, and whether it is a minus sign. -/
inductive IsSign : List Char → Bool → Prop where
  | absent : IsSign [] false
  | plus : IsSign ['+'] false
  | minus : IsSign ['-'] true

/-- A text of digits with at most one point, and the digits before and after the point. -/
inductive IsMantissa : List Char → List Char → List Char → Prop where
  | whole {whole : List Char} (hne : whole ≠ []) (hwhole : AllDigits whole) :
      IsMantissa whole whole []
  | pointed {whole fraction : List Char} (hne : whole ≠ []) (hwhole : AllDigits whole)
      (hfraction : AllDigits fraction) :
      IsMantissa (whole ++ '.' :: fraction) whole fraction
  | fraction {fraction : List Char} (hne : fraction ≠ []) (hfraction : AllDigits fraction) :
      IsMantissa ('.' :: fraction) [] fraction

/-- Nothing, or a mark and a signed run of digits, and the power of ten that this asks for. -/
inductive IsExponent : List Char → Int → Prop where
  | absent : IsExponent [] 0
  | marked {mark : Char} {sign digits : List Char} {negative : Bool}
      (hmark : mark = 'e' ∨ mark = 'E') (hsign : IsSign sign negative)
      (hne : digits ≠ []) (hdigits : AllDigits digits) :
      IsExponent (mark :: (sign ++ digits))
        (if negative then -(digitsValue digits : Int) else digitsValue digits)

/-- What a literal stands for. -/
inductive Denotes : List Char → Literal → Prop where
  | number {sign mantissa whole fraction power : List Char} {negative : Bool} {e : Int}
      (hsign : IsSign sign negative) (hmantissa : IsMantissa mantissa whole fraction)
      (hpower : IsExponent power e) :
      Denotes (sign ++ (mantissa ++ power))
        (.number negative (digitsValue (whole ++ fraction)) (e - fraction.length))
  | infinity {sign word : List Char} {negative : Bool} (hsign : IsSign sign negative)
      (hword : word.map Char.toLower = ['i', 'n', 'f'] ∨
        word.map Char.toLower = ['i', 'n', 'f', 'i', 'n', 'i', 't', 'y']) :
      Denotes (sign ++ word) (.infinity negative)
  | nan {sign word : List Char} {negative : Bool} (hsign : IsSign sign negative)
      (hword : word.map Char.toLower = ['n', 'a', 'n']) :
      Denotes (sign ++ word) .nan

variable {cs rest sign mantissa whole fraction power digits : List Char} {negative : Bool} {e : Int}
  {l : Literal}

/-! ## 2. Signs and exponents -/

theorem exists_isSign_splitSign (cs : List Char) :
    ∃ sign, IsSign sign (splitSign cs).1 ∧ cs = sign ++ (splitSign cs).2 := by
  unfold splitSign
  split
  · exact ⟨['-'], .minus, rfl⟩
  · exact ⟨['+'], .plus, rfl⟩
  · exact ⟨[], .absent, rfl⟩

theorem splitSign_of_head (hrest : ∀ c ∈ rest.head?, c ≠ '-' ∧ c ≠ '+') :
    splitSign rest = (false, rest) := by
  unfold splitSign
  split
  · exact absurd rfl (hrest '-' rfl).1
  · exact absurd rfl (hrest '+' rfl).2
  · rfl

theorem IsSign.splitSign_append (h : IsSign sign negative)
    (hrest : ∀ c ∈ rest.head?, c ≠ '-' ∧ c ≠ '+') :
    splitSign (sign ++ rest) = (negative, rest) := by
  cases h with
  | absent => exact splitSign_of_head hrest
  | plus => rfl
  | minus => rfl

theorem not_sign_of_isDigit {c : Char} (h : c.isDigit = true) : c ≠ '-' ∧ c ≠ '+' := by
  constructor <;> rintro rfl <;> exact absurd h (by decide)

theorem AllDigits.head (h : AllDigits digits) : ∀ c ∈ digits.head?, c ≠ '-' ∧ c ≠ '+' :=
  fun c hc => not_sign_of_isDigit (h c (List.mem_of_mem_head? hc))

theorem exponent?_eq_some_iff : exponent? cs = some e ↔ IsExponent cs e := by
  constructor
  · intro h
    cases cs with
    | nil =>
      cases h
      exact .absent
    | cons mark cs =>
      obtain ⟨sign, hsign, hcs⟩ := exists_isSign_splitSign cs
      simp only [exponent?, Bool.and_eq_true, Bool.or_eq_true, beq_iff_eq, Bool.not_eq_true',
        List.isEmpty_eq_false_iff, List.all_eq_true, Option.ite_none_right_eq_some,
        Option.some.injEq] at h
      obtain ⟨⟨⟨hmark, hne⟩, hdigits⟩, rfl⟩ := h
      have hexponent := IsExponent.marked hmark hsign hne hdigits
      rwa [← hcs] at hexponent
  · intro h
    cases h with
    | absent => rfl
    | marked hmark hsign hne hdigits =>
      have hcheck : ∀ c ∈ _, Char.isDigit c = true := hdigits
      simp [exponent?, hsign.splitSign_append hdigits.head, hmark, hne]
      exact hcheck

theorem IsExponent.head (h : IsExponent power e) :
    ∀ c ∈ power.head?, c.isDigit = false ∧ c ≠ '.' := by
  cases h with
  | absent => exact nofun
  | marked hmark =>
    rintro c hc
    cases hc
    rcases hmark with rfl | rfl <;> decide

/-! ## 3. Numbers -/

theorem unsigned?_append (negative : Bool) (hwhole : AllDigits whole)
    (hhead : ∀ c ∈ rest.head?, c.isDigit = false)
    (hrest : splitFraction rest = (fraction, power)) (hne : whole ++ fraction ≠ []) :
    unsigned? negative (whole ++ rest) =
      (exponent? power).map fun e =>
        .number negative (digitsValue (whole ++ fraction)) (e - fraction.length) := by
  unfold unsigned?
  rw [span_digits hwhole hhead]
  simp only [hrest, List.isEmpty_iff, hne, if_false]

theorem splitFraction_point (hfraction : AllDigits fraction) (hpower : IsExponent power e) :
    splitFraction ('.' :: (fraction ++ power)) = (fraction, power) :=
  span_digits hfraction fun c hc => (hpower.head c hc).1

theorem splitFraction_of_head (hrest : ∀ c ∈ rest.head?, c ≠ '.') :
    splitFraction rest = ([], rest) := by
  unfold splitFraction
  split
  · exact absurd rfl (hrest '.' rfl)
  · rfl

theorem IsMantissa.unsigned?_append (h : IsMantissa mantissa whole fraction)
    (hpower : IsExponent power e) (negative : Bool) :
    unsigned? negative (mantissa ++ power) =
      some (.number negative (digitsValue (whole ++ fraction)) (e - fraction.length)) := by
  have hpoint : ∀ rest : List Char, ∀ c ∈ ('.' :: rest).head?, c.isDigit = false := by
    rintro rest c hc
    cases hc
    rfl
  have hexponent := exponent?_eq_some_iff.mpr hpower
  cases h with
  | whole hne hwhole =>
    have hsplit := splitFraction_of_head fun c hc => (hpower.head c hc).2
    rw [Decimal.unsigned?_append negative hwhole (fun c hc => (hpower.head c hc).1) hsplit
      (by simpa), hexponent]
    rfl
  | pointed hne hwhole hfraction =>
    rw [List.append_assoc, List.cons_append, Decimal.unsigned?_append negative hwhole (hpoint _)
      (splitFraction_point hfraction hpower) (by simp [hne]), hexponent]
    rfl
  | fraction hne hfraction =>
    have hnone : AllDigits [] := nofun
    have hread := Decimal.unsigned?_append negative hnone (hpoint _)
      (splitFraction_point hfraction hpower) (by simpa)
    rw [List.nil_append, hexponent] at hread
    exact hread

/-- The two runs of digits and the point between them are a mantissa, unless there is no digit. -/
theorem exists_isMantissa (cs : List Char)
    (hne : cs.takeWhile Char.isDigit ++ (splitFraction (cs.dropWhile Char.isDigit)).1 ≠ []) :
    ∃ mantissa, IsMantissa mantissa (cs.takeWhile Char.isDigit)
        (splitFraction (cs.dropWhile Char.isDigit)).1 ∧
      cs = mantissa ++ (splitFraction (cs.dropWhile Char.isDigit)).2 := by
  have hdigits : ∀ cs : List Char, AllDigits (cs.takeWhile Char.isDigit) :=
    fun _ _ => List.mem_takeWhile_imp
  have hcs : cs.takeWhile Char.isDigit ++ cs.dropWhile Char.isDigit = cs :=
    List.takeWhile_append_dropWhile
  have hwhole := hdigits cs
  generalize cs.takeWhile Char.isDigit = whole at *
  generalize cs.dropWhile Char.isDigit = rest at *
  subst hcs
  unfold splitFraction at *
  split at *
  · next fraction =>
    rw [List.span_eq_takeWhile_dropWhile] at *
    have hfraction := hdigits fraction
    have hsplit : fraction.takeWhile Char.isDigit ++ fraction.dropWhile Char.isDigit = fraction :=
      List.takeWhile_append_dropWhile
    by_cases hempty : whole = []
    · subst hempty
      exact ⟨_, .fraction hne hfraction, by simp [hsplit]⟩
    · exact ⟨_, .pointed hempty hwhole hfraction, by simp [hsplit]⟩
  · exact ⟨_, .whole (by simpa using hne) hwhole, rfl⟩

theorem exists_of_unsigned? (h : unsigned? negative cs = some l) :
    ∃ mantissa whole fraction power e, IsMantissa mantissa whole fraction ∧ IsExponent power e ∧
      cs = mantissa ++ power ∧
      l = .number negative (digitsValue (whole ++ fraction)) (e - fraction.length) := by
  unfold unsigned? at h
  simp only [List.span_eq_takeWhile_dropWhile, List.isEmpty_iff, Option.ite_none_left_eq_some,
    Option.map_eq_some_iff, exponent?_eq_some_iff] at h
  obtain ⟨hne, e, hpower, rfl⟩ := h
  obtain ⟨mantissa, hmantissa, hcs⟩ := exists_isMantissa cs hne
  exact ⟨mantissa, _, _, _, e, hmantissa, hpower, hcs, rfl⟩

/-! ## 4. Literals -/

theorem IsMantissa.head (h : IsMantissa mantissa whole fraction) :
    ∀ c ∈ (mantissa ++ power).head?, c ≠ '-' ∧ c ≠ '+' := by
  have hdigits : ∀ {digits : List Char} (rest : List Char), digits ≠ [] → AllDigits digits →
      ∀ c ∈ (digits ++ rest).head?, c ≠ '-' ∧ c ≠ '+' := by
    intro digits rest hne hall c hc
    rw [List.head?_append_of_ne_nil _ hne] at hc
    exact hall.head c hc
  cases h with
  | whole hne hwhole => exact hdigits power hne hwhole
  | pointed hne hwhole _ =>
    rw [List.append_assoc]
    exact hdigits _ hne hwhole
  | fraction =>
    intro c hc
    cases hc
    decide

theorem toLower_of_isDigit {c : Char} (h : c.isDigit = true) : c.toLower = c := by
  have hnine : c.val ≤ 57 := by
    unfold Char.isDigit at h
    exact (by simpa using h : 48 ≤ c.val ∧ c.val ≤ 57).2
  unfold Char.toLower
  rw [dif_neg]
  rintro ⟨hupper, _⟩
  exact absurd (UInt32.le_trans hupper hnine) (by decide)

/-- The first letter of a word is neither a sign nor the beginning of a mantissa. -/
theorem letter_of_toLower {c : Char} (h : c.toLower = 'i' ∨ c.toLower = 'n') :
    c.isDigit = false ∧ c ≠ '.' ∧ c ≠ '-' ∧ c ≠ '+' := by
  refine ⟨?_, ?_, ?_, ?_⟩
  · rw [← Bool.not_eq_true]
    intro hdigit
    rw [toLower_of_isDigit hdigit] at h
    rcases h with rfl | rfl <;> exact absurd hdigit (by decide)
  all_goals
    rintro rfl
    exact absurd h (by decide)

theorem exists_letter {word : List Char}
    (h : (word.map Char.toLower).head? = some 'i' ∨ (word.map Char.toLower).head? = some 'n') :
    ∃ c letters, word = c :: letters ∧ (c.toLower = 'i' ∨ c.toLower = 'n') := by
  cases word with
  | nil => simp at h
  | cons c letters => exact ⟨c, letters, rfl, by simpa using h⟩

theorem unsigned?_of_letter {c : Char} (hc : c.isDigit = false ∧ c ≠ '.') (negative : Bool)
    (letters : List Char) : unsigned? negative (c :: letters) = none := by
  have hdigit : ¬c.isDigit = true := by simp [hc.1]
  have hsplit : splitFraction (c :: letters) = ([], c :: letters) :=
    splitFraction_of_head fun d hd => by
      cases hd
      exact hc.2
  unfold unsigned?
  simp only [List.span_eq_takeWhile_dropWhile, List.takeWhile_cons_of_neg hdigit,
    List.dropWhile_cons_of_neg hdigit, hsplit, List.append_nil, List.isEmpty_nil, if_true]

/-- A sign before one of the words. -/
theorem IsSign.literal?_word (hsign : IsSign sign negative) {word : List Char}
    (h : (word.map Char.toLower).head? = some 'i' ∨ (word.map Char.toLower).head? = some 'n') :
    literal? (sign ++ word) = word? negative word := by
  obtain ⟨c, letters, rfl, hc⟩ := exists_letter h
  have hletter := letter_of_toLower hc
  have hsplit := @IsSign.splitSign_append (c :: letters) sign negative hsign fun d hd => by
    cases hd
    exact hletter.2.2
  unfold literal?
  rw [hsplit]
  dsimp only
  rw [unsigned?_of_letter ⟨hletter.1, hletter.2.1⟩]
  rfl

theorem word?_eq_some_iff {word : List Char} :
    word? negative word = some l ↔
      (l = .infinity negative ∧ (word.map Char.toLower = ['i', 'n', 'f'] ∨
        word.map Char.toLower = ['i', 'n', 'f', 'i', 'n', 'i', 't', 'y'])) ∨
      (l = .nan ∧ word.map Char.toLower = ['n', 'a', 'n']) := by
  unfold word?
  dsimp only
  split
  · next hinfinity =>
    have hnan : word.map Char.toLower ≠ ['n', 'a', 'n'] := by
      intro hnan
      rw [hnan] at hinfinity
      exact absurd hinfinity (by decide)
    rw [Bool.or_eq_true, decide_eq_true_eq, decide_eq_true_eq] at hinfinity
    simp [hinfinity, hnan, eq_comm]
  · next hinfinity =>
    rw [Bool.or_eq_true, decide_eq_true_eq, decide_eq_true_eq] at hinfinity
    rw [Option.ite_none_right_eq_some, Option.some_inj]
    simp only [hinfinity, and_false, false_or]
    rw [and_comm, eq_comm]

theorem literal?_eq_some_iff : literal? cs = some l ↔ Denotes cs l := by
  constructor
  · intro h
    obtain ⟨sign, hsign, hcs⟩ := exists_isSign_splitSign cs
    unfold literal? at h
    dsimp only at h
    rw [Option.orElse_eq_some] at h
    rw [hcs]
    rcases h with hnumber | ⟨_, hword⟩
    · obtain ⟨mantissa, whole, fraction, power, e, hmantissa, hpower, hrest, rfl⟩ :=
        exists_of_unsigned? hnumber
      rw [hrest]
      exact .number hsign hmantissa hpower
    · rcases word?_eq_some_iff.mp hword with ⟨rfl, hinfinity⟩ | ⟨rfl, hnan⟩
      · exact .infinity hsign hinfinity
      · exact .nan hsign hnan
  · intro h
    cases h with
    | number hsign hmantissa hpower =>
      unfold literal?
      rw [hsign.splitSign_append hmantissa.head]
      dsimp only
      rw [hmantissa.unsigned?_append hpower]
      rfl
    | infinity hsign hword =>
      rw [hsign.literal?_word (Or.inl (by rcases hword with h | h <;> rw [h] <;> rfl))]
      exact word?_eq_some_iff.mpr (Or.inl ⟨rfl, hword⟩)
    | nan hsign hword =>
      rw [hsign.literal?_word (Or.inr (by rw [hword]; rfl))]
      exact word?_eq_some_iff.mpr (Or.inr ⟨rfl, hword⟩)

end GraphReplay.Decimal
