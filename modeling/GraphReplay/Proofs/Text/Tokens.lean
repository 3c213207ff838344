import GraphReplay.Proofs.Text.Pieces

/-!
# Tokens

The tokens of a text are the words that blanks divide it into: `tokens_eq_iff` says which list of
words this is, without a word on how it is found.  A space between two texts divides their tokens, so
words written with a space between each two are read back as these words.
-/

namespace GraphReplay.Text

/-! ## 1. Words between blanks -/

/-- Characters without a blank among them, at least one. -/
def IsWord (cs : List Char) : Prop :=
  cs ≠ [] ∧ ∀ c ∈ cs, isBlank c = false

theorem isBlank_of_isDigit {c : Char} (h : c.isDigit = true) : isBlank c = false := by
  have hbounds : 48 ≤ c.toNat ∧ c.toNat ≤ 57 := by
    unfold Char.isDigit at h
    rw [Bool.and_eq_true, decide_eq_true_iff, decide_eq_true_iff] at h
    exact h
  unfold isBlank
  simp only [Bool.or_eq_false_iff, Bool.and_eq_false_iff, decide_eq_false_iff_not,
    beq_eq_false_iff_ne]
  omega

/-- The characters are these words in order, with blanks between each two and perhaps at the ends. -/
inductive DividedInto : List Char → List (List Char) → Prop where
  | blank {gap : List Char} (hgap : ∀ c ∈ gap, isBlank c = true) : DividedInto gap []
  | word {gap word rest : List Char} {words : List (List Char)}
      (hgap : ∀ c ∈ gap, isBlank c = true) (hword : IsWord word)
      (hend : ∀ c ∈ rest.head?, isBlank c = true) (hrest : DividedInto rest words) :
      DividedInto (gap ++ (word ++ rest)) (word :: words)

theorem blankSeparated_word {word : List Char} (h : IsWord word) :
    blankSeparated word = [word] := by
  unfold blankSeparated
  rw [splitAtEach_of_forall_not h.2, List.filter_cons_of_pos (by simpa using h.1)]
  rfl

/-- A blank between two texts divides their tokens. -/
theorem blankSeparated_append_cons {c : Char} (hc : isBlank c = true) (as bs : List Char) :
    blankSeparated (as ++ c :: bs) = blankSeparated as ++ blankSeparated bs := by
  unfold blankSeparated
  rw [splitAtEach_append_cons hc, List.filter_append]

theorem DividedInto.blankSeparated_eq {cs : List Char} {words : List (List Char)}
    (h : DividedInto cs words) : blankSeparated cs = words := by
  induction h with
  | blank hgap =>
    have hnil := @blankSeparated_append_blanks [] _ hgap
    rw [List.nil_append] at hnil
    rw [hnil]
    rfl
  | @word gap word rest words hgap hword hend _ ih =>
    rw [blankSeparated_blanks_append hgap]
    cases rest with
    | nil =>
      rw [List.append_nil, blankSeparated_word hword, ← ih]
      rfl
    | cons c rest =>
      have hc : isBlank c = true := hend c rfl
      rw [blankSeparated_cons_blank hc] at ih
      rw [blankSeparated_append_cons hc, blankSeparated_word hword, ih]
      rfl

theorem DividedInto.cons_blank {c : Char} {cs : List Char} {words : List (List Char)}
    (hc : isBlank c = true) (h : DividedInto cs words) : DividedInto (c :: cs) words := by
  have hgap : ∀ {gap : List Char}, (∀ d ∈ gap, isBlank d = true) →
      ∀ d ∈ c :: gap, isBlank d = true :=
    fun hblank => List.forall_mem_cons.mpr ⟨hc, hblank⟩
  cases h with
  | blank hblank => exact .blank (hgap hblank)
  | word hblank hword hend hrest => exact .word (hgap hblank) hword hend hrest

theorem exists_dividedInto (cs : List Char) : ∃ words, DividedInto cs words := by
  induction cs with
  | nil => exact ⟨[], .blank nofun⟩
  | cons c cs ih =>
    obtain ⟨words, h⟩ := ih
    cases hc : isBlank c with
    | true => exact ⟨words, h.cons_blank hc⟩
    | false =>
      have hsingle : IsWord [c] :=
        ⟨List.cons_ne_nil c [], fun d hd => List.mem_singleton.mp hd ▸ hc⟩
      -- The character is a word of its own before a gap, and else the first of the next word.
      cases h with
      | blank hgap =>
        refine ⟨[[c]], @DividedInto.word [] _ _ _ nofun hsingle ?_ (.blank hgap)⟩
        exact fun d hd => hgap d (List.mem_of_mem_head? hd)
      | @word gap word rest words hgap hword hend hrest =>
        cases gap with
        | nil =>
          have hlonger : IsWord (c :: word) :=
            ⟨List.cons_ne_nil c word, List.forall_mem_cons.mpr ⟨hc, hword.2⟩⟩
          exact ⟨(c :: word) :: words, @DividedInto.word [] _ _ _ nofun hlonger hend hrest⟩
        | cons d gap =>
          have hd : ∀ b ∈ some d, isBlank b = true :=
            fun b hb => Option.mem_some_iff.mp hb ▸ hgap d List.mem_cons_self
          exact ⟨[c] :: word :: words,
            @DividedInto.word [] _ _ _ nofun hsingle hd (.word hgap hword hend hrest)⟩

theorem blankSeparated_eq_iff {cs : List Char} {words : List (List Char)} :
    blankSeparated cs = words ↔ DividedInto cs words := by
  constructor
  · rintro rfl
    obtain ⟨words, h⟩ := exists_dividedInto cs
    rw [h.blankSeparated_eq]
    exact h
  · exact DividedInto.blankSeparated_eq

/-! ## 2. Tokens -/

/-- Whether a text can be a token: it has a character, and none of its characters is blank. -/
def IsToken (word : String) : Prop :=
  IsWord word.toList

-- The characters of the text are looked at, and not all characters there are.
instance (word : String) : Decidable (IsToken word) :=
  decidable_of_iff ((!word.toList.isEmpty && word.toList.all (!isBlank ·)) = true) <| by
    simp [IsToken, IsWord]

theorem tokens_eq_iff {s : String} {words : List String} :
    tokens s = words ↔ DividedInto s.toList (words.map String.toList) := by
  rw [← blankSeparated_eq_iff]
  unfold tokens
  constructor
  · rintro rfl
    rw [List.map_map]
    simp [Function.comp_def]
  · intro h
    rw [h, List.map_map]
    simp [Function.comp_def]

theorem isToken_of_mem_tokens {s word : String} (h : word ∈ tokens s) : IsToken word := by
  obtain ⟨cs, hcs, rfl⟩ := List.mem_map.mp h
  obtain ⟨hpiece, hne⟩ := List.mem_filter.mp hcs
  unfold IsToken
  rw [String.toList_ofList]
  exact ⟨by simpa using hne, not_sep_of_mem_splitAtEach hpiece⟩

theorem tokens_of_isToken {word : String} (h : IsToken word) : tokens word = [word] := by
  unfold tokens
  rw [blankSeparated_word h, List.map_singleton, String.ofList_toList]

theorem tokens_append_space (s t : String) : tokens (s ++ " " ++ t) = tokens s ++ tokens t := by
  have hlist : (s ++ " " ++ t).toList = s.toList ++ ' ' :: t.toList := by
    rw [String.toList_append, String.toList_append, List.append_assoc]
    rfl
  unfold tokens
  rw [hlist, blankSeparated_append_cons (by decide), List.map_append]

theorem tokens_intercalate_space (texts : List String) :
    tokens (String.intercalate " " texts) = texts.flatMap tokens := by
  induction texts with
  | nil => rfl
  | cons first texts ih =>
    cases texts with
    | nil => rw [String.intercalate_singleton, List.flatMap_singleton]
    | cons second texts =>
      rw [String.intercalate_cons_cons, tokens_append_space, ih]
      rfl

theorem flatMap_tokens_of_isToken {words : List String} (h : ∀ word ∈ words, IsToken word) :
    words.flatMap tokens = words := by
  induction words with
  | nil => rfl
  | cons word words ih =>
    rw [List.flatMap_cons, tokens_of_isToken (h word List.mem_cons_self),
      ih fun other hother => h other (List.mem_cons_of_mem word hother)]
    rfl

end GraphReplay.Text
