import GraphReplay.Proofs.Graph.Numbering
import GraphReplay.Proofs.Text.Lines

/-!
# The first defect of a text

What a text is read as, told by its lines: which defect each line can have, that the first line with
one decides, and which graph the lines give when none has.  Neither the texts after the first two
tokens of a line nor the lines after the last connection have a part in it.
-/

namespace GraphReplay

namespace Graph

/-! ## 1. Lines that start with two numbers -/

/-- The first two tokens of a line are numerals for `a` and `b`. -/
def StartsWithNumbers (line : String) (a b : Nat) : Prop :=
  ∃ first second rest, Text.tokens line = first :: second :: rest ∧
    Text.IsNumeral first a ∧ Text.IsNumeral second b

theorem numberPair?_eq_some_iff {line : String} {a b : Nat} :
    numberPair? line = some (a, b) ↔ StartsWithNumbers line a b := by
  unfold numberPair? StartsWithNumbers
  simp only [← Text.numeral?_eq_some_iff_isNumeral]
  split
  · next first second rest htokens =>
    rw [htokens]
    constructor
    · intro h
      split at h
      · next m n hm hn =>
        cases h
        exact ⟨first, second, rest, rfl, hm, hn⟩
      · exact nomatch h
    · rintro ⟨first', second', rest', heq, ha, hb⟩
      cases heq
      rw [ha, hb]
  · next hshort =>
    constructor
    · exact nofun
    · rintro ⟨first, second, rest, heq, _, _⟩
      exact absurd heq (hshort first second rest)

theorem numberPair?_eq_none_iff {line : String} :
    numberPair? line = none ↔ ∀ a b, ¬StartsWithNumbers line a b := by
  rw [Option.eq_none_iff_forall_ne_some]
  constructor
  · intro h a b hstarts
    exact h (a, b) (numberPair?_eq_some_iff.mpr hstarts)
  · intro h pair hpair
    exact h pair.1 pair.2 (numberPair?_eq_some_iff.mp hpair)

theorem StartsWithNumbers.unique {line : String} {a b a' b' : Nat} (h : StartsWithNumbers line a b)
    (h' : StartsWithNumbers line a' b') : a = a' ∧ b = b' := by
  have heq := (numberPair?_eq_some_iff.mpr h).symm.trans (numberPair?_eq_some_iff.mpr h')
  cases heq
  exact ⟨rfl, rfl⟩

theorem numberPair?_dropReturn (line : String) :
    numberPair? (Text.dropReturn line) = numberPair? line := by
  unfold numberPair?
  rw [Text.tokens_dropReturn]

theorem readEnds_map_dropReturn (nodeCount edgeCount found : Nat) (lines : List String) :
    readEnds nodeCount edgeCount found (lines.map Text.dropReturn) =
      readEnds nodeCount edgeCount found lines := by
  induction lines generalizing found with
  | nil => rfl
  | cons line lines ih =>
    rw [List.map_cons]
    simp only [readEnds, numberPair?_dropReturn, Text.trim_dropReturn, ih]

/-! ## 2. What a line gives -/

section

variable {lines : List String} {nodeCount edgeCount i found source target : Nat} {e : FormatError}

/-- What can be wrong with line `i` of a graph; the header is line 0. -/
inductive Defect (lines : List String) (nodeCount edgeCount i : Nat) : FormatError → Prop where
  | missing (hline : lines[i]? = none) :
      Defect lines nodeCount edgeCount i (.tooFewLines edgeCount (i - 1))
  | notNumbers {line : String} (hline : lines[i]? = some line)
      (hnone : ∀ source target, ¬StartsWithNumbers line source target) :
      Defect lines nodeCount edgeCount i (.badLine (i + 1) (Text.trim line))
  | source {line : String} {source target : Nat} (hline : lines[i]? = some line)
      (hends : StartsWithNumbers line source target) (hsource : nodeCount ≤ source) :
      Defect lines nodeCount edgeCount i (.nodeOutOfRange (i + 1) source nodeCount)
  | target {line : String} {source target : Nat} (hline : lines[i]? = some line)
      (hends : StartsWithNumbers line source target) (hsource : source < nodeCount)
      (htarget : nodeCount ≤ target) :
      Defect lines nodeCount edgeCount i (.nodeOutOfRange (i + 1) target nodeCount)

/-- Line `i` gives the ends of a connection, and both are nodes. -/
def EndsAt (lines : List String) (nodeCount i source target : Nat) : Prop :=
  (∃ line, lines[i]? = some line ∧ StartsWithNumbers line source target) ∧
    source < nodeCount ∧ target < nodeCount

theorem EndsAt.unique {source' target' : Nat} (h : EndsAt lines nodeCount i source target)
    (h' : EndsAt lines nodeCount i source' target') : source = source' ∧ target = target' := by
  obtain ⟨⟨line, hline, hnumbers⟩, _⟩ := h
  obtain ⟨⟨line', hline', hnumbers'⟩, _⟩ := h'
  rw [hline] at hline'
  cases hline'
  exact hnumbers.unique hnumbers'

theorem defect_or_endsAt (lines : List String) (nodeCount edgeCount i : Nat) :
    (∃ e, Defect lines nodeCount edgeCount i e) ∨
      ∃ source target, EndsAt lines nodeCount i source target := by
  cases hline : lines[i]? with
  | none => exact Or.inl ⟨_, .missing hline⟩
  | some line =>
    cases hpair : numberPair? line with
    | none => exact Or.inl ⟨_, .notNumbers hline (numberPair?_eq_none_iff.mp hpair)⟩
    | some ends =>
      obtain ⟨source, target⟩ := ends
      have hends := numberPair?_eq_some_iff.mp hpair
      by_cases hsource : nodeCount ≤ source
      · exact Or.inl ⟨_, .source hline hends hsource⟩
      · by_cases htarget : nodeCount ≤ target
        · exact Or.inl ⟨_, .target hline hends (Nat.lt_of_not_le hsource) htarget⟩
        · exact Or.inr ⟨source, target, ⟨line, hline, hends⟩, Nat.lt_of_not_le hsource,
            Nat.lt_of_not_le htarget⟩

/-! ## 3. Reading on from a line -/

theorem drop_eq_cons_of_getElem?_eq_some {line : String} (hline : lines[i]? = some line) :
    lines.drop i = line :: lines.drop (i + 1) := by
  obtain ⟨hi, hget⟩ := List.getElem?_eq_some_iff.mp hline
  rw [List.drop_eq_getElem_cons hi, hget]

theorem Defect.readEnds_eq_error (h : Defect lines nodeCount edgeCount (found + 1) e)
    (hfound : found < edgeCount) :
    readEnds nodeCount edgeCount found (lines.drop (found + 1)) = .error e := by
  cases h with
  | missing hline =>
    rw [List.drop_eq_nil_of_le (List.getElem?_eq_none_iff.mp hline), readEnds, if_pos hfound]
    rfl
  | notNumbers hline hnone =>
    rw [drop_eq_cons_of_getElem?_eq_some hline, readEnds, if_pos hfound,
      numberPair?_eq_none_iff.mpr hnone]
  | source hline hends hsource =>
    rw [drop_eq_cons_of_getElem?_eq_some hline, readEnds, if_pos hfound,
      numberPair?_eq_some_iff.mpr hends]
    exact if_pos hsource
  | target hline hends hsource htarget =>
    rw [drop_eq_cons_of_getElem?_eq_some hline, readEnds, if_pos hfound,
      numberPair?_eq_some_iff.mpr hends]
    show (if _ then _ else _) = _
    rw [if_neg (Nat.not_le.mpr hsource), if_pos htarget]

theorem EndsAt.readEnds_eq (h : EndsAt lines nodeCount (found + 1) source target)
    (hfound : found < edgeCount) :
    readEnds nodeCount edgeCount found (lines.drop (found + 1)) =
      (readEnds nodeCount edgeCount (found + 1) (lines.drop (found + 2))).map
        ((source, target) :: ·) := by
  obtain ⟨⟨line, hline, hends⟩, hsource, htarget⟩ := h
  rw [drop_eq_cons_of_getElem?_eq_some hline, readEnds, if_pos hfound,
    numberPair?_eq_some_iff.mpr hends]
  show (if _ then _ else if _ then _ else _) = _
  rw [if_neg (Nat.not_le.mpr hsource), if_neg (Nat.not_le.mpr htarget)]
  cases readEnds nodeCount edgeCount (found + 1) (lines.drop (found + 1 + 1)) with
  | error e => rfl
  | ok ends => rfl

theorem readEnds_of_le (hfound : edgeCount ≤ found) (rest : List String) :
    readEnds nodeCount edgeCount found rest = .ok [] := by
  cases rest with
  | nil =>
    rw [readEnds, if_neg (Nat.not_lt.mpr hfound)]
  | cons line rest =>
    rw [readEnds, if_neg (Nat.not_lt.mpr hfound)]

/-! ## 4. The first defect -/

/-- `e` is a defect of one of the lines `first`, `first + 1`, …, `edgeCount`, and the ones before it
have none. -/
def FirstDefect (lines : List String) (nodeCount edgeCount first : Nat) (e : FormatError) : Prop :=
  ∃ i, first ≤ i ∧ i ≤ edgeCount ∧ Defect lines nodeCount edgeCount i e ∧
    ∀ k, first ≤ k → k < i → ∃ source target, EndsAt lines nodeCount k source target

theorem FirstDefect.readEnds_eq_error (h : FirstDefect lines nodeCount edgeCount (found + 1) e) :
    readEnds nodeCount edgeCount found (lines.drop (found + 1)) = .error e := by
  obtain ⟨i, hfirst, hlast, hdefect, hbefore⟩ := h
  -- The induction goes down from the line with the defect.
  induction hsteps : i - (found + 1) generalizing found with
  | zero =>
    obtain rfl : i = found + 1 := by omega
    exact hdefect.readEnds_eq_error hlast
  | succ steps ih =>
    obtain ⟨source, target, hends⟩ := hbefore (found + 1) (Nat.le_refl _) (by omega)
    have hrest : readEnds nodeCount edgeCount (found + 1) (lines.drop (found + 2)) = .error e := by
      apply ih
      · omega
      · exact fun k hk hki => hbefore k (by omega) hki
      · omega
    rw [hends.readEnds_eq (by omega), hrest]
    rfl

/-- The lines give the ends of the connections when no line has a defect. -/
theorem exists_readEnds_eq_ok (found : Nat)
    (h : ∀ i, found < i → i ≤ edgeCount →
      ∃ source target, EndsAt lines nodeCount i source target) :
    ∃ ends, readEnds nodeCount edgeCount found (lines.drop (found + 1)) = .ok ends ∧
      ends.length = edgeCount - found ∧
      ∀ i source target, found + i < edgeCount →
        EndsAt lines nodeCount (found + i + 1) source target → ends[i]? = some (source, target) := by
  induction hleft : edgeCount - found generalizing found with
  | zero =>
    refine ⟨[], readEnds_of_le (by omega) _, rfl, ?_⟩
    intro i source target hi
    omega
  | succ left ih =>
    obtain ⟨first, second, hends⟩ := h (found + 1) (by omega) (by omega)
    obtain ⟨ends, hread, hlength, hget⟩ :=
      ih (found + 1) (fun i hi hle => h i (by omega) hle) (by omega)
    refine ⟨(first, second) :: ends, ?_, ?_, ?_⟩
    · rw [hends.readEnds_eq (by omega), hread]
      rfl
    · rw [List.length_cons, hlength]
    · intro i source target hi hat
      cases i with
      | zero =>
        obtain ⟨rfl, rfl⟩ := hends.unique hat
        rfl
      | succ i =>
        rw [List.getElem?_cons_succ]
        apply hget i source target (by omega)
        rw [show found + 1 + i + 1 = found + (i + 1) + 1 by omega]
        exact hat

theorem firstDefect_or_endsAt (lines : List String) (nodeCount edgeCount first : Nat) :
    (∃ e, FirstDefect lines nodeCount edgeCount first e) ∨
      ∀ i, first ≤ i → i ≤ edgeCount →
        ∃ source target, EndsAt lines nodeCount i source target := by
  induction hleft : edgeCount + 1 - first generalizing first with
  | zero =>
    right
    intro i hi hle
    omega
  | succ left ih =>
    rcases defect_or_endsAt lines nodeCount edgeCount first with ⟨e, hdefect⟩ | hends
    · refine Or.inl ⟨e, first, Nat.le_refl first, by omega, hdefect, ?_⟩
      intro k hk hlt
      omega
    · -- Line `first` gives ends, so it can be put before the lines that were looked at.
      rcases ih (first + 1) (by omega) with ⟨e, i, hi, hle, hdefect, hbefore⟩ | hall
      · refine Or.inl ⟨e, i, by omega, hle, hdefect, ?_⟩
        intro k hk hlt
        by_cases hkfirst : k = first
        · exact hkfirst ▸ hends
        · exact hbefore k (by omega) hlt
      · right
        intro k hk hle
        by_cases hkfirst : k = first
        · exact hkfirst ▸ hends
        · exact hall k (by omega) hle

theorem readEnds_eq_error_iff (found : Nat) :
    readEnds nodeCount edgeCount found (lines.drop (found + 1)) = .error e ↔
      FirstDefect lines nodeCount edgeCount (found + 1) e := by
  constructor
  · intro hread
    rcases firstDefect_or_endsAt lines nodeCount edgeCount (found + 1) with ⟨e', hfirst⟩ | hall
    · have heq := hfirst.readEnds_eq_error.symm.trans hread
      cases heq
      exact hfirst
    · obtain ⟨ends, hok, _⟩ := exists_readEnds_eq_ok found hall
      rw [hread] at hok
      exact nomatch hok
  · exact FirstDefect.readEnds_eq_error

theorem FirstDefect.exists_defect {first : Nat}
    (h : FirstDefect lines nodeCount edgeCount first e) :
    ∃ i, Defect lines nodeCount edgeCount i e := by
  obtain ⟨i, _, _, hdefect, _⟩ := h
  exact ⟨i, hdefect⟩

end

/-! ## 5. Texts -/

/-- The lines of a text without the blanks around it, each without the carriage return that may end
it. -/
def formatLines (text : String) : List String :=
  (Text.lines (Text.trim text)).map Text.dropReturn

/-- All the characters of a text are blank. -/
def IsBlank (text : String) : Prop :=
  ∀ c ∈ text.toList, Text.isBlank c = true

/-- A text is blank, or its header has no numbers, or the lines after the header decide. -/
theorem read_cases (text : String) (directed : Bool) :
    (IsBlank text ∧ read text directed = .error .blank) ∨
      ¬IsBlank text ∧ ∃ header, (formatLines text)[0]? = some header ∧
        ((∀ nodeCount edgeCount, ¬StartsWithNumbers header nodeCount edgeCount) ∧
            read text directed = .error (.badHeader (Text.trim header)) ∨
          ∃ nodeCount edgeCount, StartsWithNumbers header nodeCount edgeCount ∧
            read text directed =
              (readEnds nodeCount edgeCount 0 ((formatLines text).drop 1)).map
                (ofEnds directed nodeCount)) := by
  unfold IsBlank
  rw [← Text.isEmpty_trim_iff]
  unfold read
  by_cases hblank : (Text.trim text).isEmpty = true
  · exact Or.inl ⟨hblank, if_pos hblank⟩
  · obtain ⟨header, lines, hlines⟩ := List.exists_cons_of_ne_nil (Text.lines_ne_nil (Text.trim text))
    have hformat : formatLines text = Text.dropReturn header :: lines.map Text.dropReturn := by
      unfold formatLines
      rw [hlines]
      rfl
    refine Or.inr ⟨hblank, Text.dropReturn header, by rw [hformat]; rfl, ?_⟩
    simp only [if_neg hblank, hlines, Text.trim_dropReturn]
    cases hpair : numberPair? header with
    | none =>
      left
      rw [← numberPair?_dropReturn] at hpair
      exact ⟨numberPair?_eq_none_iff.mp hpair, rfl⟩
    | some counts =>
      right
      obtain ⟨nodeCount, edgeCount⟩ := counts
      rw [← numberPair?_dropReturn] at hpair
      refine ⟨nodeCount, edgeCount, numberPair?_eq_some_iff.mp hpair, ?_⟩
      have hrest : (formatLines text).drop 1 = lines.map Text.dropReturn := by
        rw [hformat]
        rfl
      rw [hrest, readEnds_map_dropReturn]
      dsimp only
      cases readEnds nodeCount edgeCount 0 lines with
      | error e => rfl
      | ok ends => rfl

section

variable {text header : String} {nodeCount edgeCount : Nat}

theorem not_isBlank_of_startsWithNumbers (hheader : (formatLines text)[0]? = some header)
    (hnumbers : StartsWithNumbers header nodeCount edgeCount) : ¬IsBlank text := by
  intro hblank
  have htrim : Text.trim text = "" := String.isEmpty_iff.mp (Text.isEmpty_trim_iff.mpr hblank)
  have hlines : formatLines text = [""] := by
    unfold formatLines
    rw [htrim]
    rfl
  rw [hlines] at hheader
  cases hheader
  exact numberPair?_eq_none_iff.mp rfl nodeCount edgeCount hnumbers

theorem read_of_header (hheader : (formatLines text)[0]? = some header)
    (hnumbers : StartsWithNumbers header nodeCount edgeCount) (directed : Bool) :
    read text directed =
      (readEnds nodeCount edgeCount 0 ((formatLines text).drop 1)).map
        (ofEnds directed nodeCount) := by
  rcases read_cases text directed with ⟨hblank, _⟩ | ⟨_, first, hfirst, hread⟩
  · exact absurd hblank (not_isBlank_of_startsWithNumbers hheader hnumbers)
  · rw [hheader] at hfirst
    cases hfirst
    rcases hread with ⟨hnone, _⟩ | ⟨nodes, edges, hcounts, hread⟩
    · exact absurd hnumbers (hnone nodeCount edgeCount)
    · obtain ⟨rfl, rfl⟩ := hcounts.unique hnumbers
      exact hread

theorem read_eq_error_iff_firstDefect (hheader : (formatLines text)[0]? = some header)
    (hnumbers : StartsWithNumbers header nodeCount edgeCount) {directed : Bool} {e : FormatError} :
    read text directed = .error e ↔ FirstDefect (formatLines text) nodeCount edgeCount 1 e := by
  have hiff : readEnds nodeCount edgeCount 0 ((formatLines text).drop 1) = .error e ↔
      FirstDefect (formatLines text) nodeCount edgeCount 1 e :=
    readEnds_eq_error_iff 0
  rw [read_of_header hheader hnumbers, ← hiff]
  cases readEnds nodeCount edgeCount 0 ((formatLines text).drop 1) with
  | error e' =>
    show Except.error e' = Except.error e ↔ Except.error e' = Except.error e
    rw [Except.error.injEq, Except.error.injEq]
  | ok ends => exact ⟨nofun, nofun⟩

theorem read_eq_blank_iff {directed : Bool} : read text directed = .error .blank ↔ IsBlank text := by
  rcases read_cases text directed with ⟨hblank, hread⟩ | ⟨hblank, header, hheader, hread⟩
  · exact iff_of_true hread hblank
  · apply iff_of_false _ hblank
    rcases hread with ⟨_, hread⟩ | ⟨nodeCount, edgeCount, hnumbers, _⟩
    · rw [hread]
      exact nofun
    · intro heq
      -- No line has the defect that a blank text has.
      obtain ⟨i, hdefect⟩ :=
        ((read_eq_error_iff_firstDefect hheader hnumbers).mp heq).exists_defect
      exact nomatch hdefect

theorem read_eq_badHeader_iff {directed : Bool} {line : String} :
    read text directed = .error (.badHeader line) ↔
      ¬IsBlank text ∧ ∃ header, (formatLines text)[0]? = some header ∧
        (∀ nodeCount edgeCount, ¬StartsWithNumbers header nodeCount edgeCount) ∧
          line = Text.trim header := by
  rcases read_cases text directed with ⟨hblank, hread⟩ | ⟨hblank, header, hheader, hread⟩
  · rw [hread]
    exact iff_of_false nofun fun h => h.1 hblank
  · rcases hread with ⟨hnone, hread⟩ | ⟨nodeCount, edgeCount, hnumbers, _⟩
    · rw [hread]
      constructor
      · intro heq
        cases heq
        exact ⟨hblank, header, hheader, hnone, rfl⟩
      · rintro ⟨_, header', hheader', _, rfl⟩
        rw [hheader] at hheader'
        cases hheader'
        rfl
    · constructor
      · intro heq
        obtain ⟨i, hdefect⟩ :=
          ((read_eq_error_iff_firstDefect hheader hnumbers).mp heq).exists_defect
        exact nomatch hdefect
      · rintro ⟨_, header', hheader', hnone, _⟩
        rw [hheader] at hheader'
        cases hheader'
        exact absurd hnumbers (hnone nodeCount edgeCount)

/-- The graph that a header with two numbers and the lines after it stand for. -/
structure GivenBy (g : Graph) (directed : Bool) (lines : List String) (nodeCount edgeCount : Nat) :
    Prop where
  mode : g.directed = directed
  nodes : g.nodes = (List.range nodeCount).map Text.numeral
  oneWay : directed = true → g.edges.length = edgeCount ∧
    ∀ i source target, i < edgeCount → EndsAt lines nodeCount (i + 1) source target →
      g.edges[i]? = some ⟨edgeId i, Text.numeral source, Text.numeral target, 0.0, none⟩
  bothWays : directed = false → g.edges.length = 2 * edgeCount ∧
    ∀ i source target, i < edgeCount → EndsAt lines nodeCount (i + 1) source target →
      g.edges[2 * i]? = some ⟨edgeId (2 * i), Text.numeral source, Text.numeral target, 0.0,
        some (pairId (Text.numeral source) (Text.numeral target))⟩ ∧
      g.edges[2 * i + 1]? = some ⟨edgeId (2 * i + 1), Text.numeral target, Text.numeral source, 0.0,
        some (pairId (Text.numeral source) (Text.numeral target))⟩

theorem givenBy_ofEnds (directed : Bool) {lines : List String} {ends : List (Nat × Nat)}
    (hlength : ends.length = edgeCount)
    (hget : ∀ i source target, i < edgeCount → EndsAt lines nodeCount (i + 1) source target →
      ends[i]? = some (source, target)) :
    (ofEnds directed nodeCount ends).GivenBy directed lines nodeCount edgeCount where
  mode := directed_ofEnds directed nodeCount ends
  nodes := nodes_ofEnds directed nodeCount ends
  oneWay := by
    rintro rfl
    constructor
    · rw [length_edges_ofEnds, hlength]
      exact Nat.one_mul edgeCount
    · intro i source target hi hends
      have hrecord := getElem?_edges_ofEnds true nodeCount (hget i source target hi hends)
        (show 0 < 1 by decide)
      rw [show recordCount true * i + 0 = i from Nat.one_mul i] at hrecord
      exact hrecord
  bothWays := by
    rintro rfl
    constructor
    · rw [length_edges_ofEnds, hlength]
      rfl
    · intro i source target hi hends
      have hrecord : ∀ {j}, j < 2 → _ :=
        getElem?_edges_ofEnds false nodeCount (hget i source target hi hends)
      exact ⟨hrecord (j := 0) (by decide), hrecord (j := 1) (by decide)⟩

theorem exists_read_eq_ok (hheader : (formatLines text)[0]? = some header)
    (hnumbers : StartsWithNumbers header nodeCount edgeCount)
    (hall : ∀ i, 1 ≤ i → i ≤ edgeCount →
      ∃ source target, EndsAt (formatLines text) nodeCount i source target) (directed : Bool) :
    ∃ ends, read text directed = .ok (ofEnds directed nodeCount ends) ∧ ends.length = edgeCount ∧
      ∀ i source target, i < edgeCount →
        EndsAt (formatLines text) nodeCount (i + 1) source target →
          ends[i]? = some (source, target) := by
  obtain ⟨ends, hread, hlength, hget⟩ := exists_readEnds_eq_ok 0 hall
  refine ⟨ends, ?_, hlength, ?_⟩
  · rw [read_of_header hheader hnumbers, hread]
    rfl
  · intro i source target hi hends
    rw [← Nat.zero_add i] at hi hends
    exact hget i source target hi hends

/-- The numbers of the header and the ends on the lines that it counts are all that matters. -/
theorem read_eq_of_same_ends {other otherHeader : String} {directed : Bool} {g : Graph}
    (hheader : (formatLines text)[0]? = some header)
    (hnumbers : StartsWithNumbers header nodeCount edgeCount)
    (hotherHeader : (formatLines other)[0]? = some otherHeader)
    (hotherNumbers : StartsWithNumbers otherHeader nodeCount edgeCount)
    (hall : ∀ i, 1 ≤ i → i ≤ edgeCount →
      ∃ source target, EndsAt (formatLines text) nodeCount i source target)
    (hsame : ∀ i source target, 1 ≤ i → i ≤ edgeCount →
      EndsAt (formatLines text) nodeCount i source target →
        EndsAt (formatLines other) nodeCount i source target)
    (hread : read text directed = .ok g) : read other directed = .ok g := by
  obtain ⟨ends, hends, hlength, hget⟩ := exists_read_eq_ok hheader hnumbers hall directed
  have hotherAll : ∀ i, 1 ≤ i → i ≤ edgeCount →
      ∃ source target, EndsAt (formatLines other) nodeCount i source target := by
    intro i hfirst hlast
    obtain ⟨source, target, hat⟩ := hall i hfirst hlast
    exact ⟨source, target, hsame i source target hfirst hlast hat⟩
  obtain ⟨otherEnds, hotherEnds, hotherLength, hotherGet⟩ :=
    exists_read_eq_ok hotherHeader hotherNumbers hotherAll directed
  have heq : otherEnds = ends := by
    apply List.ext_getElem?
    intro i
    by_cases hi : i < edgeCount
    · obtain ⟨source, target, hat⟩ := hall (i + 1) (by omega) (by omega)
      rw [hget i source target hi hat]
      exact hotherGet i source target hi (hsame (i + 1) source target (by omega) (by omega) hat)
    · rw [List.getElem?_eq_none (by omega), List.getElem?_eq_none (by omega)]
  rw [hotherEnds, heq, ← hends, hread]

/-- A text is blank, or its header or the first line after it with a defect decides, or it gives the
graph of its lines. -/
theorem read_by_first_defect (text : String) (directed : Bool) :
    (read text directed = .error .blank ↔ IsBlank text) ∧
      (∀ line, read text directed = .error (.badHeader line) ↔
        ¬IsBlank text ∧ ∃ header, (formatLines text)[0]? = some header ∧
          (∀ nodeCount edgeCount, ¬StartsWithNumbers header nodeCount edgeCount) ∧
            line = Text.trim header) ∧
      ∀ header nodeCount edgeCount, (formatLines text)[0]? = some header →
        StartsWithNumbers header nodeCount edgeCount →
        (∀ e, read text directed = .error e ↔
          FirstDefect (formatLines text) nodeCount edgeCount 1 e) ∧
        ((∀ i, 1 ≤ i → i ≤ edgeCount →
            ∃ source target, EndsAt (formatLines text) nodeCount i source target) →
          ∃ g, read text directed = .ok g ∧
            g.GivenBy directed (formatLines text) nodeCount edgeCount ∧
            -- What else stands on the lines and after them is passed over.
            ∀ other otherHeader, (formatLines other)[0]? = some otherHeader →
              StartsWithNumbers otherHeader nodeCount edgeCount →
              (∀ i source target, 1 ≤ i → i ≤ edgeCount →
                EndsAt (formatLines text) nodeCount i source target →
                  EndsAt (formatLines other) nodeCount i source target) →
              read other directed = .ok g) := by
  refine ⟨read_eq_blank_iff, fun line => read_eq_badHeader_iff, ?_⟩
  intro header nodeCount edgeCount hheader hnumbers
  refine ⟨fun e => read_eq_error_iff_firstDefect hheader hnumbers, ?_⟩
  intro hall
  obtain ⟨ends, hread, hlength, hget⟩ := exists_read_eq_ok hheader hnumbers hall directed
  refine ⟨ofEnds directed nodeCount ends, hread, givenBy_ofEnds directed hlength hget, ?_⟩
  intro other otherHeader hotherHeader hotherNumbers hsame
  exact read_eq_of_same_ends hheader hnumbers hotherHeader hotherNumbers hall hsame hread

/-- Signs, leading zeros, carriage returns, and texts after the numbers and after the last line. -/
theorem read_by_first_defect_of_surplus :
    ∃ g, read "\n +03 2 of\r\n0 1\r\n 2 +1 x\r\n7 7\n" false = .ok g ∧ g.edges.length = 4 ∧
      g.edges[2]? = some ⟨"edge-2", "2", "1", 0.0, some "1-2"⟩ ∧
      g.edges[3]? = some ⟨"edge-3", "1", "2", 0.0, some "1-2"⟩ ∧
      read "3 2\n0 1\n2 1" false = .ok g := by
  have hlines : formatLines "\n +03 2 of\r\n0 1\r\n 2 +1 x\r\n7 7\n" =
      ["+03 2 of", "0 1", " 2 +1 x", "7 7"] := by decide +kernel
  have hplain : formatLines "3 2\n0 1\n2 1" = ["3 2", "0 1", "2 1"] := by decide +kernel
  have hnumbers : StartsWithNumbers "+03 2 of" 3 2 := numberPair?_eq_some_iff.mp (by decide +kernel)
  have hfirst : StartsWithNumbers "0 1" 0 1 := numberPair?_eq_some_iff.mp (by decide +kernel)
  have hsecond : StartsWithNumbers " 2 +1 x" 2 1 :=
    numberPair?_eq_some_iff.mp (by decide +kernel)
  have hplainNumbers : StartsWithNumbers "3 2" 3 2 :=
    numberPair?_eq_some_iff.mp (by decide +kernel)
  have hplainSecond : StartsWithNumbers "2 1" 2 1 :=
    numberPair?_eq_some_iff.mp (by decide +kernel)
  have htheorem :=
    (read_by_first_defect "\n +03 2 of\r\n0 1\r\n 2 +1 x\r\n7 7\n" false).2.2 "+03 2 of" 3 2
  rw [hlines] at htheorem
  have hat₁ : EndsAt ["+03 2 of", "0 1", " 2 +1 x", "7 7"] 3 1 0 1 :=
    ⟨⟨"0 1", rfl, hfirst⟩, by decide, by decide⟩
  have hat₂ : EndsAt ["+03 2 of", "0 1", " 2 +1 x", "7 7"] 3 2 2 1 :=
    ⟨⟨" 2 +1 x", rfl, hsecond⟩, by decide, by decide⟩
  have hlast : ∀ i, 1 ≤ i → i ≤ 2 → i = 1 ∨ i = 2 := by
    intro i hi hle
    omega
  obtain ⟨g, hread, hgiven, hother⟩ := (htheorem rfl hnumbers).2 (by
    intro i hi hle
    rcases hlast i hi hle with rfl | rfl
    · exact ⟨0, 1, hat₁⟩
    · exact ⟨2, 1, hat₂⟩)
  obtain ⟨hlength, hrecords⟩ := hgiven.bothWays rfl
  obtain ⟨hforth, hback⟩ := hrecords 1 2 1 (by decide) hat₂
  refine ⟨g, hread, hlength, hforth, hback, ?_⟩
  apply hother "3 2\n0 1\n2 1" "3 2" (by rw [hplain]; rfl) hplainNumbers
  rw [hplain]
  intro i source target hi hle hat
  rcases hlast i hi hle with rfl | rfl
  · obtain ⟨rfl, rfl⟩ := hat₁.unique hat
    exact ⟨⟨"0 1", rfl, hfirst⟩, by decide, by decide⟩
  · obtain ⟨rfl, rfl⟩ := hat₂.unique hat
    exact ⟨⟨"2 1", rfl, hplainSecond⟩, by decide, by decide⟩

end

end Graph

end GraphReplay
