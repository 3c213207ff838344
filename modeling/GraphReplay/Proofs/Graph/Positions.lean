import GraphReplay.Proofs.Graph.Defects
import GraphReplay.Proofs.Text.Pieces

/-!
# Where a defect stands

The line numbers of format errors are counted in the text without the blanks around it.  A line feed
before the header is one of these blanks, so a number falls short of the line in the text as given by
the line feeds that lead the text.  `positions_of_defects` says where the line stands, and in which
texts the number tells it all the same.
-/

namespace GraphReplay

namespace Text

/-- The number of line feeds among the blanks that a text begins with. -/
def leadingFeeds (s : String) : Nat :=
  (s.toList.takeWhile isBlank).count '\n'

/-- Trimmed, the lines of a text are those of its trimmed form between empty ones. -/
theorem map_trim_lines_trim (s : String) :
    ∃ more, (lines s).map trim =
      List.replicate (leadingFeeds s) "" ++ ((lines (trim s)).map trim ++ List.replicate more "") := by
  obtain ⟨after, hafter, hs⟩ := exists_trailing s.toList
  refine ⟨after.count '\n', ?_⟩
  have htrim : (trim s).toList = trimBlanks s.toList := String.toList_ofList
  rw [map_trim_lines, map_trim_lines, htrim]
  rw [List.append_assoc] at hs
  have hlines := congrArg trimmedLines hs
  rw [trimmedLines_blanks_append fun c hc => blank_of_mem_takeWhile hc,
    trimmedLines_append_blanks hafter] at hlines
  rw [hlines, List.map_append, List.map_append, List.map_replicate, List.map_replicate]
  rfl

end Text

namespace Graph

variable {text header line : String} {nodeCount edgeCount i n : Nat} {e : FormatError}

/-! ## 1. Lines as given -/

theorem StartsWithNumbers.of_trim_eq {other : String} {a b : Nat} (h : StartsWithNumbers line a b)
    (htrim : Text.trim other = Text.trim line) : StartsWithNumbers other a b := by
  unfold StartsWithNumbers at h ⊢
  rw [Text.tokens_eq_of_trim_eq htrim]
  exact h

theorem map_trim_formatLines (text : String) :
    (formatLines text).map Text.trim = (Text.lines (Text.trim text)).map Text.trim := by
  unfold formatLines
  rw [List.map_map]
  exact List.map_congr_left fun line _ => Text.trim_dropReturn line

/-- Line `n` of a text as given, counted from one, without the blanks around it. -/
def lineAt? (text : String) (n : Nat) : Option String :=
  if n = 0 then none else ((Text.lines text).map Text.trim)[n - 1]?

/-- A line of the format stands in the text as given past the leading line feeds. -/
theorem lineAt?_of_formatLines (hline : (formatLines text)[i]? = some line) :
    lineAt? text (Text.leadingFeeds text + (i + 1)) = some (Text.trim line) := by
  obtain ⟨more, hlines⟩ := Text.map_trim_lines_trim text
  rw [← map_trim_formatLines] at hlines
  have hi : i < ((formatLines text).map Text.trim).length := by
    rw [List.length_map]
    exact (List.getElem?_eq_some_iff.mp hline).1
  unfold lineAt?
  rw [if_neg (by omega), hlines, List.getElem?_append_right (by rw [List.length_replicate]; omega),
    List.length_replicate, ← Nat.add_assoc, Nat.add_sub_cancel, Nat.add_sub_cancel_left,
    List.getElem?_append_left hi, List.getElem?_map, hline]
  rfl

theorem lineAt?_of_le (hpos : 1 ≤ n) (hn : n ≤ Text.leadingFeeds text) :
    lineAt? text n = some "" := by
  obtain ⟨more, hlines⟩ := Text.map_trim_lines_trim text
  have hlt : n - 1 < Text.leadingFeeds text := by omega
  unfold lineAt?
  rw [if_neg (by omega), hlines,
    List.getElem?_append_left (by rw [List.length_replicate]; exact hlt),
    List.getElem?_replicate_of_lt hlt]

/-! ## 2. The line that an error is about -/

/-- Line `n` of a text as given starts with two numbers, and `node` is one of them. -/
def NamesAt (text : String) (n node : Nat) : Prop :=
  ∃ line ∈ lineAt? text n, ∃ a b, StartsWithNumbers line a b ∧ (node = a ∨ node = b)

theorem namesAt_iff {a b node : Nat} (hline : lineAt? text n = some line)
    (hnumbers : StartsWithNumbers line a b) : NamesAt text n node ↔ node = a ∨ node = b := by
  unfold NamesAt
  rw [hline]
  constructor
  · rintro ⟨line', hline', a', b', hnumbers', hnode⟩
    cases hline'
    obtain ⟨rfl, rfl⟩ := hnumbers'.unique hnumbers
    exact hnode
  · intro hnode
    exact ⟨line, rfl, a, b, hnumbers, hnode⟩

theorem not_namesAt_of_le {node : Nat} (hpos : 1 ≤ n) (hn : n ≤ Text.leadingFeeds text) :
    ¬NamesAt text n node := by
  unfold NamesAt
  rw [lineAt?_of_le hpos hn]
  rintro ⟨line, hline, a, b, hnumbers, _⟩
  cases hline
  exact numberPair?_eq_none_iff.mp rfl a b hnumbers

/-- An error that is not about the text as a whole or its header is the first defect of the lines
after a header with two numbers. -/
theorem exists_firstDefect {directed : Bool} (hread : read text directed = .error e)
    (hblank : e ≠ .blank) (hbadHeader : ∀ line, e ≠ .badHeader line) :
    ∃ header nodeCount edgeCount, (formatLines text)[0]? = some header ∧
      StartsWithNumbers header nodeCount edgeCount ∧
      FirstDefect (formatLines text) nodeCount edgeCount 1 e := by
  rcases read_cases text directed with ⟨_, hcase⟩ | ⟨_, header, hheader, hcase⟩
  · rw [hread] at hcase
    cases hcase
    exact absurd rfl hblank
  · rcases hcase with ⟨_, hcase⟩ | ⟨nodeCount, edgeCount, hnumbers, _⟩
    · rw [hread] at hcase
      cases hcase
      exact absurd rfl (hbadHeader _)
    · exact ⟨header, nodeCount, edgeCount, hheader, hnumbers,
        (read_eq_error_iff_firstDefect hheader hnumbers).mp hread⟩

/-- The lines before the first defect start with two numbers: the header with the two counts, and
the others with the ends of a connection. -/
theorem exists_numbers_before {j : Nat} (hheader : (formatLines text)[0]? = some header)
    (hnumbers : StartsWithNumbers header nodeCount edgeCount)
    (hbefore : ∀ k, 1 ≤ k → k < i →
      ∃ source target, EndsAt (formatLines text) nodeCount k source target) (hj : j < i) :
    ∃ line a b, (formatLines text)[j]? = some line ∧ StartsWithNumbers line a b ∧
      (j = 0 ∧ a = nodeCount ∧ b = edgeCount ∨ 1 ≤ j ∧ a < nodeCount ∧ b < nodeCount) := by
  rcases Nat.eq_zero_or_pos j with rfl | hpos
  · exact ⟨header, nodeCount, edgeCount, hheader, hnumbers, Or.inl ⟨rfl, rfl, rfl⟩⟩
  · obtain ⟨a, b, ⟨line, hline, hends⟩, ha, hb⟩ := hbefore j hpos hj
    exact ⟨line, a, b, hline, hends, Or.inr ⟨hpos, ha, hb⟩⟩

/-- After line feeds that lead the text, the number of a defect past them is that of a line before it:
the header, if the feeds are as many as the lines before the defect, or else a connection. -/
theorem exists_lineAt?_before (hheader : (formatLines text)[0]? = some header)
    (hnumbers : StartsWithNumbers header nodeCount edgeCount)
    (hbefore : ∀ k, 1 ≤ k → k < i →
      ∃ source target, EndsAt (formatLines text) nodeCount k source target)
    (hfeeds : Text.leadingFeeds text ≠ 0) (hle : Text.leadingFeeds text ≤ i) :
    ∃ line a b, lineAt? text (i + 1) = some (Text.trim line) ∧ StartsWithNumbers line a b ∧
      (i = Text.leadingFeeds text ∧ a = nodeCount ∧ b = edgeCount ∨
        Text.leadingFeeds text < i ∧ a < nodeCount ∧ b < nodeCount) := by
  obtain ⟨line, a, b, hline, hstarts, hwhere⟩ :=
    exists_numbers_before (j := i - Text.leadingFeeds text) hheader hnumbers hbefore (by omega)
  have hat := lineAt?_of_formatLines hline
  rw [← Nat.add_assoc, Nat.add_sub_cancel' hle] at hat
  refine ⟨line, a, b, hat, hstarts, ?_⟩
  rcases hwhere with ⟨hzero, hcounts⟩ | ⟨hpos, hends⟩
  · exact Or.inl ⟨by omega, hcounts⟩
  · exact Or.inr ⟨by omega, hends⟩

theorem Defect.of_nodeOutOfRange {lines : List String} {node count : Nat}
    (h : Defect lines nodeCount edgeCount i (.nodeOutOfRange n node count)) :
    n = i + 1 ∧ count = nodeCount ∧ nodeCount ≤ node ∧
      ∃ line a b, lines[i]? = some line ∧ StartsWithNumbers line a b ∧ (node = a ∨ node = b) := by
  cases h with
  | source hline hends hsource =>
    exact ⟨rfl, rfl, hsource, _, _, _, hline, hends, Or.inl rfl⟩
  | target hline hends _ htarget =>
    exact ⟨rfl, rfl, htarget, _, _, _, hline, hends, Or.inr rfl⟩

theorem StartsWithNumbers.trim {a b : Nat} (h : StartsWithNumbers line a b) :
    StartsWithNumbers (Text.trim line) a b :=
  h.of_trim_eq (Text.trim_trim line)

/-! ## 3. Positions -/

theorem lineAt?_of_badLine {directed : Bool} (hread : read text directed = .error (.badLine n line)) :
    lineAt? text (Text.leadingFeeds text + n) = some line ∧
      (lineAt? text n = some line ↔
        Text.leadingFeeds text = 0 ∨ n ≤ Text.leadingFeeds text ∧ line = "") := by
  obtain ⟨header, nodeCount, edgeCount, hheader, hnumbers, i, _, _, hdefect, hbefore⟩ :=
    exists_firstDefect hread nofun nofun
  cases hdefect with
  | @notNumbers given hline hnone =>
    have hgiven : lineAt? text (Text.leadingFeeds text + (i + 1)) = some (Text.trim given) :=
      lineAt?_of_formatLines hline
    refine ⟨hgiven, ?_⟩
    by_cases hzero : Text.leadingFeeds text = 0
    · rw [hzero, Nat.zero_add] at hgiven
      exact iff_of_true hgiven (Or.inl hzero)
    · by_cases hle : i + 1 ≤ Text.leadingFeeds text
      · -- The number falls among the blank lines.
        rw [lineAt?_of_le (Nat.succ_pos i) hle, Option.some_inj]
        constructor
        · exact fun heq => Or.inr ⟨hle, heq.symm⟩
        · exact fun h => (h.resolve_left hzero).2.symm
      · -- The number falls on a line that was read before, and that has numbers.
        obtain ⟨other, a, b, hat, hothers, _⟩ :=
          exists_lineAt?_before hheader hnumbers hbefore hzero (Nat.le_of_not_lt hle)
        rw [hat, Option.some_inj]
        constructor
        · exact fun heq => absurd (hothers.of_trim_eq heq.symm) (hnone a b)
        · exact fun h => absurd (h.resolve_left hzero).1 hle

theorem namesAt_of_nodeOutOfRange {directed : Bool} {node count : Nat}
    (hread : read text directed = .error (.nodeOutOfRange n node count)) :
    NamesAt text (Text.leadingFeeds text + n) node ∧
      (NamesAt text n node ↔ Text.leadingFeeds text = 0 ∨ n = Text.leadingFeeds text + 1 ∧
        ∃ header ∈ (formatLines text)[0]?, ∃ edgeCount,
          StartsWithNumbers header count edgeCount ∧ (node = count ∨ node = edgeCount)) := by
  obtain ⟨header, nodeCount, edgeCount, hheader, hnumbers, i, _, _, hdefect, hbefore⟩ :=
    exists_firstDefect hread nofun nofun
  obtain ⟨rfl, rfl, hcount, given, a, b, hline, hends, hnode⟩ := hdefect.of_nodeOutOfRange
  have hnames : NamesAt text (Text.leadingFeeds text + (i + 1)) node :=
    (namesAt_iff (lineAt?_of_formatLines hline) hends.trim).mpr hnode
  refine ⟨hnames, ?_⟩
  by_cases hzero : Text.leadingFeeds text = 0
  · rw [hzero, Nat.zero_add] at hnames
    exact iff_of_true hnames (Or.inl hzero)
  · by_cases hle : i + 1 ≤ Text.leadingFeeds text
    · refine iff_of_false (not_namesAt_of_le (Nat.succ_pos i) hle) ?_
      rintro (h | ⟨h, _⟩)
      · exact hzero h
      · omega
    · obtain ⟨other, a, b, hat, hothers, hwhere⟩ :=
        exists_lineAt?_before hheader hnumbers hbefore hzero (Nat.le_of_not_lt hle)
      rw [namesAt_iff hat hothers.trim]
      rcases hwhere with ⟨hi, rfl, rfl⟩ | ⟨hi, ha, hb⟩
      · -- The number falls on the header.
        constructor
        · exact fun h => Or.inr ⟨by omega, header, hheader, b, hnumbers, h⟩
        · rintro (h | ⟨_, header', hheader', edges, hcounts, h⟩)
          · exact absurd h hzero
          · rw [hheader] at hheader'
            cases hheader'
            obtain ⟨_, rfl⟩ := hcounts.unique hnumbers
            exact h
      · -- Both ends that were read before are below the count.
        apply iff_of_false
        · omega
        · rintro (h | ⟨h, _⟩)
          · exact hzero h
          · omega

/-- The number in an error about a line is that of the line in the text as given, less the line feeds
that lead the text.  When there are some, the number tells the line of a node only if this is the
first line after the header and the node is one of the counts there, and a line without numbers only
if it is blank like the leading ones. -/
theorem positions_of_defects (text : String) (directed : Bool) :
    let feeds := Text.leadingFeeds text
    (∀ n line, read text directed = .error (.badLine n line) →
      lineAt? text (feeds + n) = some line ∧
        (lineAt? text n = some line ↔ feeds = 0 ∨ n ≤ feeds ∧ line = "")) ∧
      ∀ n node count, read text directed = .error (.nodeOutOfRange n node count) →
        NamesAt text (feeds + n) node ∧
          (NamesAt text n node ↔ feeds = 0 ∨ n = feeds + 1 ∧
            ∃ header ∈ (formatLines text)[0]?, ∃ edgeCount,
              StartsWithNumbers header count edgeCount ∧ (node = count ∨ node = edgeCount)) :=
  ⟨fun _ _ hread => lineAt?_of_badLine hread, fun _ _ _ hread => namesAt_of_nodeOutOfRange hread⟩

/-- Two line feeds and blanks before the header: each number is two less than that of the line. -/
theorem positions_of_defects_of_leading_feeds :
    let unread := " \n\t\r\n2 2\r\n0 1\n 0  x \n"
    let outside := "\n\n2 1\n1 7 of"
    read unread true = .error (.badLine 3 "0  x") ∧ lineAt? unread 5 = some "0  x" ∧
      lineAt? unread 3 ≠ some "0  x" ∧
      read outside false = .error (.nodeOutOfRange 2 7 2) ∧ NamesAt outside 4 7 := by
  intro unread outside
  have hunread : read unread true = .error (.badLine 3 "0  x") := by decide +kernel
  have houtside : read outside false = .error (.nodeOutOfRange 2 7 2) := by decide +kernel
  have hfeeds : Text.leadingFeeds unread = 2 ∧ Text.leadingFeeds outside = 2 := by decide +kernel
  obtain ⟨hline, hsame⟩ := (positions_of_defects unread true).1 3 "0  x" hunread
  have hnode := ((positions_of_defects outside false).2 2 7 2 houtside).1
  rw [hfeeds.1] at hline hsame
  rw [hfeeds.2] at hnode
  exact ⟨hunread, hline, fun h => absurd (hsame.mp h) (by decide), houtside, hnode⟩

/-- After two line feeds the numbers in both errors are those of blank lines. -/
theorem not_given_line_of_leading_feeds :
    read "\n\n2 1\n0 x" false = .error (.badLine 2 "0 x") ∧
      lineAt? "\n\n2 1\n0 x" 2 = some "" ∧ lineAt? "\n\n2 1\n0 x" 4 = some "0 x" ∧
      read "\n\n2 1\n0 7" false = .error (.nodeOutOfRange 2 7 2) ∧
      ¬NamesAt "\n\n2 1\n0 7" 2 7 := by
  refine ⟨by decide +kernel, by decide +kernel, by decide +kernel, by decide +kernel, ?_⟩
  apply not_namesAt_of_le (by decide)
  decide +kernel

end Graph

end GraphReplay
