import Mathlib.Logic.Relation
import GraphReplay.Playback.Player
import GraphReplay.Proofs.Text.Pieces

/-!
# A trace and its text

A command keeps its line without the blanks around it, and these lines are the text of a trace.  No
line holds a line feed, so the text is cut into the same lines again and read as the same commands.
Blanks at the ends of lines are nothing to the commands, in whatever way they are added or taken
away; so a text with carriage returns before the line feeds is read as the one without.
-/

namespace GraphReplay

namespace Text

/-! ## 1. Lines and the texts made of them -/

theorem length_lines (s : String) : (lines s).length = s.toList.count '\n' + 1 := by
  unfold lines
  rw [List.length_map, length_splitAtEach]
  rfl

theorem feed_not_mem_of_mem_lines {s line : String} (h : line ∈ lines s) : '\n' ∉ line.toList := by
  obtain ⟨cs, hcs, rfl⟩ := List.mem_map.mp h
  rw [String.toList_ofList]
  intro hfeed
  exact absurd rfl (ne_of_beq_false (not_sep_of_mem_splitAtEach hcs '\n' hfeed))

theorem feed_not_mem_trim {line : String} (h : '\n' ∉ line.toList) : '\n' ∉ (trim line).toList := by
  unfold trim
  rw [String.toList_ofList]
  exact fun hfeed => h (mem_of_mem_trimBlanks hfeed)

/-- Lines that are joined by line feeds are found again. -/
theorem lines_intercalate {texts : List String} (hne : texts ≠ [])
    (h : ∀ text ∈ texts, '\n' ∉ text.toList) : lines (String.intercalate "\n" texts) = texts := by
  have hpieces : ∀ cs ∈ texts.map String.toList, '\n' ∉ cs := by
    intro cs hcs
    obtain ⟨text, htext, rfl⟩ := List.mem_map.mp hcs
    exact h text htext
  unfold lines
  rw [String.toList_intercalate, splitAtEach_eq_splitOnP, ← List.splitOn_eq_splitOnP]
  show ((['\n'].intercalate _).splitOn '\n').map _ = _
  rw [List.splitOn_intercalate '\n' hpieces (by simpa using hne), List.map_map]
  simp [Function.comp_def]

/-! ## 2. Blanks at the ends of lines -/

/-- The place between two parts of a text is the beginning or the end of a line. -/
def AtLineEnd (before after : List Char) : Prop :=
  before = [] ∨ before.getLast? = some '\n' ∨ after = [] ∨ after.head? = some '\n'

/-- The second text is the first one with one blank more, not a line feed, at an end of a line. -/
inductive Widened : String → String → Prop where
  | blank {before after : List Char} {c : Char} (hblank : isBlank c = true) (hfeed : c ≠ '\n')
      (hend : AtLineEnd before after) :
      Widened (String.ofList (before ++ after)) (String.ofList (before ++ c :: after))

theorem trimmedLines_widened {before after : List Char} {c : Char} (hblank : isBlank c = true)
    (hfeed : c ≠ '\n') (hend : AtLineEnd before after) :
    trimmedLines (before ++ c :: after) = trimmedLines (before ++ after) := by
  rcases hend with rfl | hlast | rfl | hhead
  · exact trimmedLines_cons_blank hblank hfeed after
  · obtain ⟨earlier, rfl⟩ := List.getLast?_eq_some_iff.mp hlast
    rw [List.append_assoc, List.append_assoc, List.singleton_append, List.singleton_append,
      trimmedLines_append_feed, trimmedLines_append_feed, trimmedLines_cons_blank hblank hfeed]
  · rw [List.append_nil]
    exact trimmedLines_append_blank hblank hfeed before
  · obtain ⟨later, rfl⟩ := List.head?_eq_some_iff.mp hhead
    rw [trimmedLines_append_feed, ← trimmedLines_append_blank hblank hfeed before,
      ← trimmedLines_append_feed, List.append_assoc, List.singleton_append]

theorem trimmedLines_intercalate_returns {pieces : List (List Char)} (hne : pieces ≠ [])
    (h : ∀ cs ∈ pieces, ∀ c ∈ cs, (c == '\n') = false) :
    trimmedLines (['\r', '\n'].intercalate pieces) = pieces.map trimBlanks := by
  induction pieces with
  | nil => exact absurd rfl hne
  | cons first pieces ih =>
    have hfirst : trimmedLines first = [trimBlanks first] := by
      unfold trimmedLines
      rw [splitAtEach_of_forall_not (h first List.mem_cons_self), List.map_singleton]
    cases pieces with
    | nil =>
      rw [List.intercalate_singleton, hfirst]
      rfl
    | cons second pieces =>
      have hrest := ih (List.cons_ne_nil second pieces)
        fun cs hcs => h cs (List.mem_cons_of_mem first hcs)
      have hcut : ∀ rest, first ++ ['\r', '\n'] ++ rest = first ++ ['\r'] ++ '\n' :: rest := by
        intro rest
        rw [List.append_assoc, List.append_assoc]
        rfl
      rw [List.intercalate_cons_cons, hcut, trimmedLines_append_feed,
        trimmedLines_append_blank (by decide) (by decide), hfirst, hrest]
      rfl

theorem map_trim_lines_widened {s t : String} (h : Widened s t) :
    (lines t).map trim = (lines s).map trim := by
  obtain ⟨hblank, hfeed, hend⟩ := h
  rw [map_trim_lines, map_trim_lines, String.toList_ofList, String.toList_ofList,
    trimmedLines_widened hblank hfeed hend]

theorem map_trim_lines_of_eqvGen {s t : String} (h : Relation.EqvGen Widened s t) :
    (lines t).map trim = (lines s).map trim := by
  induction h with
  | rel s t h => exact map_trim_lines_widened h
  | refl s => rfl
  | symm s t _ ih => exact ih.symm
  | trans s t u _ _ hst htu => exact htu.trans hst

theorem map_trim_lines_returns (s : String) :
    (lines (String.intercalate "\r\n" (lines s))).map trim = (lines s).map trim := by
  have hpieces : (lines s).map String.toList = splitAtEach (· == '\n') s.toList := by
    unfold lines
    rw [List.map_map]
    simp [Function.comp_def]
  have hreturn : "\r\n".toList = ['\r', '\n'] := rfl
  have hlines := trimmedLines_intercalate_returns (splitAtEach_ne_nil (· == '\n') s.toList)
    fun cs hcs => not_sep_of_mem_splitAtEach hcs
  rw [map_trim_lines, map_trim_lines, String.toList_intercalate, hpieces, hreturn, hlines]
  rfl

end Text

/-! ## 3. Commands and their lines -/

theorem Command.raw_read (line : String) : (Command.read line).raw = Text.trim line := by
  unfold Command.read
  dsimp only
  split <;> rfl

theorem Command.read_trim (line : String) : Command.read (Text.trim line) = Command.read line := by
  unfold Command.read
  rw [Text.trim_trim]

theorem readTrace_eq_map_trim (text : String) :
    readTrace text = ((Text.lines text).map Text.trim).map Command.read := by
  unfold readTrace
  rw [List.map_map]
  apply List.map_congr_left
  intro line _
  rw [Function.comp_apply, Command.read_trim]

namespace Player

theorem traceText_loadTrace (p : Player) (text : String) :
    (p.loadTrace text).traceText = String.intercalate "\n" ((Text.lines text).map Text.trim) := by
  show String.intercalate "\n" ((readTrace text).map Command.raw) = _
  unfold readTrace
  rw [List.map_map]
  exact congrArg _ (List.map_congr_left fun line _ => Command.raw_read line)

theorem lines_traceText_loadTrace (p : Player) (text : String) :
    Text.lines (p.loadTrace text).traceText = (Text.lines text).map Text.trim := by
  rw [traceText_loadTrace]
  apply Text.lines_intercalate
  · simpa using Text.lines_ne_nil text
  · intro line hline
    obtain ⟨given, hgiven, rfl⟩ := List.mem_map.mp hline
    exact Text.feed_not_mem_trim (Text.feed_not_mem_of_mem_lines hgiven)

/-- A trace has a command for each line of the text that it was read from.  The text of the trace is
read as the same commands and has the same text again, and so are the texts that differ in blanks at
the ends of lines only, among them the one with a carriage return before each line feed. -/
theorem trace_round_trip (p : Player) (text : String) :
    let q := p.loadTrace text
    q.commands.length = text.toList.count '\n' + 1 ∧
      (∀ i : Nat, q.commands[i]? = (Text.lines text)[i]?.map Command.read) ∧
      (∀ r : Player, (r.loadTrace q.traceText).commands = q.commands ∧
        (r.loadTrace q.traceText).traceText = q.traceText) ∧
      (∀ other, Relation.EqvGen Text.Widened text other →
        ∀ r : Player, (r.loadTrace other).commands = q.commands) ∧
      ∀ r : Player,
        (r.loadTrace (String.intercalate "\r\n" (Text.lines text))).commands = q.commands := by
  intro q
  have hsame : ∀ other, (Text.lines other).map Text.trim = (Text.lines text).map Text.trim →
      readTrace other = readTrace text := by
    intro other hlines
    rw [readTrace_eq_map_trim, hlines, ← readTrace_eq_map_trim]
  have hagain : (Text.lines q.traceText).map Text.trim = (Text.lines text).map Text.trim := by
    rw [lines_traceText_loadTrace, List.map_map]
    exact List.map_congr_left fun line _ => Text.trim_trim line
  refine ⟨?_, ?_, ?_, ?_, ?_⟩
  · show ((Text.lines text).map Command.read).length = _
    rw [List.length_map, Text.length_lines]
  · intro i
    exact List.getElem?_map
  · intro r
    refine ⟨hsame _ hagain, ?_⟩
    rw [traceText_loadTrace, hagain, ← traceText_loadTrace]
  · intro other hother r
    exact hsame other (Text.map_trim_lines_of_eqvGen hother)
  · intro r
    exact hsame _ (Text.map_trim_lines_returns text)

/-- A carriage return that is added at the end of a line, and a space that is taken away at the
beginning of the next one. -/
theorem trace_round_trip_of_moved_blanks :
    let text := "visit 0\n log  a b\n"
    let other := "visit 0\r\nlog  a b\n"
    let q := (new Settings.standard).loadTrace text
    Relation.EqvGen Text.Widened text other ∧ q.commands.length = 3 ∧
      q.traceText = "visit 0\nlog  a b\n" ∧
      ((new Settings.standard).loadTrace q.traceText).commands = q.commands ∧
      ((new Settings.standard).loadTrace other).commands = q.commands := by
  intro text other q
  have hreturn : Text.Widened text "visit 0\r\n log  a b\n" :=
    @Text.Widened.blank "visit 0".toList "\n log  a b\n".toList '\r' (by decide) (by decide)
      (Or.inr (Or.inr (Or.inr rfl)))
  have hspace : Text.Widened other "visit 0\r\n log  a b\n" :=
    @Text.Widened.blank "visit 0\r\n".toList "log  a b\n".toList ' ' (by decide) (by decide)
      (Or.inr (Or.inl rfl))
  have hmoved : Relation.EqvGen Text.Widened text other :=
    .trans _ _ _ (.rel _ _ hreturn) (.symm _ _ (.rel _ _ hspace))
  obtain ⟨hlength, _, hagain, hsame, _⟩ := trace_round_trip (new Settings.standard) text
  refine ⟨hmoved, ?_, ?_, (hagain _).1, hsame other hmoved _⟩
  · rw [hlength]
    decide +kernel
  · decide +kernel

end Player

end GraphReplay
