import GraphReplay.Proofs.Text.Lines

/-!
# Blanks around a text and around its lines

What trimming leaves of a text and of each of its lines.  A text is its trimmed form between two runs
of blanks, so a second trimming changes nothing and the tokens stay the same.  Blanks that are added
around a text, or at an end of a line, are gone once every line is trimmed, but for one empty line
for each line feed among them.
-/

namespace GraphReplay.Text

/-! ## 1. A text between blanks -/

section

variable {before cs after : List Char}

theorem trimBlanks_append_blanks (hafter : ∀ c ∈ after, isBlank c = true) :
    trimBlanks (cs ++ after) = trimBlanks cs := by
  induction after generalizing cs with
  | nil => rw [List.append_nil]
  | cons c after ih =>
    have hrest : trimBlanks (cs ++ [c] ++ after) = trimBlanks (cs ++ [c]) :=
      ih fun d hd => hafter d (List.mem_cons_of_mem c hd)
    rw [List.append_assoc, List.singleton_append] at hrest
    rw [hrest, trimBlanks_append_blank (hafter c List.mem_cons_self)]

theorem trimBlanks_blanks_append (hbefore : ∀ c ∈ before, isBlank c = true) :
    trimBlanks (before ++ cs) = trimBlanks cs := by
  unfold trimBlanks dropBlanks
  rw [List.dropWhile_append_of_pos hbefore]

theorem blankSeparated_append_blanks (hafter : ∀ c ∈ after, isBlank c = true) :
    blankSeparated (cs ++ after) = blankSeparated cs := by
  induction after generalizing cs with
  | nil => rw [List.append_nil]
  | cons c after ih =>
    have hrest : blankSeparated (cs ++ [c] ++ after) = blankSeparated (cs ++ [c]) :=
      ih fun d hd => hafter d (List.mem_cons_of_mem c hd)
    rw [List.append_assoc, List.singleton_append] at hrest
    rw [hrest, blankSeparated_append_blank (hafter c List.mem_cons_self)]

theorem blankSeparated_cons_blank {c : Char} (hc : isBlank c = true) (cs : List Char) :
    blankSeparated (c :: cs) = blankSeparated cs := by
  unfold blankSeparated
  rw [splitAtEach_cons_of_sep hc, List.filter_cons_of_neg (by simp)]

theorem blankSeparated_blanks_append (hbefore : ∀ c ∈ before, isBlank c = true) :
    blankSeparated (before ++ cs) = blankSeparated cs := by
  induction before with
  | nil => rfl
  | cons c before ih =>
    rw [List.cons_append, blankSeparated_cons_blank (hbefore c List.mem_cons_self)]
    exact ih fun d hd => hbefore d (List.mem_cons_of_mem c hd)

end

theorem blank_of_mem_takeWhile {cs : List Char} {c : Char} (hc : c ∈ cs.takeWhile isBlank) :
    isBlank c = true :=
  List.mem_takeWhile_imp hc

/-- A text is its trimmed form between the leading blanks and some trailing ones. -/
theorem exists_trailing (cs : List Char) :
    ∃ after, (∀ c ∈ after, isBlank c = true) ∧
      cs = cs.takeWhile isBlank ++ trimBlanks cs ++ after := by
  -- The trailing blanks are the leading ones of the reversed rest.
  let rest := (cs.dropWhile isBlank).reverse
  refine ⟨(rest.takeWhile isBlank).reverse, ?_, ?_⟩
  · intro c hc
    exact blank_of_mem_takeWhile (List.mem_reverse.mp hc)
  · have hrest : trimBlanks cs ++ (rest.takeWhile isBlank).reverse = cs.dropWhile isBlank := by
      show (rest.dropWhile isBlank).reverse ++ _ = _
      rw [← List.reverse_append, List.takeWhile_append_dropWhile, List.reverse_reverse]
    rw [List.append_assoc, hrest, List.takeWhile_append_dropWhile]

theorem trimBlanks_trimBlanks (cs : List Char) : trimBlanks (trimBlanks cs) = trimBlanks cs := by
  obtain ⟨after, hafter, hcs⟩ := exists_trailing cs
  have htrim := congrArg trimBlanks hcs
  rw [trimBlanks_append_blanks hafter,
    trimBlanks_blanks_append fun c hc => blank_of_mem_takeWhile hc] at htrim
  exact htrim.symm

theorem blankSeparated_trimBlanks (cs : List Char) :
    blankSeparated (trimBlanks cs) = blankSeparated cs := by
  obtain ⟨after, hafter, hcs⟩ := exists_trailing cs
  have hsplit := congrArg blankSeparated hcs
  rw [blankSeparated_append_blanks hafter,
    blankSeparated_blanks_append fun c hc => blank_of_mem_takeWhile hc] at hsplit
  exact hsplit.symm

theorem mem_of_mem_trimBlanks {cs : List Char} {c : Char} (hc : c ∈ trimBlanks cs) : c ∈ cs := by
  obtain ⟨after, _, hcs⟩ := exists_trailing cs
  rw [hcs]
  exact List.mem_append_left _ (List.mem_append_right _ hc)

theorem trim_trim (s : String) : trim (trim s) = trim s := by
  unfold trim
  rw [String.toList_ofList, trimBlanks_trimBlanks]

theorem tokens_trim (s : String) : tokens (trim s) = tokens s := by
  unfold tokens trim
  rw [String.toList_ofList, blankSeparated_trimBlanks]

theorem tokens_eq_of_trim_eq {s t : String} (h : trim s = trim t) : tokens s = tokens t := by
  rw [← tokens_trim s, h, tokens_trim]

/-! ## 2. Pieces -/

/-- The pieces are those of the library function that cuts a list at every separator. -/
theorem splitAtEach_eq_splitOnP (sep : Char → Bool) (cs : List Char) :
    splitAtEach sep cs = cs.splitOnP sep := by
  induction cs with
  | nil => rfl
  | cons c cs ih =>
    rw [List.splitOnP_cons_eq_if_modifyHead, ← ih]
    unfold splitAtEach
    simp only [cutAtEach]
    split <;> rfl

theorem splitAtEach_cons_of_not_sep {sep : Char → Bool} {c : Char} (h : sep c = false)
    (cs : List Char) : splitAtEach sep (c :: cs) = (splitAtEach sep cs).modifyHead (c :: ·) := by
  simp [splitAtEach, cutAtEach, h]

theorem length_splitAtEach (sep : Char → Bool) (cs : List Char) :
    (splitAtEach sep cs).length = cs.countP sep + 1 := by
  induction cs with
  | nil => rfl
  | cons c cs ih =>
    by_cases h : sep c = true
    · rw [splitAtEach_cons_of_sep h, List.length_cons, ih, List.countP_cons_of_pos h]
    · rw [splitAtEach_cons_of_not_sep (Bool.eq_false_iff.mpr h), List.length_modifyHead, ih,
        List.countP_cons_of_neg h]

/-- What is added to a text without a separator is added to the last piece. -/
theorem exists_last_piece {sep : Char → Bool} {c : Char} (h : sep c = false) (cs : List Char) :
    ∃ earlier last, splitAtEach sep cs = earlier ++ [last] ∧
      splitAtEach sep (cs ++ [c]) = earlier ++ [last ++ [c]] := by
  induction cs with
  | nil => exact ⟨[], [], rfl, splitAtEach_cons_of_not_sep h []⟩
  | cons d cs ih =>
    obtain ⟨earlier, last, hcs, happend⟩ := ih
    rw [List.cons_append]
    by_cases hd : sep d = true
    · refine ⟨[] :: earlier, last, ?_, ?_⟩
      · rw [splitAtEach_cons_of_sep hd, hcs, List.cons_append]
      · rw [splitAtEach_cons_of_sep hd, happend, List.cons_append]
    · rw [splitAtEach_cons_of_not_sep (Bool.eq_false_iff.mpr hd), hcs,
        splitAtEach_cons_of_not_sep (Bool.eq_false_iff.mpr hd), happend]
      -- The first piece is the last one as well when there is no separator.
      cases earlier with
      | nil => exact ⟨[], d :: last, rfl, rfl⟩
      | cons first earlier => exact ⟨(d :: first) :: earlier, last, rfl, rfl⟩

/-! ## 3. Blanks around the lines -/

/-- The lines of a list of characters, each without the blanks around it. -/
def trimmedLines (cs : List Char) : List (List Char) :=
  (splitAtEach (· == '\n') cs).map trimBlanks

theorem trimmedLines_append_feed (as bs : List Char) :
    trimmedLines (as ++ '\n' :: bs) = trimmedLines as ++ trimmedLines bs := by
  unfold trimmedLines
  rw [splitAtEach_append_cons rfl, List.map_append]

theorem trimmedLines_cons_blank {c : Char} (hblank : isBlank c = true) (hfeed : c ≠ '\n')
    (cs : List Char) : trimmedLines (c :: cs) = trimmedLines cs := by
  have hfirst : ∀ d ∈ [c], isBlank d = true := fun d hd => List.mem_singleton.mp hd ▸ hblank
  unfold trimmedLines
  rw [@splitAtEach_cons_of_not_sep (· == '\n') c (beq_false_of_ne hfeed) cs]
  show trimBlanks ([c] ++ _) :: _ = _
  rw [trimBlanks_blanks_append hfirst]
  rfl

theorem trimmedLines_append_blank {c : Char} (hblank : isBlank c = true) (hfeed : c ≠ '\n')
    (cs : List Char) : trimmedLines (cs ++ [c]) = trimmedLines cs := by
  obtain ⟨earlier, last, hcs, happend⟩ :=
    @exists_last_piece (· == '\n') c (beq_false_of_ne hfeed) cs
  unfold trimmedLines
  rw [happend, hcs, List.map_append, List.map_append, List.map_singleton, List.map_singleton,
    trimBlanks_append_blank hblank]

/-- Of blanks before a text an empty line is left for each line feed. -/
theorem trimmedLines_blanks_append {before : List Char}
    (hbefore : ∀ c ∈ before, isBlank c = true) (cs : List Char) :
    trimmedLines (before ++ cs) =
      List.replicate (before.count '\n') [] ++ trimmedLines cs := by
  induction before with
  | nil => rfl
  | cons c before ih =>
    have hrest := ih fun d hd => hbefore d (List.mem_cons_of_mem c hd)
    rw [List.cons_append]
    by_cases hc : c = '\n'
    · have hcut := trimmedLines_append_feed [] (before ++ cs)
      rw [hc, List.count_cons_self, List.replicate_succ, List.cons_append, ← hrest]
      exact hcut
    · rw [trimmedLines_cons_blank (hbefore c List.mem_cons_self) hc, hrest,
        List.count_cons_of_ne hc]

theorem trimmedLines_append_blanks {after : List Char}
    (hafter : ∀ c ∈ after, isBlank c = true) (cs : List Char) :
    trimmedLines (cs ++ after) =
      trimmedLines cs ++ List.replicate (after.count '\n') [] := by
  induction after generalizing cs with
  | nil => rw [List.append_nil, List.count_nil, List.replicate_zero, List.append_nil]
  | cons c after ih =>
    have hrest := fun before => ih (fun d hd => hafter d (List.mem_cons_of_mem c hd)) before
    by_cases hc : c = '\n'
    · rw [hc, trimmedLines_append_feed, List.count_cons_self, List.replicate_succ]
      have hblank := hrest []
      rw [List.nil_append] at hblank
      rw [hblank]
      rfl
    · have hmoved := hrest (cs ++ [c])
      rw [List.append_assoc, List.singleton_append,
        trimmedLines_append_blank (hafter c List.mem_cons_self) hc] at hmoved
      rw [hmoved, List.count_cons_of_ne hc]

theorem map_trim_lines (s : String) :
    (lines s).map trim = (trimmedLines s.toList).map String.ofList := by
  unfold lines trimmedLines
  rw [List.map_map, List.map_map]
  apply List.map_congr_left
  intro cs _
  show trim (String.ofList cs) = _
  unfold trim
  rw [String.toList_ofList]
  rfl

end GraphReplay.Text
