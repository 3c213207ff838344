import GraphReplay.Proofs.Decimal.Literals

/-!
# Literals in one pass

The longest literal at the beginning of a text is found in one pass from left to right.  A `Stage`
is what the pass knows of the characters before, and from each stage exactly the rests of literals
are accepted (`Stage.accepts_start`).  `Stage.scan` remembers the last place where a literal was
complete, so it backs off a sign, a point, a mark of an exponent or a part of a word that nothing
completes (`Stage.scan_spec`, `leadingLength?_spec`).  Trying all lengths, the greatest first, finds
the same (`leads_of_longestLiteral?`).
-/

namespace GraphReplay.Decimal

/-! ## 1. Longest beginnings -/

/-- Of the beginnings of a text with the property, `p` is the one that the others are a part of. -/
structure Longest (P : List Char → Prop) (cs p : List Char) : Prop where
  isPrefix : p <+: cs
  holds : P p
  longest : ∀ q, q <+: cs → P q → q <+: p

theorem Longest.unique {P : List Char → Prop} {cs p q : List Char} (hp : Longest P cs p)
    (hq : Longest P cs q) : p = q :=
  (hq.longest p hp.isPrefix hp.holds).eq_of_length_le
    (hp.longest q hq.isPrefix hq.holds).length_le

/-! ## 2. Stages -/

inductive Stage where
  | start
  | signed
  /-- Digits, without a point so far. -/
  | whole
  /-- A point without a digit before it. -/
  | point
  /-- A point, and a digit before or after it. -/
  | fraction
  /-- The letter that an exponent begins with. -/
  | mark
  | markSigned
  | exponent
  /-- The beginning of a word, and the letters that are to come. -/
  | word (left : List Char)

namespace Stage

/-- A literal may end here. -/
def complete : Stage → Bool
  | whole | fraction | exponent => true
  | word left => left = [] || left = ['i', 'n', 'i', 't', 'y']
  | start | signed | point | mark | markSigned => false

/-- The stage after the first character that is no sign. -/
def opening? (c : Char) : Option Stage :=
  if c.isDigit then some whole
  else if c = '.' then some point
  else if c.toLower = 'i' then some (word ['n', 'f', 'i', 'n', 'i', 't', 'y'])
  else if c.toLower = 'n' then some (word ['a', 'n'])
  else none

/-- The stage after one more character, unless no literal goes on with this one. -/
def next? : Stage → Char → Option Stage
  | start, c => if c = '-' ∨ c = '+' then some signed else opening? c
  | signed, c => opening? c
  | whole, c =>
    if c.isDigit then some whole
    else if c = '.' then some fraction
    else if c = 'e' ∨ c = 'E' then some mark
    else none
  | point, c => if c.isDigit then some fraction else none
  | fraction, c =>
    if c.isDigit then some fraction else if c = 'e' ∨ c = 'E' then some mark else none
  | mark, c =>
    if c.isDigit then some exponent else if c = '-' ∨ c = '+' then some markSigned else none
  | markSigned, c | exponent, c => if c.isDigit then some exponent else none
  | word [], _ => none
  | word (letter :: left), c => if c.toLower = letter then some (word left) else none

/-- The characters complete a literal from this stage on. -/
def accepts : Stage → List Char → Bool
  | stage, [] => stage.complete
  | stage, c :: cs => (stage.next? c).any fun next => next.accepts cs

variable {c : Char} {cs : List Char}

theorem accepts_exponent (cs : List Char) : exponent.accepts cs = cs.all Char.isDigit := by
  induction cs with
  | nil => rfl
  | cons c cs ih => cases hc : c.isDigit <;> simp [accepts, next?, hc, ih]

theorem accepts_markSigned (cs : List Char) :
    markSigned.accepts cs = (!cs.isEmpty && cs.all Char.isDigit) := by
  cases cs with
  | nil => rfl
  | cons c cs => cases hc : c.isDigit <;> simp [accepts, next?, hc, accepts_exponent]

theorem splitSign_snd_cons (c : Char) (cs : List Char) :
    (splitSign (c :: cs)).2 = if c = '-' ∨ c = '+' then cs else c :: cs := by
  split
  case isTrue hsign => rcases hsign with rfl | rfl <;> rfl
  case isFalse hsign =>
    rw [splitSign_of_head fun d hd => by cases hd; exact not_or.mp hsign]

theorem accepts_mark (cs : List Char) :
    mark.accepts cs = (!(splitSign cs).2.isEmpty && (splitSign cs).2.all Char.isDigit) := by
  cases cs with
  | nil => rfl
  | cons c cs =>
    rw [splitSign_snd_cons]
    by_cases hsign : c = '-' ∨ c = '+'
    · have hdigit : c.isDigit = false := by rcases hsign with rfl | rfl <;> rfl
      rw [if_pos hsign, ← accepts_markSigned]
      simp [accepts, next?, hsign, hdigit]
    · rw [if_neg hsign]
      cases hc : c.isDigit <;> simp [accepts, next?, hsign, hc, accepts_exponent]

theorem any_mark (c : Char) (cs : List Char) :
    (if c = 'e' ∨ c = 'E' then some mark else none).any (fun next => next.accepts cs) =
      (exponent? (c :: cs)).isSome := by
  rw [Bool.eq_iff_iff]
  by_cases hmark : c = 'e' ∨ c = 'E' <;> simp [exponent?, hmark, accepts_mark]

theorem accepts_fraction (cs : List Char) :
    fraction.accepts cs = (exponent? (cs.dropWhile Char.isDigit)).isSome := by
  induction cs with
  | nil => rfl
  | cons c cs ih =>
    cases hc : c.isDigit
    · simp only [accepts, next?, hc, List.dropWhile_cons, Bool.false_eq_true, if_false]
      exact any_mark c cs
    · simp [accepts, next?, hc, ih]

theorem accepts_whole (cs : List Char) :
    whole.accepts cs = (exponent? (splitFraction (cs.dropWhile Char.isDigit)).2).isSome := by
  induction cs with
  | nil => rfl
  | cons c cs ih =>
    cases hc : c.isDigit
    · simp only [accepts, next?, hc, List.dropWhile_cons, Bool.false_eq_true, if_false]
      by_cases hpoint : c = '.'
      · simp [hpoint, splitFraction, List.span_eq_takeWhile_dropWhile, accepts_fraction]
      · have hsplit : splitFraction (c :: cs) = ([], c :: cs) :=
          splitFraction_of_head fun d hd => by
            cases hd
            exact hpoint
        rw [if_neg hpoint, hsplit]
        exact any_mark c cs
    · simp [accepts, next?, hc, ih]

theorem accepts_point (cs : List Char) :
    point.accepts cs =
      (!(cs.takeWhile Char.isDigit).isEmpty && (exponent? (cs.dropWhile Char.isDigit)).isSome) := by
  cases cs with
  | nil => rfl
  | cons c cs => cases hc : c.isDigit <;> simp [accepts, next?, hc, accepts_fraction]

/-- From within a word the letters up to a place where it may end are accepted. -/
theorem accepts_word_iff (left cs : List Char) :
    (word left).accepts cs = true ↔
      ∃ right, left = cs.map Char.toLower ++ right ∧ (word right).complete = true := by
  induction cs generalizing left with
  | nil => simp [accepts]
  | cons c cs ih =>
    cases left with
    | nil => simp [accepts, next?]
    | cons letter left =>
      by_cases hc : c.toLower = letter
      · simp [accepts, next?, hc, ih]
      · simp [accepts, next?, hc, Ne.symm hc]

theorem unsigned?_isSome (negative : Bool) (cs : List Char) :
    (unsigned? negative cs).isSome =
      (!(cs.takeWhile Char.isDigit ++ (splitFraction (cs.dropWhile Char.isDigit)).1).isEmpty &&
        (exponent? (splitFraction (cs.dropWhile Char.isDigit)).2).isSome) := by
  unfold unsigned?
  simp only [List.span_eq_takeWhile_dropWhile]
  split
  · next hempty => rw [hempty, Option.isSome_none, Bool.not_true, Bool.false_and]
  · next hempty =>
    rw [Bool.not_eq_true] at hempty
    rw [hempty, Option.isSome_map, Bool.not_false, Bool.true_and]

theorem word?_isSome (negative : Bool) (cs : List Char) :
    (word? negative cs).isSome = true ↔
      cs.map Char.toLower = ['i', 'n', 'f'] ∨
      cs.map Char.toLower = ['i', 'n', 'f', 'i', 'n', 'i', 't', 'y'] ∨
      cs.map Char.toLower = ['n', 'a', 'n'] := by
  rw [Option.isSome_iff_exists]
  simp only [word?_eq_some_iff, exists_or, exists_eq_left, or_assoc]

theorem word?_eq_none {c : Char} (hc : c.isDigit = true ∨ c = '.') (negative : Bool)
    (cs : List Char) : word? negative (c :: cs) = none := by
  have hlower : ¬(c.toLower = 'i' ∨ c.toLower = 'n') := by
    intro h
    obtain ⟨hdigit, hpoint, _⟩ := letter_of_toLower h
    simp [hdigit, hpoint] at hc
  rw [not_or] at hlower
  rw [← Option.not_isSome_iff_eq_none, word?_isSome]
  simp [hlower]

/-- After `i` the word may end at two places, after `n` at one. -/
theorem accepts_words (cs : List Char) :
    ((word ['n', 'f', 'i', 'n', 'i', 't', 'y']).accepts cs = true ↔
      cs.map Char.toLower = ['n', 'f'] ∨
      cs.map Char.toLower = ['n', 'f', 'i', 'n', 'i', 't', 'y']) ∧
    ((word ['a', 'n']).accepts cs = true ↔ cs.map Char.toLower = ['a', 'n']) := by
  generalize hletters : cs.map Char.toLower = letters
  have hcases : ∀ left, (word left).accepts cs = true ↔
      left = letters ++ ['i', 'n', 'i', 't', 'y'] ∨ left = letters := by
    intro left
    rw [accepts_word_iff, hletters]
    simp only [complete, Bool.or_eq_true, decide_eq_true_eq]
    constructor
    · rintro ⟨right, rfl, rfl | rfl⟩
      · exact Or.inr (List.append_nil _)
      · exact Or.inl rfl
    · rintro (rfl | rfl)
      · exact ⟨_, rfl, Or.inr rfl⟩
      · exact ⟨[], (List.append_nil _).symm, Or.inl rfl⟩
  rw [hcases, hcases]
  constructor
  · have hshort : ['n', 'f', 'i', 'n', 'i', 't', 'y'] = letters ++ ['i', 'n', 'i', 't', 'y'] ↔
        letters = ['n', 'f'] := by
      rw [eq_comm]
      exact @List.append_left_inj _ letters ['n', 'f'] _
    rw [hshort, eq_comm (b := letters)]
  · have hlong : ['a', 'n'] ≠ letters ++ ['i', 'n', 'i', 't', 'y'] := by
      intro h
      have hlength := congrArg List.length h
      simp at hlength
    simp [hlong, eq_comm]

theorem accepts_signed (negative : Bool) (cs : List Char) :
    signed.accepts cs = (unsigned? negative cs <|> word? negative cs).isSome := by
  cases cs with
  | nil => rfl
  | cons c cs =>
    simp only [accepts, next?, opening?]
    by_cases hdigit : c.isDigit = true
    · simp [hdigit, accepts_whole, word?_eq_none (Or.inl hdigit), unsigned?_isSome]
    by_cases hpoint : c = '.'
    · simp [hpoint, accepts_point, word?_eq_none (Or.inr rfl), unsigned?_isSome, splitFraction,
        List.span_eq_takeWhile_dropWhile]
    -- What begins with no digit and no point is a word or nothing.
    rw [unsigned?_of_letter ⟨by simpa using hdigit, hpoint⟩, Bool.eq_iff_iff]
    obtain ⟨hinfinity, hnan⟩ := accepts_words cs
    by_cases hi : c.toLower = 'i'
    · simp [hdigit, hpoint, hi, hinfinity, word?_isSome]
    by_cases hn : c.toLower = 'n'
    · simp [hdigit, hpoint, hn, hnan, word?_isSome]
    · simp [hdigit, hpoint, hi, hn, word?_isSome]

theorem accepts_start (cs : List Char) : start.accepts cs = (literal? cs).isSome := by
  unfold literal?
  dsimp only
  rw [← accepts_signed]
  cases cs with
  | nil => rfl
  | cons c cs =>
    rw [splitSign_snd_cons]
    by_cases hsign : c = '-' ∨ c = '+' <;> simp [accepts, next?, hsign]

theorem accepts_start_iff : start.accepts cs = true ↔ ∃ l, Denotes cs l := by
  rw [accepts_start, Option.isSome_iff_exists]
  simp only [literal?_eq_some_iff]

/-! ## 3. The pass -/

/-- How much of a text a literal may take, the greatest length that a literal was complete at.
`read` characters are before the text, and `last` is that length among them. -/
def scan (stage : Stage) (read : Nat) (last : Option Nat) : List Char → Option Nat
  | [] => last
  | c :: cs =>
    match stage.next? c with
    | none => last
    | some next => scan next (read + 1) (if next.complete then some (read + 1) else last) cs

variable {stage next : Stage} {p : List Char}

theorem accepts_cons (h : stage.next? c = some next) (cs : List Char) :
    stage.accepts (c :: cs) = next.accepts cs := by
  rw [accepts, h, Option.any_some]

/-- What the next stage accepts of the rest is accepted after one more character. -/
theorem longest_cons (h : stage.next? c = some next)
    (hp : Longest (fun q => next.accepts q = true) cs p) :
    Longest (fun q => stage.accepts q = true) (c :: cs) (c :: p) := by
  refine ⟨List.cons_prefix_cons.mpr ⟨rfl, hp.isPrefix⟩, (accepts_cons h p).trans hp.holds, ?_⟩
  intro q hq haccepts
  rcases List.prefix_cons_iff.mp hq with rfl | ⟨q, rfl, hrest⟩
  · exact List.nil_prefix
  · rw [accepts_cons h] at haccepts
    exact List.cons_prefix_cons.mpr ⟨rfl, hp.longest q hrest haccepts⟩

/-- A pass finds the longest beginning that the stage accepts, and keeps what is known if there is
none but the empty one. -/
theorem scan_spec (stage : Stage) (read : Nat) (last : Option Nat) (cs : List Char) :
    (∃ p, p ≠ [] ∧ Longest (fun q => stage.accepts q = true) cs p ∧
      scan stage read last cs = some (read + p.length)) ∨
    ((∀ q, q <+: cs → stage.accepts q = true → q = []) ∧ scan stage read last cs = last) := by
  induction cs generalizing stage read last with
  | nil => exact Or.inr ⟨fun q hq _ => List.prefix_nil.mp hq, rfl⟩
  | cons c cs ih =>
    rw [scan]
    cases hnext : stage.next? c with
    | none =>
      refine Or.inr ⟨fun q hq haccepts => ?_, rfl⟩
      rcases List.prefix_cons_iff.mp hq with rfl | ⟨q, rfl, _⟩
      · rfl
      · simp [accepts, hnext] at haccepts
    | some next =>
      rcases ih next (read + 1) (if next.complete then some (read + 1) else last) with
        ⟨p, _, hp, hscan⟩ | ⟨hnone, hscan⟩
      · refine Or.inl ⟨c :: p, List.cons_ne_nil c p, longest_cons hnext hp, ?_⟩
        dsimp only
        rw [hscan, List.length_cons, Nat.add_right_comm, Nat.add_assoc]
      · dsimp only
        rw [hscan]
        by_cases hcomplete : next.complete = true
        · -- Nothing longer is accepted, so the pass backs off to this character.
          have hp : Longest (fun q => next.accepts q = true) cs [] :=
            ⟨List.nil_prefix, hcomplete, fun q hq haccepts => by rw [hnone q hq haccepts]⟩
          exact Or.inl ⟨[c], List.cons_ne_nil c [], longest_cons hnext hp, if_pos hcomplete⟩
        · refine Or.inr ⟨fun q hq haccepts => ?_, if_neg hcomplete⟩
          rcases List.prefix_cons_iff.mp hq with rfl | ⟨q, rfl, hrest⟩
          · rfl
          · rw [accepts_cons hnext] at haccepts
            rw [hnone q hrest haccepts] at haccepts
            exact absurd haccepts hcomplete

end Stage

/-- The length of the longest literal at the beginning of a text, found in one pass. -/
def leadingLength? (cs : List Char) : Option Nat :=
  Stage.start.scan 0 none cs

/-- `p` is the longest beginning of `cs` that is a literal. -/
abbrev Leads (cs p : List Char) : Prop :=
  Longest (fun q => ∃ l, Denotes q l) cs p

variable {cs : List Char}

theorem leadingLength?_spec (cs : List Char) :
    (∃ p, Leads cs p ∧ leadingLength? cs = some p.length) ∨
    ((∀ p, p <+: cs → ∀ l, ¬Denotes p l) ∧ leadingLength? cs = none) := by
  have hdenotes : (fun q => Stage.start.accepts q = true) = fun q => ∃ l, Denotes q l :=
    funext fun q => propext Stage.accepts_start_iff
  rcases Stage.scan_spec .start 0 none cs with ⟨p, _, hp, hscan⟩ | ⟨hnone, hscan⟩
  · rw [hdenotes] at hp
    rw [Nat.zero_add] at hscan
    exact Or.inl ⟨p, hp, hscan⟩
  · refine Or.inr ⟨fun p hprefix l hl => ?_, hscan⟩
    have haccepts := Stage.accepts_start_iff.mpr ⟨l, hl⟩
    rw [hnone p hprefix haccepts] at haccepts
    exact Bool.false_ne_true haccepts

/-! ## 4. The search through all lengths -/

theorem leads_of_longestLiteral? {l : Literal} (h : longestLiteral? cs = some l) :
    ∃ p, Leads cs p ∧ Denotes p l := by
  obtain ⟨before, n, after, hlengths, hread, hbefore⟩ := List.findSome?_eq_some_iff.mp h
  have hsorted : ((List.range (cs.length + 1)).reverse).Pairwise (· > ·) :=
    List.pairwise_reverse.mpr List.pairwise_lt_range
  rw [hlengths, List.pairwise_append, List.pairwise_cons] at hsorted
  refine ⟨cs.take n, ⟨List.take_prefix n cs, ⟨l, literal?_eq_some_iff.mp hread⟩, ?_⟩,
    literal?_eq_some_iff.mp hread⟩
  rintro q hq ⟨other, hother⟩
  have hmem : q.length ∈ before ++ n :: after := by
    rw [← hlengths, List.mem_reverse, List.mem_range]
    have := hq.length_le
    omega
  rw [List.prefix_iff_eq_take.mp hq] at hother ⊢
  rw [List.mem_append, List.mem_cons] at hmem
  rcases hmem with hlonger | hsame | hshorter
  · have hnone := hbefore _ hlonger
    rw [literal?_eq_some_iff.mpr hother] at hnone
    exact nomatch hnone
  · rw [hsame]
  · exact List.take_prefix_take_left (Nat.le_of_lt (hsorted.2.1.1 _ hshorter))

theorem not_denotes_of_longestLiteral? (h : longestLiteral? cs = none) {p : List Char}
    (hp : p <+: cs) (l : Literal) : ¬Denotes p l := by
  intro hl
  have hmem : p.length ∈ (List.range (cs.length + 1)).reverse := by
    rw [List.mem_reverse, List.mem_range]
    have := hp.length_le
    omega
  have hnone := List.findSome?_eq_none_iff.mp h _ hmem
  rw [← List.prefix_iff_eq_take.mp hp, literal?_eq_some_iff.mpr hl] at hnone
  exact nomatch hnone

end GraphReplay.Decimal
