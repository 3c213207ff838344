import GraphReplay.Proofs.Decimal.ReadBack
import GraphReplay.Proofs.Scene.Weights
import GraphReplay.Proofs.Text.Tokens
import GraphReplay.Proofs.Trace.RoundTrip

/-!
# The language of traces

Which words give which instruction is a relation, `Spells`, with a rule for each kind of instruction.
A line is read as what its tokens spell; a line whose tokens spell nothing has no name of an
instruction, or too few arguments after it.  The instructions that lines give are those that can be
written (`Instruction.Writable`), and each of them is read from its own line.
-/

namespace GraphReplay

open Text (IsToken)
open Verb (spaced)

/-! ## 1. What words spell -/

/-- The words of a line give the instruction.  Words past the last one that counts are passed over. -/
inductive Spells : List String → Instruction → Prop where
  | visit (node : String) (surplus : List String) :
      Spells ("visit" :: node :: surplus) (.visit node)
  | colorNode (node color : String) (surplus : List String) :
      Spells ("colorNode" :: node :: color :: surplus) (.colorNode node color)
  | colorEdge (source target color : String) (surplus : List String) :
      Spells ("colorEdge" :: source :: target :: color :: surplus) (.colorEdge source target color)
  | highlightNode (node : String) (surplus : List String) :
      Spells ("highlightNode" :: node :: surplus) (.highlightNode node)
  | unhighlightNode (node : String) (surplus : List String) :
      Spells ("unhighlightNode" :: node :: surplus) (.unhighlightNode node)
  | highlightEdge (source target : String) (surplus : List String) :
      Spells ("highlightEdge" :: source :: target :: surplus) (.highlightEdge source target)
  | unhighlightEdge (source target : String) (surplus : List String) :
      Spells ("unhighlightEdge" :: source :: target :: surplus) (.unhighlightEdge source target)
  | clearHighlights (surplus : List String) :
      Spells ("clearHighlights" :: surplus) .clearHighlights
  | markVisited (node : String) (surplus : List String) :
      Spells ("markVisited" :: node :: surplus) (.markVisited node)
  | markInQueue (node : String) (surplus : List String) :
      Spells ("markInQueue" :: node :: surplus) (.markInQueue node)
  | setNodeId (node word : String) (words : List String) :
      Spells ("setNodeId" :: node :: word :: words) (.setNodeId node (spaced (word :: words)))
  | setEdgeWeight (source target weight : String) (surplus : List String) :
      Spells ("setEdgeWeight" :: source :: target :: weight :: surplus)
        (.setEdgeWeight source target (Decimal.readLeading weight))
  | log (words : List String) : Spells ("log" :: words) (.log (spaced words))
  | clearLog (surplus : List String) : Spells ("clearLog" :: surplus) .clearLog

theorem Verb.spells_of_instruction? {verb : Verb} {args : List String} {i : Instruction}
    (h : verb.instruction? args = some i) : Spells (verb.name :: args) i := by
  unfold instruction? at h
  split at h <;> cases h <;> constructor

theorem Spells.exists_verb {words : List String} {i : Instruction} (h : Spells words i) :
    ∃ verb : Verb, ∃ args, words = verb.name :: args ∧ verb.instruction? args = some i := by
  cases h with
  | visit => exact ⟨.visit, _, rfl, rfl⟩
  | colorNode => exact ⟨.colorNode, _, rfl, rfl⟩
  | colorEdge => exact ⟨.colorEdge, _, rfl, rfl⟩
  | highlightNode => exact ⟨.highlightNode, _, rfl, rfl⟩
  | unhighlightNode => exact ⟨.unhighlightNode, _, rfl, rfl⟩
  | highlightEdge => exact ⟨.highlightEdge, _, rfl, rfl⟩
  | unhighlightEdge => exact ⟨.unhighlightEdge, _, rfl, rfl⟩
  | clearHighlights => exact ⟨.clearHighlights, _, rfl, rfl⟩
  | markVisited => exact ⟨.markVisited, _, rfl, rfl⟩
  | markInQueue => exact ⟨.markInQueue, _, rfl, rfl⟩
  | setNodeId => exact ⟨.setNodeId, _, rfl, rfl⟩
  | setEdgeWeight => exact ⟨.setEdgeWeight, _, rfl, rfl⟩
  | log => exact ⟨.log, _, rfl, rfl⟩
  | clearLog => exact ⟨.clearLog, _, rfl, rfl⟩

theorem Verb.ofName?_eq_none_iff {token : String} :
    ofName? token = none ↔ ∀ verb : Verb, verb.name ≠ token := by
  unfold ofName?
  rw [List.find?_eq_none]
  constructor
  · intro h verb
    simpa using h verb verb.mem_all
  · intro h verb _
    simpa using h verb

theorem Verb.name_of_ofName? {token : String} {verb : Verb} (h : ofName? token = some verb) :
    verb.name = token := by
  simpa using List.find?_some h

theorem Verb.instruction?_eq_none_iff (verb : Verb) (args : List String) :
    verb.instruction? args = none ↔ args.length < verb.arity := by
  rw [← Option.not_isSome_iff_eq_none, verb.instruction?_isSome_iff, Nat.not_le]

/-! ## 2. Lines -/

/-- The words of a line give no instruction, for this fault. -/
inductive Misses (raw : String) : List String → Fault → Prop where
  | blank : Misses raw [] (.unrecognized raw)
  | name {name : String} (args : List String) (hname : ∀ verb : Verb, verb.name ≠ name) :
      Misses raw (name :: args) (.unrecognized raw)
  | argument {verb : Verb} {args : List String} (hargs : args.length < verb.arity) :
      Misses raw (verb.name :: args) (.missingArgument verb.name (args.length + 1))

/-- The fault in another line with the same words. -/
def Fault.inLine (raw : String) : Fault → Fault
  | .unrecognized _ => .unrecognized raw
  | .missingArgument name position => .missingArgument name position

theorem Misses.inLine {raw : String} {words : List String} {fault : Fault}
    (h : Misses raw words fault) (other : String) :
    Misses other words (fault.inLine other) := by
  cases h with
  | blank => exact .blank
  | name args hname => exact .name args hname
  | argument hargs => exact .argument hargs

theorem Verb.isToken_name (verb : Verb) : IsToken verb.name := by
  cases verb <;> decide

theorem Verb.name_ne_empty (verb : Verb) : verb.name ≠ "" := by
  cases verb <;> decide

namespace Command

variable {line other raw : String} {words : List String} {i : Instruction} {fault : Fault}

/-- A line is read as its words: the first one is the name, and the others are the arguments. -/
theorem read_eq (line : String) :
    read line =
      { name := (Text.tokens line).headD ""
        args := (Text.tokens line).tail
        raw := Text.trim line
        action := decode ((Text.tokens line).headD "") (Text.tokens line).tail (Text.trim line) } := by
  unfold read
  dsimp only
  rw [Text.tokens_trim]
  cases Text.tokens line <;> rfl

theorem decode_of_spells (h : Spells words i) (raw : String) :
    decode (words.headD "") words.tail raw = .ok i := by
  obtain ⟨verb, args, rfl, hinstruction⟩ := h.exists_verb
  simp only [List.headD_cons, List.tail_cons, decode, Verb.ofName?_name, hinstruction]

theorem decode_of_misses (h : Misses raw words fault) :
    decode (words.headD "") words.tail raw = .error fault := by
  cases h with
  | blank =>
    have hnone : Verb.ofName? "" = none := Verb.ofName?_eq_none_iff.mpr Verb.name_ne_empty
    simp only [List.headD_nil, decode, hnone]
  | name args hname =>
    have hnone := Verb.ofName?_eq_none_iff.mpr hname
    simp only [List.headD_cons, decode, hnone]
  | @argument verb args hargs =>
    have hnone := (verb.instruction?_eq_none_iff args).mpr hargs
    simp only [List.headD_cons, List.tail_cons, decode, Verb.ofName?_name, hnone]

theorem spells_or_misses (words : List String) (raw : String) :
    (∃ i, Spells words i) ∨ ∃ fault, Misses raw words fault := by
  cases words with
  | nil => exact Or.inr ⟨_, .blank⟩
  | cons name args =>
    cases hverb : Verb.ofName? name with
    | none => exact Or.inr ⟨_, .name args (Verb.ofName?_eq_none_iff.mp hverb)⟩
    | some verb =>
      have hname : verb.name = name := Verb.name_of_ofName? hverb
      subst hname
      cases hinstruction : verb.instruction? args with
      | none => exact Or.inr ⟨_, .argument ((verb.instruction?_eq_none_iff args).mp hinstruction)⟩
      | some i => exact Or.inl ⟨i, Verb.spells_of_instruction? hinstruction⟩

theorem action_read (line : String) :
    (read line).action =
      decode ((Text.tokens line).headD "") (Text.tokens line).tail (Text.trim line) := by
  rw [read_eq]

theorem action_read_eq_ok_iff : (read line).action = .ok i ↔ Spells (Text.tokens line) i := by
  rw [action_read]
  constructor
  · intro hok
    rcases spells_or_misses (Text.tokens line) (Text.trim line) with ⟨j, hj⟩ | ⟨fault, hfault⟩
    · rw [decode_of_spells hj] at hok
      cases hok
      exact hj
    · rw [decode_of_misses hfault] at hok
      exact nomatch hok
  · intro h
    exact decode_of_spells h _

theorem action_read_eq_error_iff :
    (read line).action = .error fault ↔ Misses (Text.trim line) (Text.tokens line) fault := by
  rw [action_read]
  constructor
  · intro herror
    rcases spells_or_misses (Text.tokens line) (Text.trim line) with ⟨i, hi⟩ | ⟨other, hother⟩
    · rw [decode_of_spells hi] at herror
      exact nomatch herror
    · rw [decode_of_misses hother] at herror
      cases herror
      exact hother
  · exact decode_of_misses

/-- Of lines with the same tokens only the raw form differs, also where a fault shows it. -/
theorem read_of_tokens_eq (h : Text.tokens other = Text.tokens line) :
    read other =
      { read line with
        raw := Text.trim other
        action := (read line).action.mapError (Fault.inLine (Text.trim other)) } := by
  have haction : (read other).action =
      (read line).action.mapError (Fault.inLine (Text.trim other)) := by
    cases hline : (read line).action with
    | ok i =>
      rw [action_read_eq_ok_iff, ← h] at hline
      exact action_read_eq_ok_iff.mpr hline
    | error fault =>
      rw [action_read_eq_error_iff, ← h] at hline
      exact action_read_eq_error_iff.mpr (hline.inLine _)
  rw [← haction, read_eq other, read_eq line, h]

end Command

/-! ## 3. Instructions as lines -/

namespace Instruction

def verb : Instruction → Verb
  | .visit _ => .visit
  | .colorNode .. => .colorNode
  | .colorEdge .. => .colorEdge
  | .highlightNode _ => .highlightNode
  | .unhighlightNode _ => .unhighlightNode
  | .highlightEdge .. => .highlightEdge
  | .unhighlightEdge .. => .unhighlightEdge
  | .clearHighlights => .clearHighlights
  | .markVisited _ => .markVisited
  | .markInQueue _ => .markInQueue
  | .setNodeId .. => .setNodeId
  | .setEdgeWeight .. => .setEdgeWeight
  | .log _ => .log
  | .clearLog => .clearLog

/-- The fields of an instruction as a line has them. -/
def fields : Instruction → List String
  | .visit node | .highlightNode node | .unhighlightNode node | .markVisited node
  | .markInQueue node => [node]
  | .colorNode node color => [node, color]
  | .colorEdge source target color => [source, target, color]
  | .highlightEdge source target | .unhighlightEdge source target => [source, target]
  | .setNodeId node label => [node, label]
  | .setEdgeWeight source target weight => [source, target, Decimal.text weight]
  | .log text => [text]
  | .clearHighlights | .clearLog => []

/-- The line that asks for an instruction. -/
def line (i : Instruction) : String :=
  spaced (i.verb.name :: i.fields)

/-- An instruction that a line can ask for: its fields are tokens, its label or message is made of
tokens with one space between each two, and its weight is finite. -/
def Writable : Instruction → Prop
  | .visit node | .highlightNode node | .unhighlightNode node | .markVisited node
  | .markInQueue node => IsToken node
  | .colorNode node color => IsToken node ∧ IsToken color
  | .colorEdge source target color => IsToken source ∧ IsToken target ∧ IsToken color
  | .highlightEdge source target | .unhighlightEdge source target =>
    IsToken source ∧ IsToken target
  | .setNodeId node label =>
    IsToken node ∧ ∃ words, words ≠ [] ∧ (∀ word ∈ words, IsToken word) ∧ label = spaced words
  | .setEdgeWeight source target weight =>
    IsToken source ∧ IsToken target ∧ weight.isFinite = true
  | .log text => ∃ words, (∀ word ∈ words, IsToken word) ∧ text = spaced words
  | .clearHighlights | .clearLog => True

variable {i : Instruction}

theorem tokens_spaced {words : List String} (h : ∀ word ∈ words, IsToken word) :
    Text.tokens (spaced words) = words := by
  unfold spaced
  rw [Text.tokens_intercalate_space, Text.flatMap_tokens_of_isToken h]

theorem tokens_line (i : Instruction) :
    Text.tokens i.line = i.verb.name :: i.fields.flatMap Text.tokens := by
  unfold line spaced
  rw [Text.tokens_intercalate_space, List.flatMap_cons, Text.tokens_of_isToken i.verb.isToken_name]
  rfl

/-- The fields of an instruction that can be written are found again among the tokens of its line. -/
theorem Writable.instruction?_flatMap (h : i.Writable) :
    i.verb.instruction? (i.fields.flatMap Text.tokens) = some i := by
  have hfields : (∀ field ∈ i.fields, IsToken field) →
      i.fields.flatMap Text.tokens = i.fields :=
    Text.flatMap_tokens_of_isToken
  cases i with
  | visit node | highlightNode node | unhighlightNode node | markVisited node
  | markInQueue node =>
    rw [hfields (by simpa [fields, Writable] using h)]
    rfl
  | colorNode node color =>
    rw [hfields (by simpa [fields, Writable] using h)]
    rfl
  | colorEdge source target color =>
    rw [hfields (by simpa [fields, Writable] using h)]
    rfl
  | highlightEdge source target | unhighlightEdge source target =>
    rw [hfields (by simpa [fields, Writable] using h)]
    rfl
  | setEdgeWeight source target weight =>
    obtain ⟨hsource, htarget, hfinite⟩ := h
    have hweight := Decimal.isToken_text hfinite
    rw [hfields (by simpa [fields] using ⟨hsource, htarget, hweight⟩)]
    show some (setEdgeWeight source target (Decimal.readLeading (Decimal.text weight))) = _
    rw [Decimal.readLeading_text hfinite]
  | setNodeId node label =>
    obtain ⟨hnode, words, hne, hwords, rfl⟩ := h
    obtain ⟨word, words, rfl⟩ := List.exists_cons_of_ne_nil hne
    have hlabel : (fields (setNodeId node (spaced (word :: words)))).flatMap Text.tokens =
        node :: word :: words := by
      rw [fields, List.flatMap_cons, List.flatMap_singleton, Text.tokens_of_isToken hnode,
        tokens_spaced hwords]
      rfl
    rw [hlabel]
    rfl
  | log text =>
    obtain ⟨words, hwords, rfl⟩ := h
    rw [fields, List.flatMap_singleton, tokens_spaced hwords]
    rfl
  | clearHighlights | clearLog => rfl

theorem Writable.spells (h : i.Writable) : Spells (Text.tokens i.line) i := by
  rw [tokens_line]
  exact Verb.spells_of_instruction? h.instruction?_flatMap

theorem writable_of_spells {words : List String} (h : Spells words i)
    (hwords : ∀ word ∈ words, IsToken word) : i.Writable := by
  cases h with
  | visit | highlightNode | unhighlightNode | markVisited | markInQueue | colorNode | colorEdge
  | highlightEdge | unhighlightEdge =>
    simp only [List.forall_mem_cons] at hwords
    simp only [Writable, hwords, and_self]
  | setEdgeWeight source target weight surplus =>
    simp only [List.forall_mem_cons] at hwords
    obtain ⟨_, hsource, htarget, _⟩ := hwords
    exact ⟨hsource, htarget, Decimal.isFinite_readLeading weight⟩
  | setNodeId node word words =>
    obtain ⟨_, hnode, hlabel⟩ := List.forall_mem_cons.mp hwords |>.imp_right List.forall_mem_cons.mp
    exact ⟨hnode, _, List.cons_ne_nil word words, hlabel, rfl⟩
  | log words => exact ⟨words, (List.forall_mem_cons.mp hwords).2, rfl⟩
  | clearHighlights | clearLog => trivial

end Instruction

namespace Command

/-- Every line is read as what its words spell, or for what they miss; of lines with the same words
only the raw forms differ.  An instruction is read from some line just when it can be written, and
then it is read from its own line. -/
theorem read_by_grammar :
    (∀ line : String,
      let words := Text.tokens line
      Text.DividedInto line.toList (words.map String.toList) ∧
      (read line).name = words.headD "" ∧ (read line).args = words.tail ∧
      (read line).raw = Text.trim line ∧
      (∀ i, (read line).action = .ok i ↔ Spells words i) ∧
      (∀ fault, (read line).action = .error fault ↔ Misses (Text.trim line) words fault) ∧
      ∀ other, Text.tokens other = words → read other =
        { read line with
          raw := Text.trim other
          action := (read line).action.mapError (Fault.inLine (Text.trim other)) }) ∧
    (∀ i : Instruction, i.Writable → (read i.line).action = .ok i) ∧
    ∀ i : Instruction, (∃ line, (read line).action = .ok i) ↔ i.Writable := by
  refine ⟨?_, ?_, ?_⟩
  · intro line words
    refine ⟨Text.tokens_eq_iff.mp rfl, ?_, ?_, raw_read line, fun i => action_read_eq_ok_iff,
      fun fault => action_read_eq_error_iff, fun other => read_of_tokens_eq⟩
    · rw [read_eq]
    · rw [read_eq]
  · intro i h
    exact action_read_eq_ok_iff.mpr h.spells
  · intro i
    constructor
    · rintro ⟨line, hline⟩
      exact Instruction.writable_of_spells (action_read_eq_ok_iff.mp hline)
        fun word => Text.isToken_of_mem_tokens
    · intro h
      exact ⟨i.line, action_read_eq_ok_iff.mpr h.spells⟩

/-- Two lines with the words of a label between other blanks, and the line of the instruction. -/
theorem read_by_grammar_of_spaced_label :
    let label : Instruction := .setNodeId "3" "a b"
    let line := " setNodeId\t3  a\u3000b\r"
    label.Writable ∧ (read label.line).action = .ok label ∧
      label.line = "setNodeId 3 a b" ∧ (read line).action = .ok label ∧
      (read "visit").action = .error (.missingArgument "visit" 1) ∧
      (read " Visit\t0").action = .error (.unrecognized "Visit\t0") ∧
      (read "Visit 0").action = .error (.unrecognized "Visit 0") := by
  intro label line
  obtain ⟨hread, hwrite, _⟩ := read_by_grammar
  have hlabel : label.Writable :=
    ⟨by decide, ["a", "b"], List.cons_ne_nil _ _, by decide, by decide⟩
  have hown := hwrite label hlabel
  have hsame := (hread label.line).2.2.2.2.2.2 line (by decide +kernel)
  have hcase := (hread " Visit\t0").2.2.2.2.2.2 "Visit 0" (by decide +kernel)
  refine ⟨hlabel, hown, by decide +kernel, ?_, ?_, ?_, ?_⟩
  · rw [hsame, hown]
    rfl
  · decide +kernel
  · decide +kernel
  · rw [hcase]
    decide +kernel

end Command

end GraphReplay
