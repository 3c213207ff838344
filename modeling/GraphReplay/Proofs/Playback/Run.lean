import GraphReplay.Playback.Operation

/-!
# Runs of a player

A run is a list of operations, done one after the other.  The lemmas on `forward`, `accept`, `play`
and the two operations that can be refused say once what these do, refusals included; later proofs
use them and do not open the functions again.
-/

namespace GraphReplay

namespace Player

/-- The player after a run. -/
def run (p : Player) (ops : List Operation) : Player :=
  ops.foldl after p

theorem run_append (p : Player) (xs ys : List Operation) :
    p.run (xs ++ ys) = (p.run xs).run ys := by
  unfold run
  rw [List.foldl_append]

/-! ## 1. Steps -/

/-- The player after a command that could be followed. -/
def advance (p : Player) (instruction : Instruction) : Player :=
  ({ p with
      scene := p.scene.perform p.settings.palette p.graph instruction
      cursor := p.cursor + 1
      paused := p.paused || p.cursor + 1 == p.commands.length }).renew

/-- The player after a faulty command. -/
def abort (p : Player) (message : Message) : Player :=
  ({ p with
      commands := []
      cursor := 0
      paused := true
      scene := { messages := [message] } }).renew

theorem forward_cases (p : Player) :
    (p.commands[p.cursor]? = none ∧ p.forward = (p, .atEnd)) ∨
      (∃ command instruction, p.commands[p.cursor]? = some command ∧
        command.action = .ok instruction ∧ p.forward = (p.advance instruction, .advanced)) ∨
      ∃ command fault, p.commands[p.cursor]? = some command ∧ command.action = .error fault ∧
        p.forward = (p.abort (fault.report p.settings command.raw), .aborted) := by
  unfold forward
  cases hcommand : p.commands[p.cursor]? with
  | none => exact Or.inl ⟨rfl, rfl⟩
  | some command =>
    right
    simp only [Scene.step]
    cases haction : command.action with
    | ok instruction => exact Or.inl ⟨command, instruction, rfl, haction, rfl⟩
    | error fault =>
      refine Or.inr ⟨command, fault, rfl, haction, ?_⟩
      -- Of the messages only the last one is kept, and that is the report.
      simp only [abort, Scene.say, List.getLast?_concat, Option.toList_some]

theorem forward_of_ok {p : Player} {command : Command} {instruction : Instruction}
    (hcommand : p.commands[p.cursor]? = some command)
    (haction : command.action = .ok instruction) :
    p.forward = (p.advance instruction, .advanced) := by
  unfold forward
  rw [hcommand]
  simp only [Scene.step, haction]
  rfl

theorem backward_cases (p : Player) :
    (p.cursor = 0 ∧ p.backward = (p, false)) ∨
      (0 < p.cursor ∧ p.backward =
        (({ p with scene := p.replay (p.cursor - 1), cursor := p.cursor - 1 }).renew, true)) := by
  unfold backward
  by_cases h : p.cursor = 0
  · exact Or.inl ⟨h, if_pos h⟩
  · exact Or.inr ⟨Nat.pos_of_ne_zero h, if_neg h⟩

/-! ## 2. The clock -/

/-- A tick is a step forward if it is the one that a running player waits for, and nothing else. -/
theorem accept_cases (p : Player) (token : UInt64) :
    ((token ≠ p.token ∨ p.paused = true) ∧ p.accept token = (p, none)) ∨
      (token = p.token ∧ p.paused = false ∧
        p.accept token = (p.forward.1, some p.forward.2)) := by
  unfold accept
  by_cases htoken : token = p.token
  · cases hpaused : p.paused with
    | true => exact Or.inl ⟨Or.inr rfl, by simp⟩
    | false => exact Or.inr ⟨htoken, rfl, by simp [htoken]⟩
  · exact Or.inl ⟨Or.inl htoken, by simp [htoken]⟩

/-- A start needs a trace, and begins at the start of it if it was followed to its end. -/
theorem play_cases (p : Player) :
    (p.commands = [] ∧ p.play = p) ∨
      (p.cursor < p.commands.length ∧ p.play = ({ p with paused := false }).renew) ∨
      (p.commands ≠ [] ∧ p.commands.length ≤ p.cursor ∧
        p.play = ({ p.rewind with paused := false }).renew) := by
  unfold play
  by_cases hcommands : p.commands = []
  · exact Or.inl ⟨hcommands, by rw [hcommands]; rfl⟩
  · right
    have hne : ¬ p.commands.isEmpty = true := fun h => hcommands (List.isEmpty_iff.mp h)
    rw [if_neg hne]
    by_cases hcursor : p.commands.length ≤ p.cursor
    · exact Or.inr ⟨hcommands, hcursor, by rw [if_pos hcursor]⟩
    · exact Or.inl ⟨Nat.lt_of_not_le hcursor, by rw [if_neg hcursor]⟩

/-! ## 3. Operations that can be refused -/

theorem after_readGraph_cases (p : Player) (text : String) :
    p.after (.readGraph text) = p ∨
      ∃ graph, Graph.read text p.graph.directed = .ok graph ∧
        p.after (.readGraph text) = p.setGraph graph := by
  simp only [after, readGraph]
  cases hread : Graph.read text p.graph.directed with
  | error _ => exact Or.inl rfl
  | ok graph => exact Or.inr ⟨graph, rfl, rfl⟩

theorem after_setSpeed_cases (p : Player) (speed : Float) :
    p.after (.setSpeed speed) = p ∨
      ∃ taken, p.after (.setSpeed speed) = ({ p with speed := taken }).renew := by
  simp only [after, setSpeed]
  split
  · exact Or.inl rfl
  · split
    · exact Or.inl rfl
    · exact Or.inr ⟨_, rfl⟩

/-! ## 4. Operations -/

/-- Everything that an operation can do to a player. -/
inductive Change (p : Player) : Operation → Player → Prop where
  | nothing (op : Operation) : Change p op p
  | graphRead {text : String} {graph : Graph} (hread : Graph.read text p.graph.directed = .ok graph) :
      Change p (.readGraph text) (p.setGraph graph)
  | graphSet (graph : Graph) : Change p (.setGraph graph) (p.setGraph graph)
  | graphEdited (edit : Graph.Edit) : Change p (.edit edit) (p.setGraph (p.graph.edit edit))
  | advanced (op : Operation) {command : Command} {instruction : Instruction}
      (hcommand : p.commands[p.cursor]? = some command)
      (haction : command.action = .ok instruction) : Change p op (p.advance instruction)
  | aborted (op : Operation) {command : Command} {fault : Fault}
      (hcommand : p.commands[p.cursor]? = some command) (haction : command.action = .error fault) :
      Change p op (p.abort (fault.report p.settings command.raw))
  | steppedBack (hpos : 0 < p.cursor) :
      Change p .backward
        ({ p with scene := p.replay (p.cursor - 1), cursor := p.cursor - 1 }).renew
  | started (op : Operation) (hcursor : p.cursor < p.commands.length) :
      Change p op ({ p with paused := false }).renew
  | startedOver (op : Operation) (hcommands : p.commands ≠ [])
      (hcursor : p.commands.length ≤ p.cursor) : Change p op ({ p.rewind with paused := false }).renew
  | stopped (op : Operation) : Change p op p.pause
  | speedSet (speed taken : Float) : Change p (.setSpeed speed) ({ p with speed := taken }).renew
  | traceLoaded (text : String) : Change p (.loadTrace text) (p.loadTrace text)
  | wasReset : Change p .reset p.reset
  | cleared : Change p .clear p.clear

theorem forward_change (p : Player) (op : Operation) : Change p op p.forward.1 := by
  rcases p.forward_cases with ⟨_, h⟩ | ⟨_, _, hcommand, haction, h⟩ | ⟨_, _, hcommand, haction, h⟩ <;>
    rw [h]
  · exact .nothing op
  · exact .advanced op hcommand haction
  · exact .aborted op hcommand haction

theorem play_change (p : Player) (op : Operation) : Change p op p.play := by
  rcases p.play_cases with ⟨_, h⟩ | ⟨hcursor, h⟩ | ⟨hcommands, hcursor, h⟩ <;> rw [h]
  · exact .nothing op
  · exact .started op hcursor
  · exact .startedOver op hcommands hcursor

theorem after_change (p : Player) (op : Operation) : Change p op (p.after op) := by
  cases op with
  | loadTrace text => exact .traceLoaded text
  | readGraph text =>
    rcases p.after_readGraph_cases text with h | ⟨graph, hread, h⟩ <;> rw [h]
    · exact .nothing _
    · exact .graphRead hread
  | setGraph graph => exact .graphSet graph
  | edit edit => exact .graphEdited edit
  | forward => exact p.forward_change _
  | backward =>
    show Change p .backward p.backward.1
    rcases p.backward_cases with ⟨_, h⟩ | ⟨hpos, h⟩ <;> rw [h]
    · exact .nothing _
    · exact .steppedBack hpos
  | play => exact p.play_change _
  | pause => exact .stopped _
  | toggle =>
    show Change p .toggle p.toggle
    unfold toggle
    split
    · exact p.play_change _
    · exact .stopped _
  | reset => exact .wasReset
  | clear => exact .cleared
  | setSpeed speed =>
    rcases p.after_setSpeed_cases speed with h | ⟨taken, h⟩ <;> rw [h]
    · exact .nothing _
    · exact .speedSet speed taken
  | tick token =>
    show Change p (.tick token) (p.accept token).1
    rcases p.accept_cases token with ⟨_, h⟩ | ⟨_, _, h⟩ <;> rw [h]
    · exact .nothing _
    · exact p.forward_change _

theorem Change.settings_eq {p q : Player} {op : Operation} (h : Change p op q) :
    q.settings = p.settings := by
  cases h <;> rfl

theorem settings_run (p : Player) (ops : List Operation) : (p.run ops).settings = p.settings := by
  induction ops generalizing p with
  | nil => rfl
  | cons op ops ih => exact (ih (p.after op)).trans (p.after_change op).settings_eq

end Player

end GraphReplay
