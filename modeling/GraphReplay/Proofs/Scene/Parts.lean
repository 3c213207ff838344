import Mathlib.Data.List.DropRight
import GraphReplay.Proofs.Playback.StepBack

/-!
# The parts of a scene

A scene has three parts: the marks of nodes, the marks of edges and the messages.  What a command
writes to a part it makes from that part alone, and all but `clearHighlights` write to one part
only, so each part is what the commands about it come to (`Part.follow_filter`).  The graph is read
for the marks of edges and for nothing else: whatever is done to it while a trace is followed, nodes
and messages are those of a replay.
-/

namespace GraphReplay

/-! ## 1. What an instruction is about -/

namespace Instruction

def marksNodes : Instruction → Bool
  | .visit _ | .colorNode .. | .highlightNode _ | .unhighlightNode _ | .clearHighlights
  | .markVisited _ | .markInQueue _ | .setNodeId .. => true
  | _ => false

def marksEdges : Instruction → Bool
  | .colorEdge .. | .highlightEdge .. | .unhighlightEdge .. | .clearHighlights
  | .setEdgeWeight .. => true
  | _ => false

def marksMessages : Instruction → Bool
  | .log _ | .clearLog => true
  | _ => false

def clearsMessages : Instruction → Bool
  | .clearLog => true
  | _ => false

def said? : Instruction → Option Message
  | .log text => some ⟨.info, text⟩
  | _ => none

end Instruction

namespace Command

/-- Whether a command marks nodes; a faulty one marks nothing. -/
def marksNodes (command : Command) : Bool :=
  command.action.toOption.any Instruction.marksNodes

def marksEdges (command : Command) : Bool :=
  command.action.toOption.any Instruction.marksEdges

/-- Whether a command changes the messages; a faulty one adds a message about its fault. -/
def marksMessages (command : Command) : Bool :=
  command.action.toOption.all Instruction.marksMessages

def clearsMessages (command : Command) : Bool :=
  command.action.toOption.any Instruction.clearsMessages

/-- The message of a `log` command. -/
def said? (command : Command) : Option Message :=
  command.action.toOption.bind Instruction.said?

variable {command : Command} {instruction : Instruction}

theorem marksNodes_of_ok (haction : command.action = .ok instruction) :
    command.marksNodes = instruction.marksNodes := by
  rw [marksNodes, haction]
  rfl

theorem marksEdges_of_ok (haction : command.action = .ok instruction) :
    command.marksEdges = instruction.marksEdges := by
  rw [marksEdges, haction]
  rfl

theorem marksMessages_of_ok (haction : command.action = .ok instruction) :
    command.marksMessages = instruction.marksMessages := by
  rw [marksMessages, haction]
  rfl

end Command

/-! ## 2. Parts -/

namespace Scene

variable {s t : Scene} {settings : Settings}

/-- The scene after these commands, each over a graph of its own. -/
def follow (settings : Settings) (s : Scene) (steps : List (Command × Graph)) : Scene :=
  steps.foldl (fun s step => (s.step settings step.2 step.1).scene) s

theorem follow_cons (s : Scene) (step : Command × Graph) (steps : List (Command × Graph)) :
    s.follow settings (step :: steps) =
      (s.step settings step.2 step.1).scene.follow settings steps := rfl

theorem follow_concat (s : Scene) (steps : List (Command × Graph)) (step : Command × Graph) :
    s.follow settings (steps ++ [step]) =
      ((s.follow settings steps).step settings step.2 step.1).scene := by
  unfold follow
  rw [List.foldl_append]
  rfl

theorem step_of_ok {command : Command} {instruction : Instruction}
    (haction : command.action = .ok instruction) (s : Scene) (graph : Graph) :
    (s.step settings graph command).scene = s.perform settings.palette graph instruction := by
  simp only [step, haction, LineResult.scene]

theorem step_of_error {command : Command} {fault : Fault} (haction : command.action = .error fault)
    (s : Scene) (graph : Graph) :
    (s.step settings graph command).scene = s.say (fault.report settings command.raw) := by
  simp only [step, haction, LineResult.scene]

/-- A part of a scene to which only some commands write, and these without a look at the rest. -/
structure Part {α : Type} (settings : Settings) (part : Scene → α) (writes : Command → Bool) :
    Prop where
  kept : ∀ (s : Scene) (graph : Graph) {command : Command}, writes command = false →
    part (s.step settings graph command).scene = part s
  alone : ∀ {s t : Scene} (graph : Graph) (command : Command), part s = part t →
    part (s.step settings graph command).scene = part (t.step settings graph command).scene

/-- For a part of the scene, the commands that do not write to it can be left out. -/
theorem Part.follow_filter {α : Type} {part : Scene → α} {writes : Command → Bool}
    (h : Part settings part writes) (hst : part s = part t) (steps : List (Command × Graph)) :
    part (s.follow settings steps) =
      part (t.follow settings (steps.filter fun step => writes step.1)) := by
  induction steps generalizing s t with
  | nil => exact hst
  | cons step steps ih =>
    rw [follow_cons, List.filter_cons]
    split
    · exact ih (h.alone step.2 step.1 hst)
    · next hwrites =>
      exact ih ((h.kept s step.2 (Bool.eq_false_iff.mpr hwrites)).trans hst)

/-- Commands that do not both write to a part may change places, as far as it goes. -/
theorem Part.step_comm {α : Type} {part : Scene → α} {writes : Command → Bool}
    (h : Part settings part writes) {a b : Command} (hwrites : writes a = false ∨ writes b = false)
    (s : Scene) (graph : Graph) :
    part ((s.step settings graph a).scene.step settings graph b).scene =
      part ((s.step settings graph b).scene.step settings graph a).scene := by
  rcases hwrites with ha | hb
  · calc
      _ = part (s.step settings graph b).scene := h.alone graph b (h.kept s graph ha)
      _ = _ := (h.kept _ graph ha).symm
  · calc
      _ = part (s.step settings graph a).scene := h.kept _ graph hb
      _ = _ := (h.alone graph a (h.kept s graph hb)).symm

theorem nodes_perform_of_not_marksNodes {instruction : Instruction}
    (h : instruction.marksNodes = false) (s : Scene) (palette : Palette) (graph : Graph) :
    (s.perform palette graph instruction).nodes = s.nodes := by
  cases instruction <;> first | rfl | exact nomatch h

theorem edges_perform_of_not_marksEdges {instruction : Instruction}
    (h : instruction.marksEdges = false) (s : Scene) (palette : Palette) (graph : Graph) :
    (s.perform palette graph instruction).edges = s.edges := by
  cases instruction <;> first | rfl | exact nomatch h

theorem nodes_perform_congr (h : s.nodes = t.nodes) (palette : Palette) (graph other : Graph)
    (instruction : Instruction) :
    (s.perform palette graph instruction).nodes = (t.perform palette other instruction).nodes := by
  cases instruction <;> simp only [perform, onNode, onEdges, say, h]

theorem edges_perform_congr (h : s.edges = t.edges) (palette : Palette) (graph : Graph)
    (instruction : Instruction) :
    (s.perform palette graph instruction).edges = (t.perform palette graph instruction).edges := by
  cases instruction <;> simp only [perform, onNode, onEdges, say, h]

theorem part_nodes (settings : Settings) : Part settings nodes Command.marksNodes where
  kept := by
    intro s graph command h
    cases haction : command.action with
    | ok instruction =>
      rw [Command.marksNodes_of_ok haction] at h
      rw [step_of_ok haction]
      exact nodes_perform_of_not_marksNodes h s settings.palette graph
    | error fault =>
      rw [step_of_error haction]
      rfl
  alone := by
    intro s t graph command h
    cases haction : command.action with
    | ok instruction =>
      rw [step_of_ok haction, step_of_ok haction]
      exact nodes_perform_congr h settings.palette graph graph instruction
    | error fault =>
      rw [step_of_error haction, step_of_error haction]
      exact h

theorem part_edges (settings : Settings) : Part settings edges Command.marksEdges where
  kept := by
    intro s graph command h
    cases haction : command.action with
    | ok instruction =>
      rw [Command.marksEdges_of_ok haction] at h
      rw [step_of_ok haction]
      exact edges_perform_of_not_marksEdges h s settings.palette graph
    | error fault =>
      rw [step_of_error haction]
      rfl
  alone := by
    intro s t graph command h
    cases haction : command.action with
    | ok instruction =>
      rw [step_of_ok haction, step_of_ok haction]
      exact edges_perform_congr h settings.palette graph instruction
    | error fault =>
      rw [step_of_error haction, step_of_error haction]
      exact h

/-! ## 3. Messages -/

theorem messages_perform (s : Scene) (palette : Palette) (graph : Graph)
    (instruction : Instruction) :
    (s.perform palette graph instruction).messages =
      if instruction.clearsMessages then [] else s.messages ++ instruction.said?.toList := by
  cases instruction with
  | log text => rfl
  | clearLog => rfl
  | _ => exact (List.append_nil s.messages).symm

theorem part_messages (settings : Settings) : Part settings messages Command.marksMessages where
  kept := by
    intro s graph command h
    cases haction : command.action with
    | ok instruction =>
      rw [Command.marksMessages_of_ok haction] at h
      rw [step_of_ok haction]
      cases instruction <;> first | rfl | exact nomatch h
    | error fault =>
      rw [Command.marksMessages, haction] at h
      exact nomatch h
  alone := by
    intro s t graph command h
    cases haction : command.action with
    | ok instruction =>
      rw [step_of_ok haction, step_of_ok haction, messages_perform, messages_perform, h]
    | error fault =>
      rw [step_of_error haction, step_of_error haction]
      exact congrArg (· ++ [_]) h

/-- The messages are those of the `log` commands after the last `clearLog`. -/
theorem messages_follow {steps : List (Command × Graph)}
    (h : ∀ step ∈ steps, ∃ instruction, step.1.action = .ok instruction) :
    (empty.follow settings steps).messages =
      ((steps.map Prod.fst).rtakeWhile fun command => !command.clearsMessages).filterMap
        Command.said? := by
  induction steps using List.reverseRecOn with
  | nil => rfl
  | append_singleton steps step ih =>
    have hsteps : ∀ earlier ∈ steps, ∃ instruction, earlier.1.action = .ok instruction :=
      fun earlier hmem => h earlier (List.mem_append_left [step] hmem)
    obtain ⟨instruction, haction⟩ := h step (List.mem_append_right steps List.mem_cons_self)
    have hclears : step.1.clearsMessages = instruction.clearsMessages := by
      rw [Command.clearsMessages, haction]
      rfl
    have hsaid : step.1.said? = instruction.said? := by
      rw [Command.said?, haction]
      rfl
    rw [follow_concat, step_of_ok haction, messages_perform, ih hsteps, List.map_append,
      List.map_singleton, List.rtakeWhile_concat, hclears]
    cases instruction.clearsMessages with
    | true => rfl
    | false =>
      rw [if_neg Bool.false_ne_true, Bool.not_false, if_pos rfl, List.filterMap_append, ← hsaid]
      cases hlast : step.1.said? with
      | none => rw [List.filterMap_cons_none hlast]; rfl
      | some message => rw [List.filterMap_cons_some hlast]; rfl

/-! ## 4. Graphs -/

theorem SameOffEdges.follow (h : SameOffEdges s t) {steps others : List (Command × Graph)}
    (hcommands : steps.map Prod.fst = others.map Prod.fst) :
    SameOffEdges (s.follow settings steps) (t.follow settings others) := by
  induction steps generalizing s t others with
  | nil =>
    cases others with
    | nil => exact h
    | cons other others => exact nomatch hcommands
  | cons step steps ih =>
    cases others with
    | nil => exact nomatch hcommands
    | cons other others =>
      rw [List.map_cons, List.map_cons, List.cons.injEq] at hcommands
      have hstep := h.step settings step.2 other.2 step.1
      rw [follow_cons, follow_cons, ← hcommands.1]
      exact ih hstep hcommands.2

theorem sameOffEdges_replay_run (settings : Settings) (ops : List Operation)
    (hcommands : ((Player.new settings).run ops).commands ≠ []) :
    let p := (Player.new settings).run ops
    SameOffEdges (p.replay p.cursor) p.scene := by
  intro p
  have hnew : Player.Faithful (Player.new settings) [] := Player.Faithful.atStart rfl rfl
  have h : Player.Faithful p ((Player.new settings).history ops) := hnew.run ops
  rcases Nat.eq_zero_or_pos p.cursor with hzero | hpos
  · rw [(h.forget hzero).scene_eq_replay hcommands nofun]
    exact ⟨rfl, rfl⟩
  · obtain ⟨steps, hscene, hreplay, _⟩ := h.exists_steps hpos
    rw [hscene, hreplay]
    exact sameOffEdges_replay p.settings p.graph steps

/-- Commands followed over whatever graphs give the same nodes and messages.  The nodes are those of
the node commands alone, the marks of edges those of the edge commands alone, with `clearHighlights`
among both, and the messages those of the `log` commands after the last `clearLog`.  So a player
with a trace always shows the nodes and the messages of a replay. -/
theorem parts_do_not_interfere (settings : Settings) :
    (∀ (s : Scene) (steps others : List (Command × Graph)),
      steps.map Prod.fst = others.map Prod.fst →
      (s.follow settings steps).nodes = (s.follow settings others).nodes ∧
        (s.follow settings steps).messages = (s.follow settings others).messages) ∧
    (∀ (s : Scene) (steps : List (Command × Graph)),
      (s.follow settings steps).nodes =
          (s.follow settings (steps.filter fun step => step.1.marksNodes)).nodes ∧
        (s.follow settings steps).edges =
          (s.follow settings (steps.filter fun step => step.1.marksEdges)).edges) ∧
    (∀ steps : List (Command × Graph),
      (∀ step ∈ steps, ∃ instruction, step.1.action = .ok instruction) →
      (empty.follow settings steps).messages =
        ((steps.map Prod.fst).rtakeWhile fun command => !command.clearsMessages).filterMap
          Command.said?) ∧
    ∀ ops : List Operation,
      let p := (Player.new settings).run ops
      p.commands ≠ [] →
        p.scene.nodes = (p.replay p.cursor).nodes ∧
          p.scene.messages = (p.replay p.cursor).messages := by
  refine ⟨?_, ?_, ?_, ?_⟩
  · intro s steps others hcommands
    have hsame : SameOffEdges s s := ⟨rfl, rfl⟩
    exact ⟨(hsame.follow hcommands).nodes, (hsame.follow hcommands).messages⟩
  · intro s steps
    exact ⟨(part_nodes settings).follow_filter rfl steps,
      (part_edges settings).follow_filter rfl steps⟩
  · intro steps h
    exact messages_follow h
  · intro ops p hcommands
    have hsame : SameOffEdges (p.replay p.cursor) p.scene :=
      sameOffEdges_replay_run settings ops hcommands
    exact ⟨hsame.nodes.symm, hsame.messages.symm⟩

/-- A connection is ended and another graph is read while a trace is followed: only the marks of
edges are not those of a replay. -/
theorem parts_do_not_interfere_of_graph_read_between :
    let text := "log a\ncolorEdge 0 1 red\nvisit 0\nclearLog\nlog b  c\ncolorNode 1 blue\nlog d"
    let steps := (readTrace text).map fun command => (command, Graph.empty true)
    let others := (readTrace text).map fun command => (command, Graph.ofEnds false 2 [(0, 1)])
    let ops : List Operation := [.readGraph "2 1\n0 1", .loadTrace text, .forward, .forward,
      .edit (.disconnect "0" "1"), .forward, .forward, .readGraph "1 0", .forward, .forward,
      .forward]
    (empty.follow Settings.standard steps).nodes = (empty.follow Settings.standard others).nodes ∧
      (empty.follow Settings.standard steps).messages = [⟨.info, "b c"⟩, ⟨.info, "d"⟩] ∧
      ∃ p, p = (Player.new Settings.standard).run ops ∧ p.commands ≠ [] ∧ p.cursor = 7 ∧
        p.scene.nodes = (p.replay p.cursor).nodes ∧
        p.scene.messages = (p.replay p.cursor).messages ∧
        p.scene.edges ≠ (p.replay p.cursor).edges := by
  intro text steps others ops
  obtain ⟨hgraphs, _, hmessages, hplayer⟩ := parts_do_not_interfere Settings.standard
  have hcommands : steps.map Prod.fst = others.map Prod.fst := by
    rw [List.map_map, List.map_map]
    rfl
  have hread : ∀ step ∈ steps, step.1.action.toOption.isSome = true := by decide +kernel
  have hfollowable : ∀ step ∈ steps, ∃ instruction, step.1.action = .ok instruction := by
    intro step hstep
    have hsome := hread step hstep
    cases haction : step.1.action with
    | ok instruction => exact ⟨instruction, rfl⟩
    | error fault =>
      rw [haction] at hsome
      exact nomatch hsome
  have hloaded : ((Player.new Settings.standard).run ops).commands ≠ [] := by decide +kernel
  obtain ⟨hnodes, hsaid⟩ := hplayer ops hloaded
  refine ⟨(hgraphs empty steps others hcommands).1, ?_, _, rfl, hloaded, ?_, hnodes, hsaid, ?_⟩
  · rw [hmessages steps hfollowable]
    decide +kernel
  · decide +kernel
  · decide +kernel

end Scene

end GraphReplay
