import GraphReplay.Proofs.Playback.History
import GraphReplay.Proofs.Playback.Phases

/-!
# A step back and the step forward after it

A step back follows the commands that stay over the graph of its own moment, and not over the graphs
over which they were followed before.  Only the marks of edges can show that: node instructions and
messages do not read the graph.  So a step back and the step forward after it lead to the same place
in the trace and to the same nodes and messages, and to the same marks of every record that each
command reaches over the present graph just when it reached it before.
-/

namespace GraphReplay

/-! ## 1. Instructions over two graphs -/

/-- The instruction is about the connection from `s` to `t`. -/
inductive Instruction.About (s t : String) : Instruction → Prop where
  | colorEdge (color : String) : About s t (.colorEdge s t color)
  | highlightEdge : About s t (.highlightEdge s t)
  | unhighlightEdge : About s t (.unhighlightEdge s t)
  | setEdgeWeight (weight : Float) : About s t (.setEdgeWeight s t weight)

/-- The ids of the records that an instruction marks. -/
def Instruction.reached (graph : Graph) : Instruction → List String
  | .colorEdge source target _ => graph.recordIds source target
  | .highlightEdge source target => graph.recordIds source target
  | .unhighlightEdge source target => graph.recordIds source target
  | .setEdgeWeight source target _ => graph.recordIds source target
  | _ => []

theorem Instruction.About.reached_eq {s t : String} {instruction : Instruction}
    (h : instruction.About s t) (graph : Graph) : instruction.reached graph = graph.recordIds s t := by
  cases h <;> rfl

/-- The ids of the records that a line marks; a faulty line marks none. -/
def Command.reached (graph : Graph) (command : Command) : List String :=
  match command.action with
  | .ok instruction => instruction.reached graph
  | .error _ => []

/-- The scenes have the same marks of nodes and the same messages. -/
structure Scene.SameOffEdges (s t : Scene) : Prop where
  nodes : s.nodes = t.nodes
  messages : s.messages = t.messages

namespace Scene

variable {s t : Scene} {graph other : Graph}

theorem get?_edges_onEdges {f : EdgeMarks → EdgeMarks} (hf : ∀ e, f (f e) = f e) (s : Scene)
    (ids : List String) (id : String) :
    (s.onEdges ids f).edges.get? id =
      if id ∈ ids then some (f (s.edges.get id)) else s.edges.get? id := by
  induction ids generalizing s with
  | nil => rfl
  | cons first ids ih =>
    have hrest := ih (s.onEdges [first] f)
    change (s.onEdges (first :: ids) f).edges.get? id = _ at hrest
    rw [hrest]
    show (if id ∈ ids then some (f ((s.edges.update first f).get id))
      else (s.edges.update first f).get? id) = _
    by_cases hfirst : id = first
    · -- The record is marked at once, and marking it again changes nothing.
      rw [hfirst, if_pos List.mem_cons_self, Marks.get_update_self, hf]
      simp [Marks.update]
    · rw [Marks.get_update_of_ne _ hfirst]
      simp [Marks.update, Marks.get?_put_of_ne _ hfirst, hfirst]

theorem get?_edges_onEdges_congr {f : EdgeMarks → EdgeMarks} (hf : ∀ e, f (f e) = f e) {id : String}
    (h : s.edges.get? id = t.edges.get? id) {ids others : List String}
    (hids : id ∈ ids ↔ id ∈ others) :
    (s.onEdges ids f).edges.get? id = (t.onEdges others f).edges.get? id := by
  rw [get?_edges_onEdges hf, get?_edges_onEdges hf, Marks.get, h, ← Marks.get]
  simp only [hids]

theorem get?_edges_perform_congr {id : String} (h : s.edges.get? id = t.edges.get? id)
    {instruction : Instruction}
    (hreached : id ∈ instruction.reached graph ↔ id ∈ instruction.reached other)
    (palette : Palette) :
    (s.perform palette graph instruction).edges.get? id =
      (t.perform palette other instruction).edges.get? id := by
  -- A record is marked in both scenes or in neither.
  cases instruction with
  | colorEdge source target color =>
    apply get?_edges_onEdges_congr _ h hreached
    exact fun _ => rfl
  | highlightEdge source target =>
    apply get?_edges_onEdges_congr _ h hreached
    exact fun _ => rfl
  | unhighlightEdge source target =>
    apply get?_edges_onEdges_congr _ h hreached
    exact fun _ => rfl
  | setEdgeWeight source target weight =>
    apply get?_edges_onEdges_congr _ h hreached
    exact fun _ => rfl
  | clearHighlights =>
    show (s.edges.map EdgeMarks.clear).get? id = (t.edges.map EdgeMarks.clear).get? id
    rw [Marks.get?_map, Marks.get?_map, h]
  | _ => exact h

theorem get?_edges_step_congr {id : String} (h : s.edges.get? id = t.edges.get? id)
    {command : Command} (hreached : id ∈ command.reached graph ↔ id ∈ command.reached other)
    (settings : Settings) :
    (s.step settings graph command).scene.edges.get? id =
      (t.step settings other command).scene.edges.get? id := by
  unfold Command.reached at hreached
  unfold step
  cases haction : command.action with
  | ok instruction =>
    rw [haction] at hreached
    exact get?_edges_perform_congr h hreached settings.palette
  | error fault => exact h

namespace SameOffEdges

theorem eq_of_edges_eq (h : SameOffEdges s t) (hedges : s.edges = t.edges) : s = t := by
  cases s
  cases t
  rw [Scene.mk.injEq]
  exact ⟨h.nodes, hedges, h.messages⟩

theorem perform (h : SameOffEdges s t) (palette : Palette) (graph other : Graph)
    (instruction : Instruction) :
    SameOffEdges (s.perform palette graph instruction) (t.perform palette other instruction) := by
  obtain ⟨hnodes, hmessages⟩ := h
  -- Those that read the graph write to the marks of edges only.
  cases instruction <;>
    constructor <;> simp only [Scene.perform, onNode, onEdges, say, hnodes, hmessages]

theorem step (h : SameOffEdges s t) (settings : Settings) (graph other : Graph)
    (command : Command) :
    SameOffEdges (s.step settings graph command).scene
      (t.step settings other command).scene := by
  unfold Scene.step
  cases command.action with
  | ok instruction => exact h.perform settings.palette graph other instruction
  | error fault => exact ⟨h.nodes, congrArg (· ++ [_]) h.messages⟩

end SameOffEdges

/-! ## 2. Lines over a graph each, and over one graph -/

theorem replay_map_fst (settings : Settings) (graph : Graph) (steps : List (Command × Graph)) :
    replay settings graph (steps.map Prod.fst) =
      steps.foldl (fun s step => (s.step settings graph step.1).scene) empty := by
  rw [replay, List.foldl_map]

theorem sameOffEdges_replay (settings : Settings) (graph : Graph)
    (steps : List (Command × Graph)) :
    SameOffEdges (replay settings graph (steps.map Prod.fst)) (replayOver settings steps) := by
  rw [replay_map_fst]
  apply List.foldl_rel (r := SameOffEdges) ⟨rfl, rfl⟩
  intro step _ s t h
  exact h.step settings graph step.2 step.1

theorem get?_edges_replay (settings : Settings) {graph : Graph} {steps : List (Command × Graph)}
    {id : String}
    (h : ∀ step ∈ steps, id ∈ step.1.reached graph ↔ id ∈ step.1.reached step.2) :
    (replay settings graph (steps.map Prod.fst)).edges.get? id =
      (replayOver settings steps).edges.get? id := by
  rw [replay_map_fst]
  apply List.foldl_rel (r := fun s t : Scene => s.edges.get? id = t.edges.get? id) rfl
  intro step hstep s t hst
  exact get?_edges_step_congr hst (h step hstep) settings

end Scene

/-! ## 3. Back and forth -/

namespace Player

variable {p : Player} {past : List Followed}

/-- Every command before the cursor reaches the record `id` over the present graph just when it
reached it over the graph that it was last followed over. -/
def ReachesAsBefore (p : Player) (past : List Followed) (id : String) : Prop :=
  ∀ index < p.cursor, ∀ command ∈ p.commands[index]?, ∀ graph ∈ lastGraph? past index,
    id ∈ command.reached p.graph ↔ id ∈ command.reached graph

theorem replay_succ {count : Nat} {command : Command} {instruction : Instruction}
    (hcommand : p.commands[count]? = some command) (haction : command.action = .ok instruction) :
    p.replay (count + 1) = (p.replay count).perform p.settings.palette p.graph instruction := by
  unfold replay Scene.replay
  rw [List.take_add_one, hcommand, Option.toList_some, List.foldl_append]
  simp only [List.foldl_cons, List.foldl_nil, Scene.step, haction, LineResult.scene]

namespace Faithful

/-- The step back is taken, and the step forward after it as well; the scene is then that of the
commands before the cursor over the present graph. -/
theorem forward_backward (h : Faithful p past) (hgo : p.CanGoOn) (hpos : 1 ≤ p.cursor) :
    p.backward.2 = true ∧
      p.backward.1.forward =
        ({ p with scene := p.replay p.cursor, token := p.token + 1 + 1 }, .advanced) := by
  have hle := h.cursor_le
  have hlt : p.cursor - 1 < p.commands.length := by omega
  have hcount : p.cursor - 1 + 1 = p.cursor := by omega
  have hcommand : p.commands[p.cursor - 1]? = some p.commands[p.cursor - 1] :=
    List.getElem?_eq_getElem hlt
  have hmem : p.commands[p.cursor - 1] ∈ p.commands.take p.cursor :=
    List.mem_take_iff_getElem.mpr ⟨p.cursor - 1, by omega, rfl⟩
  obtain ⟨instruction, haction⟩ := h.followable _ hmem
  -- A player that runs is not at the end, so the step forward does not pause it.
  have hpaused : (p.paused || p.cursor == p.commands.length) = p.paused := by
    cases hp : p.paused with
    | true => rfl
    | false =>
      have hend : p.cursor < p.commands.length := hgo hp
      rw [Bool.false_or, beq_eq_false_iff_ne]
      omega
  let back : Player := ({ p with scene := p.replay (p.cursor - 1), cursor := p.cursor - 1 }).renew
  have hbackward : p.backward = (back, true) := by
    rcases p.backward_cases with ⟨hzero, _⟩ | ⟨_, hbackward⟩
    · omega
    · exact hbackward
  have hforward : back.forward = (back.advance instruction, .advanced) :=
    forward_of_ok hcommand haction
  have hscene : back.scene.perform p.settings.palette p.graph instruction = p.replay p.cursor := by
    rw [← hcount, replay_succ hcommand haction]
    rfl
  rw [hbackward]
  refine ⟨rfl, ?_⟩
  show back.forward = _
  rw [hforward]
  show (({ p with
      scene := back.scene.perform p.settings.palette p.graph instruction
      cursor := p.cursor - 1 + 1
      paused := p.paused || p.cursor - 1 + 1 == p.commands.length
      token := p.token + 1 + 1 } : Player), StepResult.advanced) = _
  rw [hscene, hcount, hpaused]

theorem exists_steps (h : Faithful p past) (hpos : 1 ≤ p.cursor) :
    ∃ steps : List (Command × Graph), p.scene = Scene.replayOver p.settings steps ∧
      p.replay p.cursor = Scene.replay p.settings p.graph (steps.map Prod.fst) ∧
      ∀ step ∈ steps, ∃ index < p.cursor, step.1 ∈ p.commands[index]? ∧
        step.2 ∈ lastGraph? past index := by
  have hle := h.cursor_le
  have hne : p.commands ≠ [] := List.ne_nil_of_length_pos (by omega)
  obtain ⟨graphs, hlength, hgraphs, hscene⟩ := h.replayed hne
  refine ⟨(p.commands.take p.cursor).zip graphs, hscene, ?_, ?_⟩
  · have hcount : (p.commands.take p.cursor).length ≤ graphs.length := by
      rw [List.length_take, hlength]
      omega
    rw [List.map_fst_zip hcount]
    rfl
  · -- A step of the pairing is a line before the cursor with the graph that the history has for it.
    intro step hstep
    obtain ⟨index, hindex⟩ := List.mem_iff_getElem?.mp hstep
    obtain ⟨hcommand, hgraph⟩ := List.getElem?_zip_eq_some.mp hindex
    have hlt : index < p.cursor := hlength ▸ (List.getElem?_eq_some_iff.mp hgraph).1
    rw [List.getElem?_take_of_lt hlt] at hcommand
    exact ⟨index, hlt, hcommand, (hgraphs index hlt).trans hgraph⟩

end Faithful

/-- A step back can be taken at every moment of every run at which a command was followed, and so
can the step forward after it.  The two change the token and, of the scene, the marks of edges at most:
those of a record stay if every command before the cursor reaches it as before. -/
theorem forward_backward_run (settings : Settings) (ops : List Operation)
    (hpos : 1 ≤ ((new settings).run ops).cursor) :
    let p := (new settings).run ops
    let q := p.backward.1.forward.1
    let past := (new settings).history ops
    p.backward.2 = true ∧ p.backward.1.forward.2 = .advanced ∧
      q = { p with scene := p.replay p.cursor, token := p.token + 1 + 1 } ∧
      q.scene.nodes = p.scene.nodes ∧ q.scene.messages = p.scene.messages ∧
      (∀ id, p.ReachesAsBefore past id → q.scene.edges.get? id = p.scene.edges.get? id) ∧
      ((∀ id, p.ReachesAsBefore past id) → q = { p with token := p.token + 1 + 1 }) := by
  intro p q past
  have hnew : Faithful (new settings) [] := Faithful.atStart rfl rfl
  have h : Faithful p past := hnew.run ops
  obtain ⟨hbackward, hforward⟩ := h.forward_backward (canGoOn_run (canGoOn_new settings) ops) hpos
  have hq : q = { p with scene := p.replay p.cursor, token := p.token + 1 + 1 } :=
    congrArg Prod.fst hforward
  obtain ⟨steps, hscene, hreplay, hsteps⟩ := h.exists_steps hpos
  -- Both scenes are folds over the same lines, each over graphs of its own.
  have hoff : q.scene.SameOffEdges p.scene := by
    rw [hq, hscene]
    show Scene.SameOffEdges (p.replay p.cursor) _
    rw [hreplay]
    exact Scene.sameOffEdges_replay p.settings p.graph steps
  have hedges : ∀ id, p.ReachesAsBefore past id →
      q.scene.edges.get? id = p.scene.edges.get? id := by
    intro id hid
    rw [hq, hscene]
    show (p.replay p.cursor).edges.get? id = _
    rw [hreplay]
    apply Scene.get?_edges_replay p.settings
    intro step hstep
    obtain ⟨index, hlt, hcommand, hgraph⟩ := hsteps step hstep
    exact hid index hlt step.1 hcommand step.2 hgraph
  refine ⟨hbackward, congrArg Prod.snd hforward, hq, hoff.nodes, hoff.messages, hedges, ?_⟩
  intro hall
  have hmarks : q.scene.edges = p.scene.edges := Marks.ext_get? fun id => hedges id (hall id)
  have hsame : q.scene = p.scene := hoff.eq_of_edges_eq hmarks
  rw [hq] at hsame
  change p.replay p.cursor = p.scene at hsame
  rw [hq, hsame]

/-- A node and a connection that no command before the cursor names, added between the steps. -/
theorem forward_backward_run_of_distant_edits :
    let ops : List Operation := [.readGraph "3 1\n0 1",
      .loadTrace "colorEdge 0 1 red\nvisit 2\ncolorEdge 1 2 blue", .forward, .edit .addNode,
      .forward, .edit (.connect "1" "2")]
    let p := (new Settings.standard).run ops
    1 ≤ p.cursor ∧ p.backward.2 = true ∧
      p.backward.1.forward = ({ p with token := p.token + 1 + 1 }, .advanced) := by
  intro ops p
  have hpos : 1 ≤ p.cursor := by decide +kernel
  have hreached : ∀ index < p.cursor, ∀ command ∈ p.commands[index]?,
      ∀ graph ∈ lastGraph? ((new Settings.standard).history ops) index,
      command.reached p.graph = command.reached graph := by
    decide +kernel
  have hall : ∀ id, p.ReachesAsBefore ((new Settings.standard).history ops) id := by
    intro id index hindex command hcommand graph hgraph
    rw [hreached index hindex command hcommand graph hgraph]
  obtain ⟨hbackward, hadvanced, _, _, _, _, hrestored⟩ :=
    forward_backward_run Settings.standard ops hpos
  exact ⟨hpos, hbackward, Prod.ext (hrestored hall) hadvanced⟩

/-- A connection that is made after a command named it is marked by the steps back and forth, though
the command marked nothing when it was followed. -/
theorem not_restored_after_connect :
    let ops : List Operation := [.readGraph "2 0", .loadTrace "colorEdge 0 1 red", .forward,
      .edit (.connect "0" "1")]
    let p := (new Settings.standard).run ops
    p.commands ≠ [] ∧ p.cursor = 1 ∧ p.backward.1.forward.2 = .advanced ∧
      p.scene.edges.get? "edge-0" = none ∧
      p.backward.1.forward.1.scene.edges.get? "edge-0" = some { color := some "red" } ∧
      p.backward.1.forward.1.scene ≠ p.scene := by
  decide +kernel

end Player

end GraphReplay
