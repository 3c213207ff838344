import GraphReplay.Proofs.Graph.Formed
import GraphReplay.Proofs.Scene.Parts

/-!
# Marks of fresh ids

Marks are kept by id, and ids are numbered again from the least unused number.  So a record or node
that is made while a trace is followed starts with the marks that the commands before the cursor left
under its id, when it was that of another record or node or of none.  An id that has no marks gets
some from a command that reaches it, and from nothing else (`Scene.Rests`).
-/

namespace GraphReplay

/-! ## 1. Commands that touch an id -/

/-- The node that an instruction names. -/
def Instruction.node? : Instruction → Option String
  | .visit node | .colorNode node _ | .highlightNode node | .unhighlightNode node
  | .markVisited node | .markInQueue node | .setNodeId node _ => some node
  | _ => none

/-- The node that a command names; a faulty one names none. -/
def Command.node? (command : Command) : Option String :=
  command.action.toOption.bind Instruction.node?

namespace Scene

/-- A property of scenes that nothing but messages can hold against, and that stays until a command
touches what it is about. -/
structure Rests (settings : Settings) (property : Scene → Prop)
    (touches : Command → Graph → Prop) : Prop where
  blank : ∀ messages : List Message, property { messages }
  step : ∀ {s : Scene} {graph : Graph} {command : Command}, property s → ¬touches command graph →
    property (s.step settings graph command).scene

variable {settings : Settings} {property : Scene → Prop} {touches : Command → Graph → Prop}

theorem Rests.follow (h : Rests settings property touches) {s : Scene} (hs : property s)
    {steps : List (Command × Graph)} (hsteps : ∀ step ∈ steps, ¬touches step.1 step.2) :
    property (s.follow settings steps) := by
  induction steps generalizing s with
  | nil => exact hs
  | cons step steps ih =>
    rw [follow_cons]
    exact ih (h.step hs (hsteps step List.mem_cons_self))
      fun later hlater => hsteps later (List.mem_cons_of_mem step hlater)

/-! ## 2. Unmarked records and nodes -/

theorem get_edges_onEdges_of_not_mem {f : EdgeMarks → EdgeMarks} {id : String} {ids : List String}
    (hid : id ∉ ids) (s : Scene) : (s.onEdges ids f).edges.get id = s.edges.get id := by
  show (ids.foldl (fun edges id => edges.update id f) s.edges).get id = _
  generalize s.edges = edges
  induction ids generalizing edges with
  | nil => rfl
  | cons first ids ih =>
    rw [List.mem_cons, not_or] at hid
    rw [List.foldl_cons, ih hid.2, Marks.get_update_of_ne _ hid.1]

theorem rests_edge (settings : Settings) (id : String) :
    Rests settings (fun s => s.edges.get id = default)
      fun command graph => id ∈ command.reached graph where
  blank := fun _ => rfl
  step := by
    intro s graph command hs hreached
    cases haction : command.action with
    | error fault =>
      rw [step_of_error haction]
      exact hs
    | ok instruction =>
      have hnot : id ∉ instruction.reached graph := by
        rw [Command.reached, haction] at hreached
        exact hreached
      rw [step_of_ok haction]
      cases instruction with
      | colorEdge source target color => exact (get_edges_onEdges_of_not_mem hnot s).trans hs
      | highlightEdge source target => exact (get_edges_onEdges_of_not_mem hnot s).trans hs
      | unhighlightEdge source target => exact (get_edges_onEdges_of_not_mem hnot s).trans hs
      | setEdgeWeight source target weight => exact (get_edges_onEdges_of_not_mem hnot s).trans hs
      | clearHighlights =>
        show (s.edges.map EdgeMarks.clear).get id = default
        rw [Marks.get_map rfl, hs]
        rfl
      | _ => exact hs

theorem rests_node (settings : Settings) (id : String) :
    Rests settings (fun s => s.nodes.get id = default)
      fun command _ => command.node? = some id where
  blank := fun _ => rfl
  step := by
    intro s graph command hs hnamed
    cases haction : command.action with
    | error fault =>
      rw [step_of_error haction]
      exact hs
    | ok instruction =>
      have hnot : instruction.node? ≠ some id := by
        rw [Command.node?, haction] at hnamed
        exact hnamed
      have hother : ∀ {node : String}, some node ≠ some id → ∀ f : NodeMarks → NodeMarks,
          (s.onNode node f).nodes.get id = default := by
        intro node hne f
        have hid : id ≠ node := fun heq => hne (congrArg some heq.symm)
        show (s.nodes.update node f).get id = default
        rw [Marks.get_update_of_ne _ hid, hs]
      rw [step_of_ok haction]
      cases instruction with
      | visit node =>
        have hid : id ≠ node := fun heq => hnot (congrArg some heq.symm)
        show ((s.nodes.map NodeMarks.release).update node NodeMarks.receive).get id = default
        -- The pointer leaves another node than this one, which does not carry it.
        rw [Marks.get_update_of_ne _ hid, Marks.get_map rfl, hs]
        rfl
      | clearHighlights =>
        show (s.nodes.map NodeMarks.clear).get id = default
        rw [Marks.get_map rfl, hs]
        rfl
      | colorNode node color => exact hother hnot _
      | highlightNode node => exact hother hnot _
      | unhighlightNode node => exact hother hnot _
      | markVisited node => exact hother hnot _
      | markInQueue node => exact hother hnot _
      | setNodeId node label => exact hother hnot _
      | _ => exact hs

end Scene

/-! ## 3. Ids in a graph -/

theorem Graph.mem_ids_of_mem_recordIds {g : Graph} {s t id : String} (h : id ∈ g.recordIds s t) :
    id ∈ g.edges.map Edge.id := by
  unfold recordIds at h
  cases hedge : g.edge? s t with
  | none =>
    rw [hedge] at h
    exact absurd h List.not_mem_nil
  | some e =>
    rw [hedge] at h
    rcases List.mem_cons.mp h with rfl | htwin
    · exact List.mem_map_of_mem (mem_of_edge?_eq_some hedge).1
    · obtain ⟨twin, hmem, rfl⟩ := List.mem_map.mp htwin
      exact List.mem_map_of_mem (mem_of_twin?_eq_some (Option.mem_toList.mp hmem)).1

theorem Command.mem_ids_of_mem_reached {command : Command} {graph : Graph} {id : String}
    (h : id ∈ command.reached graph) : id ∈ graph.edges.map Edge.id := by
  unfold reached at h
  cases haction : command.action with
  | error fault =>
    rw [haction] at h
    exact absurd h List.not_mem_nil
  | ok instruction =>
    rw [haction] at h
    cases instruction with
    | colorEdge source target color => exact Graph.mem_ids_of_mem_recordIds h
    | highlightEdge source target => exact Graph.mem_ids_of_mem_recordIds h
    | unhighlightEdge source target => exact Graph.mem_ids_of_mem_recordIds h
    | setEdgeWeight source target weight => exact Graph.mem_ids_of_mem_recordIds h
    | _ => exact absurd h List.not_mem_nil

/-- The ids that `connect` gives are those of records of the connection, and no record had them. -/
theorem Graph.fresh_of_mem_connect {g : Graph} {s t id : String} (h : id ∈ (g.connect s t).2) :
    id ∉ g.edges.map Edge.id ∧
      ∃ e ∈ (g.connect s t).1.edges, e.id = id ∧ (e.ends = (s, t) ∨ e.ends = (t, s)) := by
  rcases g.connect_cases s t with hconnect | ⟨_, _, _, _, hconnect⟩ <;> rw [hconnect] at h ⊢
  · exact absurd h List.not_mem_nil
  · obtain ⟨e, he, rfl⟩ := List.mem_map.mp h
    exact ⟨id_not_mem_of_mem_newRecords he, e, List.mem_append_right _ he, rfl,
      ends_of_mem_newRecords he⟩

/-! ## 4. What a run follows -/

theorem filterMap_getElem?_range {α β : Type} (f : α → β) (l : List α) (count : Nat) :
    (List.range count).filterMap (fun index => l[index]?.map f) = (l.take count).map f := by
  induction count with
  | zero => rfl
  | succ count ih =>
    rw [List.range_succ, List.filterMap_append, ih, List.take_add_one, List.map_append]
    cases hget : l[count]? <;> simp [hget]

namespace Player

variable {p : Player} {past : List Followed}

/-- The commands that an operation follows, each with the graph of that moment. -/
def followedCommands (p : Player) (op : Operation) : List (Command × Graph) :=
  (p.followed op).filterMap fun f => p.commands[f.index]?.map fun command => (command, f.graph)

/-- The commands that a run follows, each with the graph of that moment. -/
def commandHistory (p : Player) : List Operation → List (Command × Graph)
  | [] => []
  | op :: ops => p.followedCommands op ++ (p.after op).commandHistory ops

/-- `next` is what these commands lead to from the scene, or from one without marks. -/
def LeadsOn (p : Player) (steps : List (Command × Graph)) (next : Scene) : Prop :=
  ∃ start : Scene, (start = p.scene ∨ ∃ messages, start = { messages }) ∧
    next = start.follow p.settings steps

theorem leadsOn_nil (p : Player) : p.LeadsOn [] p.scene :=
  ⟨p.scene, Or.inl rfl, rfl⟩

theorem leadsOn_blank (p : Player) (messages : List Message) : p.LeadsOn [] { messages } :=
  ⟨{ messages }, Or.inr ⟨messages, rfl⟩, rfl⟩

theorem followedCommands_of_nil {op : Operation} (h : p.followed op = []) :
    p.followedCommands op = [] := by
  unfold followedCommands
  rw [h, List.filterMap_nil]

theorem leadsOn_forward (p : Player) :
    p.LeadsOn (p.followedCommands .forward) p.forward.1.scene := by
  rcases p.forward_cases with ⟨_, hforward⟩ |
    ⟨command, instruction, hcommand, haction, hforward⟩ | ⟨command, fault, _, _, hforward⟩
  · have hnil : p.followed .forward = [] := by rw [followed_forward, hforward, if_neg nofun]
    rw [followedCommands_of_nil hnil, hforward]
    exact p.leadsOn_nil
  · have hone : p.followedCommands .forward = [(command, p.graph)] := by
      unfold followedCommands
      rw [followed_forward, hforward, if_pos rfl, List.filterMap_cons_some (b := (command, p.graph)),
        List.filterMap_nil]
      rw [hcommand, Option.map_some]
    rw [hone, hforward]
    refine ⟨p.scene, Or.inl rfl, ?_⟩
    rw [Scene.follow_cons, Scene.step_of_ok haction]
    rfl
  · have hnil : p.followed .forward = [] := by rw [followed_forward, hforward, if_neg nofun]
    rw [followedCommands_of_nil hnil, hforward]
    exact p.leadsOn_blank _

theorem leadsOn_tick (p : Player) (token : UInt64) :
    p.LeadsOn (p.followedCommands (.tick token)) (p.accept token).1.scene := by
  rcases p.accept_cases token with ⟨_, haccept⟩ | ⟨_, _, haccept⟩
  · have hnil : p.followed (.tick token) = [] := by rw [followed_tick, haccept, if_neg nofun]
    rw [followedCommands_of_nil hnil, haccept]
    exact p.leadsOn_nil
  · have hsame : p.followedCommands (.tick token) = p.followedCommands .forward := by
      simp only [followedCommands, followed_tick, followed_forward, haccept, Option.some.injEq]
    rw [hsame, haccept]
    exact p.leadsOn_forward

theorem leadsOn_backward (p : Player) :
    p.LeadsOn (p.followedCommands .backward) p.backward.1.scene := by
  rcases p.backward_cases with ⟨_, hbackward⟩ | ⟨_, hbackward⟩
  · have hnil : p.followed .backward = [] := by rw [followed_backward, hbackward, if_neg nofun]
    rw [followedCommands_of_nil hnil, hbackward]
    exact p.leadsOn_nil
  · have hkept : p.followedCommands .backward =
        (p.commands.take (p.cursor - 1)).map fun command => (command, p.graph) := by
      unfold followedCommands
      rw [followed_backward, hbackward, if_pos rfl, List.filterMap_map]
      exact filterMap_getElem?_range (fun command => (command, p.graph)) p.commands (p.cursor - 1)
    rw [hkept, hbackward]
    refine ⟨Scene.empty, Or.inr ⟨[], rfl⟩, ?_⟩
    unfold Scene.follow
    rw [List.foldl_map]
    rfl

theorem leadsOn_play (p : Player) : p.LeadsOn [] p.play.scene := by
  rcases p.play_cases with ⟨_, hplay⟩ | ⟨_, hplay⟩ | ⟨_, _, hplay⟩ <;> rw [hplay]
  · exact p.leadsOn_nil
  · exact p.leadsOn_nil
  · exact p.leadsOn_blank []

/-- Marks come from the commands that an operation follows, and from nothing else. -/
theorem leadsOn_after (p : Player) (op : Operation) :
    p.LeadsOn (p.followedCommands op) (p.after op).scene := by
  cases op with
  | forward => exact p.leadsOn_forward
  | backward => exact p.leadsOn_backward
  | tick token => exact p.leadsOn_tick token
  | loadTrace text => exact p.leadsOn_blank []
  | reset => exact p.leadsOn_blank []
  | clear => exact p.leadsOn_blank []
  | setGraph graph => exact p.leadsOn_nil
  | edit edit => exact p.leadsOn_nil
  | pause => exact p.leadsOn_nil
  | play => exact p.leadsOn_play
  | toggle =>
    show p.LeadsOn [] p.toggle.scene
    unfold toggle
    split
    · exact p.leadsOn_play
    · exact p.leadsOn_nil
  | readGraph text =>
    show p.LeadsOn [] (p.after (.readGraph text)).scene
    rcases p.after_readGraph_cases text with hafter | ⟨graph, _, hafter⟩ <;> rw [hafter] <;>
      exact p.leadsOn_nil
  | setSpeed speed =>
    show p.LeadsOn [] (p.after (.setSpeed speed)).scene
    rcases p.after_setSpeed_cases speed with hafter | ⟨taken, hafter⟩ <;> rw [hafter] <;>
      exact p.leadsOn_nil

end Player

namespace Scene

variable {settings : Settings} {property : Scene → Prop} {touches : Command → Graph → Prop}
  {p : Player}

theorem Rests.after (h : Rests settings property touches) (hsettings : p.settings = settings)
    (hp : property p.scene) {op : Operation}
    (hsteps : ∀ step ∈ p.followedCommands op, ¬touches step.1 step.2) :
    property (p.after op).scene := by
  obtain ⟨start, hstart, hnext⟩ := p.leadsOn_after op
  rw [hnext, hsettings]
  refine h.follow ?_ hsteps
  rcases hstart with rfl | ⟨messages, rfl⟩
  · exact hp
  · exact h.blank messages

theorem Rests.run (h : Rests settings property touches) (hsettings : p.settings = settings)
    (hp : property p.scene) {ops : List Operation}
    (hsteps : ∀ step ∈ p.commandHistory ops, ¬touches step.1 step.2) :
    property (p.run ops).scene := by
  induction ops generalizing p with
  | nil => exact hp
  | cons op ops ih =>
    have hafter : property (p.after op).scene :=
      h.after hsettings hp fun step hstep => hsteps step (List.mem_append_left _ hstep)
    exact ih ((p.after_change op).settings_eq.trans hsettings) hafter
      fun step hstep => hsteps step (List.mem_append_right _ hstep)

end Scene

namespace Player

variable {p : Player} {past : List Followed}

/-! ## 5. New ids -/

/-- No command before the cursor touches it, over the graph that the command was last followed
over. -/
def Untouched (touches : Command → Graph → Prop) (p : Player) (past : List Followed) : Prop :=
  ∀ index < p.cursor, ∀ command ∈ p.commands[index]?, ∀ graph ∈ lastGraph? past index,
    ¬touches command graph

theorem Faithful.rests (h : Faithful p past) {property : Scene → Prop}
    {touches : Command → Graph → Prop} (hrests : Scene.Rests p.settings property touches)
    (huntouched : Untouched touches p past) : property p.scene := by
  by_cases hcommands : p.commands = []
  · rcases h.idle hcommands with hscene | ⟨text, hscene⟩ <;> rw [hscene]
    · exact hrests.blank []
    · exact hrests.blank [⟨.error, text⟩]
  · rcases Nat.eq_zero_or_pos p.cursor with hzero | hpos
    · rw [(h.forget hzero).scene_eq_replay hcommands nofun, hzero]
      exact hrests.blank []
    · obtain ⟨steps, hscene, _, hsteps⟩ := h.exists_steps hpos
      rw [hscene]
      refine hrests.follow (hrests.blank []) fun step hstep => ?_
      obtain ⟨index, hlt, hcommand, hgraph⟩ := hsteps step hstep
      exact huntouched index hlt step.1 hcommand step.2 hgraph

theorem untouched_of_first_use {settings : Settings} {ops : List Operation} {id : String}
    (hunused : ∀ before, before <+: ops →
      id ∉ ((new settings).run before).graph.edges.map Edge.id) :
    Untouched (fun command graph => id ∈ command.reached graph) ((new settings).run ops)
      ((new settings).history ops) := by
  intro index _ command _ graph hgraph hreached
  -- A command reaches records of the graph that it is followed over, which is that of some moment.
  obtain ⟨f, hf, rfl⟩ := exists_mem_of_lastGraph?_eq_some hgraph
  obtain ⟨before, hbefore, hmoment⟩ := graph_of_mem_history hf
  apply hunused before hbefore
  rw [← hmoment]
  exact Command.mem_ids_of_mem_reached hreached

/-- What is connected or added at a moment of a run starts with the marks that are kept under its id:
with none if no command before the cursor touched that id, as when it is used for the first time.
From any later moment without marks on, it gets none before a command is followed that touches its
id. -/
theorem marks_of_new_ids (settings : Settings) (ops : List Operation) :
    let p := (new settings).run ops
    let past := (new settings).history ops
    (∀ source target, ∀ id ∈ (p.graph.connect source target).2,
      let q := p.after (.edit (.connect source target))
      id ∉ p.graph.edges.map Edge.id ∧
      (∃ e ∈ q.graph.edges, e.id = id ∧
        (e.ends = (source, target) ∨ e.ends = (target, source))) ∧
      q.scene = p.scene ∧
      (Untouched (fun command graph => id ∈ command.reached graph) p past →
        q.scene.edges.get id = default) ∧
      ((∀ before, before <+: ops → id ∉ ((new settings).run before).graph.edges.map Edge.id) →
        q.scene.edges.get id = default) ∧
      ∀ since, let r := q.run since
        r.scene.edges.get id = default → ∀ later,
          (∀ step ∈ r.commandHistory later, id ∉ step.1.reached step.2) →
          (r.run later).scene.edges.get id = default) ∧
    let id := p.graph.addNode.2
    let q := p.after (.edit .addNode)
    id ∉ p.graph.nodes ∧ id ∈ q.graph.nodes ∧ q.scene = p.scene ∧
      ((∀ command ∈ p.commands.take p.cursor, command.node? ≠ some id) →
        q.scene.nodes.get id = default) ∧
      ∀ since, let r := q.run since
        r.scene.nodes.get id = default → ∀ later,
          (∀ step ∈ r.commandHistory later, step.1.node? ≠ some id) →
          (r.run later).scene.nodes.get id = default := by
  intro p past
  have hnew : Faithful (new settings) [] := Faithful.atStart rfl rfl
  have h : Faithful p past := hnew.run ops
  have hsettings : p.settings = settings := settings_run (new settings) ops
  constructor
  · intro source target id hid q
    obtain ⟨hunused, hrecord⟩ := Graph.fresh_of_mem_connect hid
    have hrests := Scene.rests_edge p.settings id
    have hdefault : Untouched (fun command graph => id ∈ command.reached graph) p past →
        q.scene.edges.get id = default := h.rests hrests
    refine ⟨hunused, hrecord, rfl, hdefault, ?_, ?_⟩
    · intro hfirst
      exact hdefault (untouched_of_first_use hfirst)
    · intro since r hr later hsteps
      exact hrests.run (p := r) (settings_run q since) hr hsteps
  · intro id q
    have hrests := Scene.rests_node p.settings id
    refine ⟨p.graph.freshNode_not_mem, List.mem_append_right _ List.mem_cons_self, rfl, ?_, ?_⟩
    · intro hunnamed
      apply h.rests hrests
      intro index hlt command hcommand graph _
      obtain ⟨hlength, hget⟩ := List.getElem?_eq_some_iff.mp hcommand
      have hbefore : command ∈ p.commands.take p.cursor :=
        List.mem_take_iff_getElem.mpr ⟨index, Nat.lt_min.mpr ⟨hlt, hlength⟩, hget⟩
      exact hunnamed command hbefore
    · intro since r hr later hsteps
      exact hrests.run (p := r) (settings_run q since) hr hsteps

/-- A connection that takes a number in use for the first time, and a node that no command named yet.
The command that is followed next names a connection that is not there; later ones mark the new one
and take the mark back. -/
theorem marks_of_new_ids_of_first_use :
    let ops : List Operation := [.readGraph "3 1\n0 1",
      .loadTrace "log a\ncolorEdge 0 2 b\ncolorEdge 1 2 c\nunhighlightEdge 1 2\nvisit 3", .forward]
    let p := (new Settings.standard).run ops
    let q := p.after (.edit (.connect "1" "2"))
    let r := q.run [.forward, .forward, .forward]
    let n := p.after (.edit .addNode)
    "edge-2" ∈ (p.graph.connect "1" "2").2 ∧ p.graph.addNode.2 = "3" ∧
      q.scene.edges.get "edge-2" = default ∧
      (q.run [.forward]).scene.edges.get "edge-2" = default ∧
      (q.run [.forward, .forward]).scene.edges.get "edge-2" ≠ default ∧
      (r.run [.forward]).scene.edges.get "edge-2" = default ∧
      n.scene.nodes.get "3" = default ∧
      (n.run [.play, .tick 3, .backward, .reset]).scene.nodes.get "3" = default := by
  intro ops p q r n
  obtain ⟨hedges, _, _, _, hnode, hnodeStays⟩ := marks_of_new_ids Settings.standard ops
  have hid : "edge-2" ∈ (p.graph.connect "1" "2").2 := by decide +kernel
  obtain ⟨_, _, _, _, hfirst, hstays⟩ := hedges "1" "2" "edge-2" hid
  have hunused : ∀ before, before <+: ops →
      "edge-2" ∉ ((new Settings.standard).run before).graph.edges.map Edge.id := by
    intro before hbefore
    simp only [ops, List.prefix_cons_iff, List.prefix_nil] at hbefore
    rcases hbefore with rfl | ⟨_, rfl, rfl | ⟨_, rfl, rfl | ⟨_, rfl, rfl⟩⟩⟩ <;> decide +kernel
  have hq : q.scene.edges.get "edge-2" = default := hfirst hunused
  have hadded : p.graph.addNode.2 = "3" := by decide +kernel
  rw [hadded] at hnode hnodeStays
  have hn : n.scene.nodes.get "3" = default := hnode (by decide +kernel)
  have hr : r.scene.edges.get "edge-2" = default := by decide +kernel
  have hqSteps : ∀ step ∈ q.commandHistory [.forward],
      "edge-2" ∉ step.1.reached step.2 := by decide +kernel
  have hrSteps : ∀ step ∈ r.commandHistory [.forward],
      "edge-2" ∉ step.1.reached step.2 := by decide +kernel
  have hnSteps : ∀ step ∈ n.commandHistory [.play, .tick 3, .backward, .reset],
      step.1.node? ≠ some "3" := by decide +kernel
  have hmarked : (q.run [.forward, .forward]).scene.edges.get "edge-2" ≠ default := by
    decide +kernel
  exact ⟨hid, hadded, hq, hstays [] hq [.forward] hqSteps, hmarked,
    hstays [.forward, .forward, .forward] hr [.forward] hrSteps, hn,
    hnodeStays [] hn [.play, .tick 3, .backward, .reset] hnSteps⟩

/-- Marks outlive the record or node that they were made for: what takes its id is marked at once. -/
theorem not_unmarked_of_reused_ids :
    let start : List Operation := [.readGraph "2 1\n0 1",
      .loadTrace "colorEdge 0 1 red\ncolorNode 1 blue", .forward, .forward]
    let cut := (new Settings.standard).run (start ++ [.edit (.disconnect "0" "1")])
    let less := (new Settings.standard).run (start ++ [.edit (.removeNode "1")])
    (cut.graph.connect "0" "1").2 = ["edge-0", "edge-1"] ∧
      (cut.after (.edit (.connect "0" "1"))).scene.edges.get "edge-0" = { color := some "red" } ∧
      (cut.after (.edit (.connect "0" "1"))).scene.edges.get "edge-0" ≠ default ∧
      less.graph.addNode.2 = "1" ∧
      (less.after (.edit .addNode)).scene.nodes.get "1" = { live := { color := some "blue" } } ∧
      (less.after (.edit .addNode)).scene.nodes.get "1" ≠ default := by
  decide +kernel

end Player

end GraphReplay
