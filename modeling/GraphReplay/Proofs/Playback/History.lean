import GraphReplay.Proofs.Playback.Run

/-!
# The scene of a run

However a player came to its place in the trace, its scene is that of the commands before the
cursor, each over the graph that it was last followed over.  The history of a run lists every
command that was followed and the graph of that moment; a step back follows the commands that stay
over the graph of its own moment.  `Faithful` relates a player to such a history, and every operation
keeps it.
-/

namespace GraphReplay

/-- The scene after these commands, each over a graph of its own. -/
def Scene.replayOver (settings : Settings) (steps : List (Command × Graph)) : Scene :=
  steps.foldl (fun s step => (s.step settings step.2 step.1).scene) Scene.empty

theorem Scene.replayOver_zip_replicate (settings : Settings) (graph : Graph)
    (commands : List Command) :
    Scene.replayOver settings (commands.zip (List.replicate commands.length graph)) =
      Scene.replay settings graph commands := by
  have hzip : commands.zip (List.replicate commands.length graph) =
      commands.map fun command => (command, graph) := by
    induction commands with
    | nil => rfl
    | cons command commands ih =>
      rw [List.length_cons, List.replicate_succ, List.zip_cons_cons, List.map_cons, ih]
  rw [hzip, Scene.replayOver, Scene.replay, List.foldl_map]

/-- A command that was followed: its number in the trace, and the graph of that moment. -/
structure Followed where
  index : Nat
  graph : Graph

/-- The graph that a command was last followed over. -/
def lastGraph? (history : List Followed) (index : Nat) : Option Graph :=
  (history.findRev? (·.index == index)).map Followed.graph

theorem lastGraph?_append (earlier later : List Followed) (index : Nat) :
    lastGraph? (earlier ++ later) index =
      (lastGraph? later index).or (lastGraph? earlier index) := by
  unfold lastGraph?
  simp only [List.findRev?_eq_find?_reverse, List.reverse_append, List.find?_append, Option.map_or]

theorem lastGraph?_singleton (index : Nat) (graph : Graph) :
    lastGraph? [⟨index, graph⟩] index = some graph := by
  simp [lastGraph?]

theorem lastGraph?_singleton_of_ne {index other : Nat} (graph : Graph) (h : other ≠ index) :
    lastGraph? [⟨index, graph⟩] other = none := by
  simp [lastGraph?, Ne.symm h]

theorem lastGraph?_range {index count : Nat} (graph : Graph) (h : index < count) :
    lastGraph? ((List.range count).map (⟨·, graph⟩)) index = some graph := by
  induction count with
  | zero => omega
  | succ count ih =>
    rw [List.range_succ, List.map_append, List.map_singleton, lastGraph?_append]
    by_cases hindex : index = count
    · rw [hindex, lastGraph?_singleton, Option.some_or]
    · rw [lastGraph?_singleton_of_ne graph hindex, Option.none_or, ih (by omega)]

theorem exists_mem_of_lastGraph?_eq_some {history : List Followed} {index : Nat} {graph : Graph}
    (h : lastGraph? history index = some graph) : ∃ f ∈ history, f.graph = graph := by
  unfold lastGraph? at h
  obtain ⟨f, hf, hgraph⟩ := Option.map_eq_some_iff.mp h
  rw [List.findRev?_eq_find?_reverse] at hf
  exact ⟨f, List.mem_reverse.mp (List.mem_of_find?_eq_some hf), hgraph⟩

namespace Player

/-- The commands that an operation follows, in order: the one at the cursor for a step forward, by
hand or by the clock, and those that stay for a step back. -/
def followed (p : Player) : Operation → List Followed
  | .forward => if p.forward.2 = .advanced then [⟨p.cursor, p.graph⟩] else []
  | .tick token => if (p.accept token).2 = some .advanced then [⟨p.cursor, p.graph⟩] else []
  | .backward => if p.backward.2 then (List.range (p.cursor - 1)).map (⟨·, p.graph⟩) else []
  | _ => []

theorem followed_forward (p : Player) :
    p.followed .forward = if p.forward.2 = .advanced then [⟨p.cursor, p.graph⟩] else [] := rfl

theorem followed_tick (p : Player) (token : UInt64) :
    p.followed (.tick token) =
      if (p.accept token).2 = some .advanced then [⟨p.cursor, p.graph⟩] else [] := rfl

theorem followed_backward (p : Player) :
    p.followed .backward =
      if p.backward.2 then (List.range (p.cursor - 1)).map (⟨·, p.graph⟩) else [] := rfl

def history (p : Player) : List Operation → List Followed
  | [] => []
  | op :: ops => p.followed op ++ (p.after op).history ops

/-- The scene is that of the commands before the cursor, each over the graph that it was last
followed over; without a trace there is a message about a faulty line at most. -/
structure Faithful (p : Player) (past : List Followed) : Prop where
  cursor_le : p.cursor ≤ p.commands.length
  followable : ∀ command ∈ p.commands.take p.cursor, ∃ instruction, command.action = .ok instruction
  idle : p.commands = [] →
    p.scene = Scene.empty ∨ ∃ text, p.scene = Scene.empty.say ⟨.error, text⟩
  replayed : p.commands ≠ [] →
    ∃ graphs : List Graph, graphs.length = p.cursor ∧
      (∀ index < p.cursor, lastGraph? past index = graphs[index]?) ∧
      p.scene = Scene.replayOver p.settings ((p.commands.take p.cursor).zip graphs)

namespace Faithful

variable {p q : Player} {past : List Followed}

/-! ## 1. Operations -/

theorem atStart (hcursor : p.cursor = 0) (hscene : p.scene = Scene.empty) : Faithful p past where
  cursor_le := by omega
  followable := by simp [hcursor]
  idle := fun _ => Or.inl hscene
  replayed := fun _ => ⟨[], hcursor.symm, by simp [hcursor], by rw [hcursor, hscene]; rfl⟩

theorem congr (h : Faithful p past) (hsettings : q.settings = p.settings)
    (hcommands : q.commands = p.commands) (hcursor : q.cursor = p.cursor)
    (hscene : q.scene = p.scene) : Faithful q past := by
  obtain ⟨hle, hfollowable, hidle, hreplayed⟩ := h
  constructor <;> rw [hcommands]
  · rw [hcursor]; exact hle
  · rw [hcursor]; exact hfollowable
  · rw [hscene]; exact hidle
  · rw [hcursor, hscene, hsettings]; exact hreplayed

theorem advance (h : Faithful p past) {command : Command} {instruction : Instruction}
    (hcommand : p.commands[p.cursor]? = some command) (haction : command.action = .ok instruction) :
    Faithful (p.advance instruction) (past ++ [⟨p.cursor, p.graph⟩]) := by
  have hlt : p.cursor < p.commands.length := (List.getElem?_eq_some_iff.mp hcommand).1
  have hne : p.commands ≠ [] := List.ne_nil_of_length_pos (by omega)
  have htake : p.commands.take (p.cursor + 1) = p.commands.take p.cursor ++ [command] := by
    rw [List.take_add_one, hcommand, Option.toList_some]
  obtain ⟨graphs, hlength, hgraphs, hscene⟩ := h.replayed hne
  refine ⟨hlt, ?_, fun hnil => absurd hnil hne, fun _ => ⟨graphs ++ [p.graph], ?_, ?_, ?_⟩⟩
  · show ∀ c ∈ p.commands.take (p.cursor + 1), ∃ i, c.action = .ok i
    rw [htake]
    intro c hc
    rcases List.mem_append.mp hc with hc | hc
    · exact h.followable c hc
    · exact ⟨instruction, by rw [List.mem_singleton.mp hc, haction]⟩
  · rw [List.length_append, hlength]; rfl
  · intro index hindex
    rw [lastGraph?_append]
    -- The new entry is about the command at the cursor; the others are behind it as before.
    by_cases hlast : index = p.cursor
    · rw [hlast, lastGraph?_singleton, ← hlength, List.getElem?_concat_length, Option.some_or]
    · have hbefore : index < p.cursor := by
        change index < p.cursor + 1 at hindex
        omega
      rw [lastGraph?_singleton_of_ne p.graph hlast, Option.none_or, hgraphs index hbefore,
        List.getElem?_append_left (by omega)]
  · show p.scene.perform p.settings.palette p.graph instruction =
      Scene.replayOver p.settings ((p.commands.take (p.cursor + 1)).zip (graphs ++ [p.graph]))
    have hzip : (p.commands.take p.cursor).length = graphs.length := by
      rw [List.length_take, hlength]
      omega
    rw [htake, List.zip_append hzip, Scene.replayOver, List.foldl_append, ← Scene.replayOver,
      ← hscene]
    simp only [List.zip_cons_cons, List.zip_nil_right, List.foldl_cons, List.foldl_nil, Scene.step,
      haction, LineResult.scene]

theorem abort (fault : Fault) (raw : String) :
    Faithful (p.abort (fault.report p.settings raw)) past where
  cursor_le := Nat.le_refl 0
  followable := fun _ hcommand => nomatch hcommand
  idle := by
    intro _
    cases fault with
    | unrecognized line => exact Or.inr ⟨_, rfl⟩
    | missingArgument name position => exact Or.inr ⟨_, rfl⟩
  replayed := fun hne => absurd rfl hne

theorem forward (h : Faithful p past) :
    Faithful p.forward.1 (past ++ p.followed .forward) := by
  rw [followed_forward]
  rcases p.forward_cases with ⟨_, hforward⟩ | ⟨command, instruction, hcommand, haction, hforward⟩ |
    ⟨command, fault, _, _, hforward⟩
  · rw [hforward, if_neg nofun, List.append_nil]
    exact h
  · rw [hforward, if_pos rfl]
    exact h.advance hcommand haction
  · rw [hforward, if_neg nofun, List.append_nil]
    exact abort fault command.raw

theorem tick (h : Faithful p past) (token : UInt64) :
    Faithful (p.accept token).1 (past ++ p.followed (.tick token)) := by
  rcases p.accept_cases token with ⟨_, haccept⟩ | ⟨_, _, haccept⟩
  · rw [followed_tick, haccept, if_neg nofun, List.append_nil]
    exact h
  · -- A tick that is taken is a step forward, to the history as well.
    have hfollowed : p.followed (.tick token) = p.followed .forward := by
      simp only [followed_tick, followed_forward, haccept, Option.some.injEq]
    rw [hfollowed, haccept]
    exact h.forward

theorem backward (h : Faithful p past) :
    Faithful p.backward.1 (past ++ p.followed .backward) := by
  rw [followed_backward]
  rcases p.backward_cases with ⟨_, hbackward⟩ | ⟨hpos, hbackward⟩
  · rw [hbackward, if_neg nofun, List.append_nil]
    exact h
  · rw [hbackward, if_pos rfl]
    -- A step back follows every command that stays, so no older entry of the history counts.
    have hle := h.cursor_le
    have hcount : (p.commands.take (p.cursor - 1)).length = p.cursor - 1 := by
      rw [List.length_take]
      omega
    constructor
    case cursor_le =>
      show p.cursor - 1 ≤ p.commands.length
      omega
    case followable =>
      intro command hcommand
      exact h.followable command (List.take_subset_take_left p.commands (Nat.sub_le _ 1) hcommand)
    case idle =>
      intro hnil
      change p.commands = [] at hnil
      rw [hnil, List.length_nil] at hle
      omega
    case replayed =>
      refine fun _ => ⟨List.replicate (p.cursor - 1) p.graph, List.length_replicate, ?_, ?_⟩
      · intro index hindex
        change index < p.cursor - 1 at hindex
        rw [lastGraph?_append, lastGraph?_range p.graph hindex, Option.some_or,
          List.getElem?_replicate_of_lt hindex]
      · show Scene.replay p.settings p.graph (p.commands.take (p.cursor - 1)) = _
        rw [← Scene.replayOver_zip_replicate, hcount]
        rfl

theorem play (h : Faithful p past) : Faithful p.play past := by
  rcases p.play_cases with ⟨_, hplay⟩ | ⟨_, hplay⟩ | ⟨_, _, hplay⟩ <;> rw [hplay]
  · exact h
  · exact h.congr rfl rfl rfl rfl
  · exact atStart rfl rfl

theorem toggle (h : Faithful p past) : Faithful p.toggle past := by
  unfold Player.toggle
  split
  · exact h.play
  · exact h.congr rfl rfl rfl rfl

/-! ## 2. Runs -/

theorem of_followed_nil {op : Operation} (h : Faithful q past) (hnil : p.followed op = []) :
    Faithful q (past ++ p.followed op) := by
  rw [hnil, List.append_nil]
  exact h

theorem after (h : Faithful p past) (op : Operation) :
    Faithful (p.after op) (past ++ p.followed op) := by
  cases op with
  | forward => exact h.forward
  | backward => exact h.backward
  | tick token => exact h.tick token
  | loadTrace text => exact atStart rfl rfl
  | reset => exact atStart rfl rfl
  | clear => exact atStart rfl rfl
  | setGraph graph => exact of_followed_nil (h.congr rfl rfl rfl rfl) rfl
  | edit edit => exact of_followed_nil (h.congr rfl rfl rfl rfl) rfl
  | pause => exact of_followed_nil (h.congr rfl rfl rfl rfl) rfl
  | play => exact of_followed_nil h.play rfl
  | toggle => exact of_followed_nil h.toggle rfl
  | readGraph text =>
    refine of_followed_nil ?_ rfl
    rcases p.after_readGraph_cases text with hafter | ⟨graph, _, hafter⟩ <;> rw [hafter]
    · exact h
    · exact h.congr rfl rfl rfl rfl
  | setSpeed speed =>
    refine of_followed_nil ?_ rfl
    rcases p.after_setSpeed_cases speed with hafter | ⟨taken, hafter⟩ <;> rw [hafter]
    · exact h
    · exact h.congr rfl rfl rfl rfl

theorem run (h : Faithful p past) (ops : List Operation) :
    Faithful (p.run ops) (past ++ p.history ops) := by
  induction ops generalizing p past with
  | nil =>
    rw [history, List.append_nil]
    exact h
  | cons op ops ih =>
    rw [history, ← List.append_assoc]
    exact ih (h.after op)

/-- At the start of a trace nothing that was followed before counts. -/
theorem forget (h : Faithful p past) (hcursor : p.cursor = 0) : Faithful p [] where
  cursor_le := h.cursor_le
  followable := h.followable
  idle := h.idle
  replayed := by
    intro hne
    obtain ⟨graphs, _, _, hscene⟩ := h.replayed hne
    refine ⟨[], hcursor.symm, by simp [hcursor], ?_⟩
    rw [hscene, hcursor]
    rfl

theorem scene_eq_replay (h : Faithful p past) (hne : p.commands ≠ [])
    (hpast : ∀ f ∈ past, f.graph = p.graph) : p.scene = p.replay p.cursor := by
  obtain ⟨graphs, hlength, hgraphs, hscene⟩ := h.replayed hne
  have hreplicate : graphs = List.replicate (p.commands.take p.cursor).length p.graph := by
    have htake : (p.commands.take p.cursor).length = p.cursor := by
      rw [List.length_take]
      exact Nat.min_eq_left h.cursor_le
    rw [htake, List.eq_replicate_iff]
    refine ⟨hlength, fun graph hgraph => ?_⟩
    obtain ⟨index, hindex⟩ := List.mem_iff_getElem?.mp hgraph
    have hlt : index < p.cursor := hlength ▸ (List.getElem?_eq_some_iff.mp hindex).1
    obtain ⟨f, hf, hfgraph⟩ := exists_mem_of_lastGraph?_eq_some ((hgraphs index hlt).trans hindex)
    rw [← hfgraph, hpast f hf]
  rw [hscene, hreplicate, Scene.replayOver_zip_replicate]
  rfl

end Faithful

theorem graph_of_mem_followed {p : Player} {op : Operation} {f : Followed}
    (hf : f ∈ p.followed op) : f.graph = p.graph := by
  cases op with
  | forward =>
    rw [followed_forward, List.mem_ite_nil_right] at hf
    rw [List.mem_singleton.mp hf.2]
  | tick token =>
    rw [followed_tick, List.mem_ite_nil_right] at hf
    rw [List.mem_singleton.mp hf.2]
  | backward =>
    rw [followed_backward, List.mem_ite_nil_right] at hf
    obtain ⟨index, _, rfl⟩ := List.mem_map.mp hf.2
    rfl
  | _ => exact absurd hf List.not_mem_nil

/-- A graph in the history of a run is the one of some moment of the run. -/
theorem graph_of_mem_history {p : Player} {ops : List Operation} {f : Followed}
    (hf : f ∈ p.history ops) : ∃ before, before <+: ops ∧ f.graph = (p.run before).graph := by
  induction ops generalizing p with
  | nil => exact absurd hf List.not_mem_nil
  | cons op ops ih =>
    rcases List.mem_append.mp hf with hf | hf
    · exact ⟨[], List.nil_prefix, graph_of_mem_followed hf⟩
    · obtain ⟨before, hbefore, hgraph⟩ := ih hf
      exact ⟨op :: before, List.cons_prefix_cons.mpr ⟨rfl, hbefore⟩, hgraph⟩

/-- At every moment of every run, either there is no trace, and a message about a faulty line is all
that may be shown, or the commands before the cursor can all be followed, and the scene is what they
lead to, each over the graph that it was last followed over.  If the graph stayed as it is since the
cursor was at the start, that is what replaying them gives. -/
theorem scene_run_new (settings : Settings) (ops : List Operation) :
    let p := (new settings).run ops
    (p.commands = [] ∧ p.cursor = 0 ∧
      (p.scene = Scene.empty ∨ ∃ text, p.scene = Scene.empty.say ⟨.error, text⟩)) ∨
    (p.commands ≠ [] ∧ p.cursor ≤ p.commands.length ∧
      (∀ command ∈ p.commands.take p.cursor, ∃ instruction, command.action = .ok instruction) ∧
      (∃ graphs : List Graph, graphs.length = p.cursor ∧
        (∀ index < p.cursor, lastGraph? ((new settings).history ops) index = graphs[index]?) ∧
        p.scene = Scene.replayOver settings ((p.commands.take p.cursor).zip graphs)) ∧
      ∀ earlier later, ops = earlier ++ later → ((new settings).run earlier).cursor = 0 →
        (∀ before, before <+: later →
          ((new settings).run (earlier ++ before)).graph = p.graph) →
        p.scene = p.replay p.cursor) := by
  intro p
  have hnew : Faithful (new settings) [] := Faithful.atStart rfl rfl
  have h : Faithful p ((new settings).history ops) := hnew.run ops
  by_cases hcommands : p.commands = []
  · have hcursor : p.cursor = 0 := by
      have hle := h.cursor_le
      rw [hcommands, List.length_nil] at hle
      omega
    exact Or.inl ⟨hcommands, hcursor, h.idle hcommands⟩
  · refine Or.inr ⟨hcommands, h.cursor_le, h.followable, ?_, ?_⟩
    · have hsettings : p.settings = settings := settings_run (new settings) ops
      obtain ⟨graphs, hlength, hgraphs, hscene⟩ := h.replayed hcommands
      exact ⟨graphs, hlength, hgraphs, hsettings ▸ hscene⟩
    · intro earlier later hops hcursor hgraph
      have hrun : p = ((new settings).run earlier).run later := by
        rw [← run_append, ← hops]
      -- The history since the cursor was at the start will do.
      have hlater : Faithful p (((new settings).run earlier).history later) := by
        rw [hrun]
        exact ((hnew.run earlier).forget hcursor).run later
      apply hlater.scene_eq_replay hcommands
      intro f hf
      obtain ⟨before, hbefore, hfgraph⟩ := graph_of_mem_history hf
      rw [hfgraph, ← run_append, hgraph before hbefore]

/-- Two steps forward and one back over a graph that was edited before the trace was loaded. -/
theorem scene_run_new_of_step_back :
    let earlier : List Operation := [.readGraph "2 1\n0 1", .edit .addNode,
      .loadTrace "colorEdge 0 1 red\nvisit 0"]
    let later : List Operation := [.forward, .forward, .backward]
    let p := (new Settings.standard).run (earlier ++ later)
    p.commands ≠ [] ∧ p.cursor = 1 ∧ p.scene = p.replay 1 := by
  intro earlier later p
  have hcommands : p.commands ≠ [] := by decide +kernel
  have hcursor : p.cursor = 1 := by decide +kernel
  have hgraph : ∀ before, before <+: later →
      ((new Settings.standard).run (earlier ++ before)).graph = p.graph := by
    intro before hbefore
    simp only [later, List.prefix_cons_iff, List.prefix_nil] at hbefore
    rcases hbefore with rfl | ⟨_, rfl, rfl | ⟨_, rfl, rfl | ⟨_, rfl, rfl⟩⟩⟩ <;> decide +kernel
  rcases scene_run_new Settings.standard (earlier ++ later) with hidle | hloaded
  · exact absurd hidle.1 hcommands
  · have hscene := hloaded.2.2.2.2 earlier later rfl (by decide +kernel) hgraph
    exact ⟨hcommands, hcursor, hcursor ▸ hscene⟩

end Player

end GraphReplay
