import GraphReplay.Proofs.Graph.Edits
import GraphReplay.Proofs.Playback.Run

/-!
# Twin records

The marks of a record stay when the record goes, and count again when its number does.  In an
undirected graph the two records of a connection always look the same nevertheless: numbers are given
and freed in couples, and an instruction reaches both records of a couple or neither.
-/

namespace GraphReplay

/-- Two records that could be a couple carry the same marks, whether the graph has them or not. -/
def Scene.Twinned (s : Scene) : Prop :=
  ∀ k, s.edges.get (edgeId (2 * k)) = s.edges.get (edgeId (2 * k + 1))

namespace Scene.Twinned

variable {s : Scene} {graph : Graph} {couples : List Couple}

/-! ## 1. Instructions -/

theorem of_edges_empty (h : s.edges = ∅) : Twinned s := by
  intro k
  rw [h, Marks.get_empty, Marks.get_empty]

theorem onEdges_pair (h : Twinned s) {a b : String} {n : Nat} (f : EdgeMarks → EdgeMarks)
    (hab : (a = edgeId (2 * n) ∧ b = edgeId (2 * n + 1)) ∨
      (a = edgeId (2 * n + 1) ∧ b = edgeId (2 * n))) : Twinned (s.onEdges [a, b] f) := by
  intro k
  simp only [onEdges, List.foldl_cons, List.foldl_nil, Marks.get_update]
  -- Either both records of the couple `k` are reached, once each, or neither is.
  rcases hab with ⟨rfl, rfl⟩ | ⟨rfl, rfl⟩ <;> by_cases hk : k = n <;>
    simp [edgeId_even_inj, edgeId_odd_inj, edgeId_even_ne_odd, (edgeId_even_ne_odd _ _).symm, hk,
      h n, h k]

theorem onRecords (h : Twinned s) (hgraph : graph.Coupled couples) (source target : String)
    (f : EdgeMarks → EdgeMarks) : Twinned (s.onEdges (graph.recordIds source target) f) := by
  rw [hgraph.recordIds_eq]
  cases couples.find? (·.joins source target) with
  | none => exact h
  | some c =>
    apply h.onEdges_pair f (n := c.number)
    unfold Couple.leaving Couple.entering
    split
    · exact Or.inl ⟨rfl, rfl⟩
    · exact Or.inr ⟨rfl, rfl⟩

theorem perform (h : Twinned s) (hgraph : graph.Coupled couples) (palette : Palette)
    (instruction : Instruction) : Twinned (s.perform palette graph instruction) := by
  cases instruction with
  | colorEdge source target color => exact h.onRecords hgraph source target _
  | highlightEdge source target => exact h.onRecords hgraph source target _
  | unhighlightEdge source target => exact h.onRecords hgraph source target _
  | setEdgeWeight source target weight => exact h.onRecords hgraph source target _
  | clearHighlights =>
    intro k
    show (s.edges.map EdgeMarks.clear).get _ = (s.edges.map EdgeMarks.clear).get _
    rw [Marks.get_map rfl, Marks.get_map rfl, h k]
  | visit node => exact h
  | colorNode node color => exact h
  | highlightNode node => exact h
  | unhighlightNode node => exact h
  | markVisited node => exact h
  | markInQueue node => exact h
  | setNodeId node label => exact h
  | log text => exact h
  | clearLog => exact h

theorem step (h : Twinned s) (hgraph : graph.Coupled couples) (settings : Settings)
    (command : Command) : Twinned (s.step settings graph command).scene := by
  unfold Scene.step
  cases command.action with
  | ok instruction => exact h.perform hgraph settings.palette instruction
  | error fault => exact h

theorem replay (hgraph : graph.Coupled couples) (settings : Settings) (commands : List Command) :
    Twinned (Scene.replay settings graph commands) := by
  apply List.foldlRecOn (motive := Twinned) commands _ (of_edges_empty rfl)
  intro s h command _
  exact h.step hgraph settings command

end Scene.Twinned

/-! ## 2. Operations -/

/-- An operation that changes the graph by reading one in the present mode, by clearing, or by an
edit of nodes and connections. -/
def Operation.keepsMode : Operation → Bool
  | .setGraph _ => false
  | .edit (.setDirected _) => false
  | _ => true

namespace Player

/-- An undirected player whose records look the same in couples. -/
structure Twinned (p : Player) : Prop where
  undirected : p.settings.directed = false
  graph : ∃ couples, p.graph.Coupled couples
  scene : p.scene.Twinned

namespace Twinned

variable {p q : Player} {op : Operation}

theorem new {settings : Settings} (h : settings.directed = false) : Twinned (Player.new settings) where
  undirected := h
  graph := ⟨[], by rw [Player.new, h]; exact Graph.Coupled.empty⟩
  scene := Scene.Twinned.of_edges_empty rfl

theorem edit {edit : Graph.Edit} (h : Twinned p) (hop : (Operation.edit edit).keepsMode = true) :
    Twinned (p.setGraph (p.graph.edit edit)) := by
  obtain ⟨couples, hgraph⟩ := h.graph
  -- The operation keeps the mode just when its edit does.
  have hmode : edit.keepsMode = true := by cases edit <;> exact hop
  exact ⟨h.undirected, hgraph.edit hmode, h.scene⟩

theorem change (h : Twinned p) (hchange : Change p op q) (hop : op.keepsMode = true) :
    Twinned q := by
  obtain ⟨couples, hgraph⟩ := h.graph
  have hempty : Scene.empty.Twinned := Scene.Twinned.of_edges_empty rfl
  cases hchange with
  | nothing => exact h
  | graphRead hread =>
    rw [hgraph.undirected] at hread
    exact ⟨h.undirected, Graph.Coupled.read hread, h.scene⟩
  | graphSet graph => exact nomatch hop
  | graphEdited edit => exact h.edit hop
  | advanced => exact ⟨h.undirected, h.graph, h.scene.perform hgraph _ _⟩
  | aborted => exact ⟨h.undirected, h.graph, Scene.Twinned.of_edges_empty rfl⟩
  | steppedBack => exact ⟨h.undirected, h.graph, Scene.Twinned.replay hgraph _ _⟩
  | started => exact ⟨h.undirected, h.graph, h.scene⟩
  | startedOver => exact ⟨h.undirected, h.graph, hempty⟩
  | stopped => exact ⟨h.undirected, h.graph, h.scene⟩
  | speedSet => exact ⟨h.undirected, h.graph, h.scene⟩
  | traceLoaded => exact ⟨h.undirected, h.graph, hempty⟩
  | wasReset => exact ⟨h.undirected, h.graph, hempty⟩
  | cleared =>
    refine ⟨h.undirected, ⟨[], ?_⟩, hempty⟩
    show (Graph.empty p.settings.directed).Coupled []
    rw [h.undirected]
    exact Graph.Coupled.empty

theorem run (h : Twinned p) {ops : List Operation} (hops : ∀ op ∈ ops, op.keepsMode = true) :
    Twinned (p.run ops) := by
  induction ops generalizing p with
  | nil => exact h
  | cons op ops ih =>
    have hfirst : Twinned (p.after op) := h.change (p.after_change op) (hops op List.mem_cons_self)
    exact ih hfirst fun other hother => hops other (List.mem_cons_of_mem op hother)

end Twinned

/-- In undirected mode a connection can be found from both ends or from none, and its two records
look the same, at every moment of every run that keeps the mode. -/
theorem twin_records_look_alike {settings : Settings} (hundirected : settings.directed = false)
    {ops : List Operation} (hops : ∀ op ∈ ops, op.keepsMode = true) {s t : String} (hne : s ≠ t) :
    let p := (Player.new settings).run ops
    ((p.graph.edge? s t).isSome ↔ (p.graph.edge? t s).isSome) ∧
      ∀ there back, p.graph.edge? s t = some there → p.graph.edge? t s = some back →
        p.scene.edges.get there.id = p.scene.edges.get back.id := by
  intro p
  have h : Twinned p := (Twinned.new hundirected).run hops
  obtain ⟨couples, hgraph⟩ := h.graph
  refine ⟨hgraph.edge?_isSome_comm s t, fun there back hthere hback => ?_⟩
  rw [hgraph.edge?_eq] at hthere hback
  obtain ⟨c, hc, rfl⟩ := Option.map_eq_some_iff.mp hthere
  have hjoins : c.joins s t = true := List.find?_some (p := fun d => Couple.joins d s t) hc
  simp only [Couple.joins_comm _ t s, hc, Option.map_some, Option.some.injEq] at hback
  rw [← hback, ← Couple.entering_eq_leaving hne hjoins]
  unfold Couple.leaving Couple.entering
  split
  · exact h.scene c.number
  · exact (h.scene c.number).symm

/-- A line that is repeated the other way round, and numbers that another connection uses again while
the marks of the old one are there. -/
theorem twin_records_look_alike_of_reused_numbers :
    let ops : List Operation :=
      [.readGraph "3 3\n0 1\n1 0\n1 2", .loadTrace "colorEdge 1 0 red\nsetEdgeWeight 2 0 4",
        .forward, .edit (.disconnect "0" "1"), .edit (.connect "0" "2"), .forward]
    let p := (Player.new Settings.standard).run ops
    Settings.standard.directed = false ∧ (∀ op ∈ ops, op.keepsMode = true) ∧ "0" ≠ "2" ∧
      p.graph.edge? "0" "2" = some ⟨"edge-0", "0", "2", 0.0, some "0-2"⟩ ∧
      p.graph.edge? "2" "0" = some ⟨"edge-1", "2", "0", 0.0, some "0-2"⟩ ∧
      p.scene.edges.get "edge-0" = p.scene.edges.get "edge-1" := by
  intro ops p
  have hops : ∀ op ∈ ops, op.keepsMode = true := by decide
  have hne : "0" ≠ "2" := by decide
  have hthere : p.graph.edge? "0" "2" = some ⟨"edge-0", "0", "2", 0.0, some "0-2"⟩ := by
    decide +kernel
  have hback : p.graph.edge? "2" "0" = some ⟨"edge-1", "2", "0", 0.0, some "0-2"⟩ := by
    decide +kernel
  have hlook := (twin_records_look_alike rfl hops hne).2 _ _ hthere hback
  exact ⟨rfl, hops, hne, hthere, hback, hlook⟩

end Player

end GraphReplay
