import GraphReplay.Scene.Interpret

/-!
# The visit pointer

A board is a simpler picture of the nodes of a scene: every node has one face, nothing is kept aside,
and there is one pointer, to a node or to none.  A scene keeps the face of the node under the pointer
aside and brings it back; `Scene.Represents` says that no trace can tell the two apart.
-/

namespace GraphReplay

/-- What a trace shows of a node, apart from the visit pointer. -/
structure PlainMarks where
  face : Face := Face.blank
  highlight : Bool := false
  label : Option String := none

def PlainMarks.clear (n : PlainMarks) : PlainMarks :=
  { label := n.label }

/-- The marks of every node, and the node that the visit pointer is on. -/
structure Board where
  node : String → PlainMarks
  pointer : Option String

namespace Board

def empty : Board :=
  ⟨fun _ => {}, none⟩

def onNode (b : Board) (id : String) (f : PlainMarks → PlainMarks) : Board :=
  { b with node := fun m => if m = id then f (b.node m) else b.node m }

/-- The board without the pointer if it is on this node. -/
def leave (b : Board) (id : String) : Board :=
  { b with pointer := if b.pointer = some id then none else b.pointer }

theorem pointer_leave_beq (b : Board) (id m : String) :
    ((b.leave id).pointer == some m) = (m != id && b.pointer == some m) := by
  unfold leave
  by_cases hm : m = id
  · rw [hm, bne_self_eq_false, Bool.false_and]
    split <;> simp_all
  · rw [bne_iff_ne.mpr hm, Bool.true_and]
    split
    · next hid => simp [hid, Ne.symm hm]
    · rfl

/-- The board after an instruction.  A visit moves the pointer and nothing else. -/
def perform (palette : Palette) (b : Board) : Instruction → Board
  | .visit node => { b with pointer := some node }
  | .colorNode node color =>
    (b.onNode node fun n => { n with face := { n.face with color := some color } }).leave node
  | .markVisited node =>
    (b.onNode node fun n =>
      { n with face := { n.face with color := some palette.visited, visited := true } }).leave node
  | .markInQueue node =>
    (b.onNode node fun n =>
      { n with face := { n.face with color := some palette.queued, inQueue := true } }).leave node
  | .unhighlightNode node => (b.onNode node PlainMarks.clear).leave node
  | .clearHighlights => ⟨fun m => (b.node m).clear, none⟩
  | .highlightNode node => b.onNode node fun n => { n with highlight := true }
  | .setNodeId node label => b.onNode node fun n => { n with label := some label }
  | .colorEdge .. | .highlightEdge .. | .unhighlightEdge .. | .setEdgeWeight .. | .log .. |
    .clearLog => b

def step (palette : Palette) (b : Board) (command : Command) : Board :=
  match command.action with
  | .ok instruction => b.perform palette instruction
  | .error _ => b

def replay (palette : Palette) (commands : List Command) : Board :=
  commands.foldl (step palette) empty

end Board

/-! ## 1. One node -/

/-- The marks of a node show what its plain marks say; under the pointer the face is blank. -/
structure NodeMarks.Shows (n : NodeMarks) (plain : PlainMarks) (pointed : Bool) : Prop where
  visit : n.visit = pointed
  lasting : n.lasting = plain.face
  live : n.live = if pointed then Face.blank else plain.face
  highlight : n.highlight = plain.highlight
  label : n.label = plain.label

namespace NodeMarks.Shows

variable {n : NodeMarks} {plain : PlainMarks} {pointed : Bool}

theorem release (h : Shows n plain pointed) : Shows n.release plain false := by
  obtain ⟨hvisit, hlasting, hlive, hhighlight, hlabel⟩ := h
  cases pointed with
  | true =>
    -- Under the pointer the face kept aside is the lasting one.
    have hsaved : n.saved = plain.face := by
      rw [← hlasting, NodeMarks.lasting, if_pos hvisit]
    rw [NodeMarks.release, if_pos hvisit]
    exact ⟨rfl, hsaved, hsaved, hhighlight, hlabel⟩
  | false =>
    have hnot : ¬ n.visit = true := by rw [hvisit]; exact Bool.false_ne_true
    rw [NodeMarks.release, if_neg hnot]
    exact ⟨hvisit, hlasting, hlive, hhighlight, hlabel⟩

theorem receive (h : Shows n plain false) : Shows n.receive plain true :=
  ⟨rfl, h.live, rfl, h.highlight, h.label⟩

theorem withFace (h : Shows n plain pointed) (face saved : Face) :
    Shows { n with visit := false, live := face, saved := saved } { plain with face := face } false :=
  ⟨rfl, rfl, rfl, h.highlight, h.label⟩

theorem clear (h : Shows n plain pointed) : Shows n.clear plain.clear false :=
  ⟨rfl, rfl, rfl, rfl, h.label⟩

theorem outline (h : Shows n plain pointed) :
    Shows { n with highlight := true } { plain with highlight := true } pointed :=
  ⟨h.visit, h.lasting, h.live, rfl, h.label⟩

theorem relabel (h : Shows n plain pointed) (label : String) :
    Shows { n with label := some label } { plain with label := some label } pointed :=
  ⟨h.visit, h.lasting, h.live, h.highlight, rfl⟩

end NodeMarks.Shows

/-! ## 2. All nodes -/

/-- Every node of the scene shows what the board says. -/
def Scene.Represents (s : Scene) (b : Board) : Prop :=
  ∀ m, (s.nodes.get m).Shows (b.node m) (b.pointer == some m)

namespace Scene.Represents

variable {s : Scene} {b : Board}

theorem empty : Represents Scene.empty Board.empty :=
  fun _ => ⟨rfl, rfl, rfl, rfl, rfl⟩

theorem onNode (h : Represents s b) (id : String) {f : NodeMarks → NodeMarks}
    {g : PlainMarks → PlainMarks}
    (hshows : (f (s.nodes.get id)).Shows (g (b.node id)) (b.pointer == some id)) :
    Represents (s.onNode id f) (b.onNode id g) := by
  intro m
  simp only [Scene.onNode, Board.onNode, Marks.get_update]
  by_cases hm : m = id
  · rw [if_pos hm, if_pos hm, hm]
    exact hshows
  · rw [if_neg hm, if_neg hm]
    exact h m

theorem onNode_leave (h : Represents s b) (id : String) {f : NodeMarks → NodeMarks}
    {g : PlainMarks → PlainMarks} (hshows : (f (s.nodes.get id)).Shows (g (b.node id)) false) :
    Represents (s.onNode id f) ((b.onNode id g).leave id) := by
  intro m
  rw [Board.pointer_leave_beq]
  simp only [Scene.onNode, Board.onNode, Board.leave, Marks.get_update]
  -- The pointer leaves `id` only: any other node shows what it did.
  by_cases hm : m = id
  · rw [if_pos hm, if_pos hm, hm, bne_self_eq_false, Bool.false_and]
    exact hshows
  · rw [if_neg hm, if_neg hm, bne_iff_ne.mpr hm, Bool.true_and]
    exact h m

theorem visit (h : Represents s b) (id : String) :
    Represents { s with nodes := (s.nodes.map NodeMarks.release).update id NodeMarks.receive }
      { b with pointer := some id } := by
  intro m
  -- Wherever the pointer was, no node is under it before it is set down again.
  have hrelease : ((s.nodes.map NodeMarks.release).get m).Shows (b.node m) false := by
    rw [Marks.get_map rfl]
    exact (h m).release
  simp only [Marks.get_update]
  by_cases hm : m = id
  · rw [if_pos hm, hm, beq_self_eq_true]
    exact (hm ▸ hrelease).receive
  · have hpointer : (some id == some m) = false := by simp [Ne.symm hm]
    rw [if_neg hm, hpointer]
    exact hrelease

theorem clearHighlights (h : Represents s b) :
    Represents { s with nodes := s.nodes.map NodeMarks.clear, edges := s.edges.map EdgeMarks.clear }
      ⟨fun m => (b.node m).clear, none⟩ := by
  intro m
  show ((s.nodes.map NodeMarks.clear).get m).Shows (b.node m).clear false
  rw [Marks.get_map rfl]
  exact (h m).clear

theorem perform (h : Represents s b) (palette : Palette) (graph : Graph)
    (instruction : Instruction) :
    Represents (s.perform palette graph instruction) (b.perform palette instruction) := by
  cases instruction with
  | visit node => exact h.visit node
  -- These three change one part of the lasting face, which may be the one that is kept aside.
  | colorNode node color =>
    apply h.onNode_leave node
    rw [← (h node).lasting]
    exact (h node).withFace _ _
  | markVisited node =>
    apply h.onNode_leave node
    rw [← (h node).lasting]
    exact (h node).withFace _ _
  | markInQueue node =>
    apply h.onNode_leave node
    rw [← (h node).lasting]
    exact (h node).withFace _ _
  | unhighlightNode node => exact h.onNode_leave node (h node).clear
  | clearHighlights => exact h.clearHighlights
  | highlightNode node =>
    rw [Scene.perform, Board.perform]
    exact h.onNode node (by exact (h node).outline)
  | setNodeId node label =>
    rw [Scene.perform, Board.perform]
    exact h.onNode node (by exact (h node).relabel label)
  | colorEdge source target color => exact h
  | highlightEdge source target => exact h
  | unhighlightEdge source target => exact h
  | setEdgeWeight source target weight => exact h
  | log text => exact h
  | clearLog => exact h

theorem step (h : Represents s b) (settings : Settings) (graph : Graph) (command : Command) :
    Represents (s.step settings graph command).scene (b.step settings.palette command) := by
  unfold Scene.step Board.step
  cases command.action with
  | ok instruction => exact h.perform settings.palette graph instruction
  | error fault => exact h

theorem replay (settings : Settings) (graph : Graph) (commands : List Command) :
    Represents (Scene.replay settings graph commands) (Board.replay settings.palette commands) := by
  apply List.foldl_rel (r := Represents) empty
  intro command _ s b h
  exact h.step settings graph command

end Scene.Represents

/-- Whatever a trace does, a node carries the visit pointer exactly when the pointer of the board is
on it, so that one node does at most; its lasting face, outline and label are those of the board, and
the face that is shown is the lasting one, or blank under the pointer. -/
theorem Scene.replay_eq_board (settings : Settings) (graph : Graph) (commands : List Command) :
    let s := Scene.replay settings graph commands
    let b := Board.replay settings.palette commands
    ∀ m, ((s.nodes.get m).visit = true ↔ b.pointer = some m) ∧
      (s.nodes.get m).lasting = (b.node m).face ∧
      (s.nodes.get m).highlight = (b.node m).highlight ∧
      (s.nodes.get m).label = (b.node m).label ∧
      (s.nodes.get m).live = if b.pointer = some m then Face.blank else (b.node m).face := by
  intro s b m
  have h : (s.nodes.get m).Shows (b.node m) (b.pointer == some m) :=
    Scene.Represents.replay settings graph commands m
  refine ⟨?_, h.lasting, h.highlight, h.label, ?_⟩
  · rw [h.visit, beq_iff_eq]
  · rw [h.live]
    simp only [beq_iff_eq]

end GraphReplay
