import GraphReplay.Proofs.Playback.Fresh

/-!
# The order of instructions

An instruction changes marks one by one: those of the node that it names or of the records that it
reaches in one way, and those of all the others in another way (`Marks.Revision`).  So two
instructions may change places when what they do to every single mark may, and an instruction may be
repeated when what it does to every single mark may.
-/

namespace GraphReplay

/-! ## 1. Changes of marks one by one -/

namespace Marks

/-- What is done to the marks at some ids, and what is done to those of all other entries.  An id
without an entry stays without one unless it is among these ids. -/
structure Revision (α : Type) [Inhabited α] where
  ids : List String
  touch : α → α
  sweep : α → α
  sweep_default : sweep default = default

namespace Revision

variable {α : Type} [Inhabited α] {r r' : Revision α} {m m₁ m₂ m₁₂ m₂₁ : Marks α} {id : String}

/-- The revision makes `m'` of `m`. -/
structure Makes (r : Revision α) (m m' : Marks α) : Prop where
  touched : ∀ id ∈ r.ids, m'.get? id = some (r.touch (m.get id))
  swept : ∀ id ∉ r.ids, m'.get? id = (m.get? id).map r.sweep

theorem Makes.get_of_mem (h : r.Makes m m₁) (hid : id ∈ r.ids) :
    m₁.get id = r.touch (m.get id) := by
  rw [Marks.get, h.touched id hid]
  rfl

theorem Makes.get_of_not_mem (h : r.Makes m m₁) (hid : id ∉ r.ids) :
    m₁.get id = r.sweep (m.get id) := by
  rw [Marks.get, h.swept id hid, Marks.get]
  cases m.get? id with
  | none => exact r.sweep_default.symm
  | some a => rfl

/-- What the two revisions do to a mark may change places, at whichever ids it stands. -/
structure Commute (r r' : Revision α) : Prop where
  both : ∀ id ∈ r.ids, id ∈ r'.ids → ∀ a, r'.touch (r.touch a) = r.touch (r'.touch a)
  first : ∀ id ∈ r.ids, id ∉ r'.ids → ∀ a, r'.sweep (r.touch a) = r.touch (r'.sweep a)
  second : ∀ id ∉ r.ids, id ∈ r'.ids → ∀ a, r'.touch (r.sweep a) = r.sweep (r'.touch a)
  neither : ∀ a, r'.sweep (r.sweep a) = r.sweep (r'.sweep a)

theorem Commute.eq (h : Commute r r') (h₁ : r.Makes m m₁) (h₁₂ : r'.Makes m₁ m₁₂)
    (h₂ : r'.Makes m m₂) (h₂₁ : r.Makes m₂ m₂₁) : m₁₂ = m₂₁ := by
  apply Marks.ext_get?
  intro id
  by_cases hid : id ∈ r.ids
  · by_cases hid' : id ∈ r'.ids
    · rw [h₁₂.touched id hid', h₂₁.touched id hid, h₁.get_of_mem hid, h₂.get_of_mem hid',
        h.both id hid hid']
    · rw [h₁₂.swept id hid', h₁.touched id hid, h₂₁.touched id hid, h₂.get_of_not_mem hid',
        Option.map_some, h.first id hid hid']
  · by_cases hid' : id ∈ r'.ids
    · rw [h₁₂.touched id hid', h₁.get_of_not_mem hid, h₂₁.swept id hid, h₂.touched id hid',
        Option.map_some, h.second id hid hid']
    · rw [h₁₂.swept id hid', h₁.swept id hid, h₂₁.swept id hid, h₂.swept id hid', Option.map_map,
        Option.map_map]
      exact congrArg (fun f => (m.get? id).map f) (funext h.neither)

/-- A revision that changes no mark twice makes nothing new of what it has made. -/
theorem Makes.eq_of_idempotent (h₁ : r.Makes m m₁) (h₁₂ : r.Makes m₁ m₁₂)
    (htouch : ∀ a, r.touch (r.touch a) = r.touch a)
    (hsweep : ∀ a, r.sweep (r.sweep a) = r.sweep a) : m₁₂ = m₁ := by
  apply Marks.ext_get?
  intro id
  by_cases hid : id ∈ r.ids
  · rw [h₁₂.touched id hid, h₁.get_of_mem hid, htouch, h₁.touched id hid]
  · rw [h₁₂.swept id hid, h₁.swept id hid, Option.map_map]
    exact congrArg (fun f => (m.get? id).map f) (funext hsweep)

end Revision

end Marks

/-! ## 2. What an instruction does to one node and to one record -/

namespace Instruction

/-- What an instruction makes of the marks of the node that it names. -/
def namedNode (palette : Palette) : Instruction → NodeMarks → NodeMarks
  | .visit _, n => n.release.receive
  | .colorNode _ color, n => n.paint color
  | .highlightNode _, n => { n with highlight := true }
  | .unhighlightNode _, n => n.clear
  | .markVisited _, n => n.markVisited palette.visited
  | .markInQueue _, n => n.markInQueue palette.queued
  | .setNodeId _ label, n => { n with label := some label }
  | _, n => n

/-- What an instruction makes of the marks of any other node. -/
def otherNode : Instruction → NodeMarks → NodeMarks
  | .visit _, n => n.release
  | .clearHighlights, n => n.clear
  | _, n => n

/-- What an instruction makes of the marks of a record that it reaches. -/
def reachedEdge (palette : Palette) : Instruction → EdgeMarks → EdgeMarks
  | .colorEdge _ _ color, e => { e with color := some color }
  | .highlightEdge .., e => { e with highlight := true, color := some palette.highlight }
  | .unhighlightEdge .., e => e.clear
  | .setEdgeWeight _ _ weight, e => { e with weight := some weight }
  | _, e => e

/-- What an instruction makes of the marks of any other record. -/
def otherEdge : Instruction → EdgeMarks → EdgeMarks
  | .clearHighlights, e => e.clear
  | _, e => e

def nodeRevision (palette : Palette) (instruction : Instruction) : Marks.Revision NodeMarks where
  ids := instruction.node?.toList
  touch := instruction.namedNode palette
  sweep := instruction.otherNode
  sweep_default := by cases instruction <;> rfl

def edgeRevision (palette : Palette) (graph : Graph) (instruction : Instruction) :
    Marks.Revision EdgeMarks where
  ids := instruction.reached graph
  touch := instruction.reachedEdge palette
  sweep := instruction.otherEdge
  sweep_default := by cases instruction <;> rfl

/-! An instruction does no more to one mark by being repeated. -/

theorem namedNode_namedNode (palette : Palette) (instruction : Instruction) (n : NodeMarks) :
    instruction.namedNode palette (instruction.namedNode palette n) =
      instruction.namedNode palette n := by
  cases instruction <;> rfl

theorem otherNode_otherNode (instruction : Instruction) (n : NodeMarks) :
    instruction.otherNode (instruction.otherNode n) = instruction.otherNode n := by
  obtain ⟨visit, highlight, live, saved, label⟩ := n
  cases instruction with
  | visit node => cases visit <;> rfl
  | _ => rfl

theorem reachedEdge_reachedEdge (palette : Palette) (instruction : Instruction) (e : EdgeMarks) :
    instruction.reachedEdge palette (instruction.reachedEdge palette e) =
      instruction.reachedEdge palette e := by
  cases instruction <;> rfl

theorem otherEdge_otherEdge (instruction : Instruction) (e : EdgeMarks) :
    instruction.otherEdge (instruction.otherEdge e) = instruction.otherEdge e := by
  cases instruction <;> rfl

end Instruction

namespace Scene

theorem nodes_perform (s : Scene) (palette : Palette) (graph : Graph) (instruction : Instruction) :
    (instruction.nodeRevision palette).Makes s.nodes
      (s.perform palette graph instruction).nodes := by
  constructor
  case touched =>
    intro id hid
    have hnamed : instruction.node? = some id := Option.mem_toList.mp hid
    cases instruction <;> cases hnamed
    case visit =>
      show ((s.nodes.map NodeMarks.release).update id NodeMarks.receive).get? id = _
      rw [Marks.update, Marks.get?_put_self, Marks.get_map rfl]
      rfl
    all_goals exact Marks.get?_put_self _ _ _
  case swept =>
    intro id hid
    have hother : ∀ node, instruction.node? = some node → id ≠ node := fun node hnode heq =>
      hid (Option.mem_toList.mpr (heq ▸ hnode))
    cases instruction
    case visit node =>
      exact (Marks.get?_put_of_ne _ (hother node rfl) _).trans (Marks.get?_map _ _ id)
    case clearHighlights => exact Marks.get?_map NodeMarks.clear s.nodes id
    case colorNode node _ | highlightNode node | unhighlightNode node | markVisited node
        | markInQueue node | setNodeId node _ =>
      exact (Marks.get?_put_of_ne _ (hother node rfl) _).trans Option.map_id'.symm
    all_goals exact Option.map_id'.symm

theorem edges_onEdges {f : EdgeMarks → EdgeMarks} (hf : ∀ e, f (f e) = f e) (s : Scene)
    (ids : List String) :
    (⟨ids, f, fun e => e, rfl⟩ : Marks.Revision EdgeMarks).Makes s.edges
      (s.onEdges ids f).edges where
  touched := fun id hid => by rw [get?_edges_onEdges hf, if_pos hid]
  swept := fun id hid => by rw [get?_edges_onEdges hf, if_neg hid]; exact Option.map_id'.symm

theorem edges_perform (s : Scene) (palette : Palette) (graph : Graph) (instruction : Instruction) :
    (instruction.edgeRevision palette graph).Makes s.edges
      (s.perform palette graph instruction).edges := by
  have htwice : ∀ e, instruction.reachedEdge palette (instruction.reachedEdge palette e) =
      instruction.reachedEdge palette e := instruction.reachedEdge_reachedEdge palette
  cases instruction
  case clearHighlights => exact ⟨nofun, fun id _ => Marks.get?_map EdgeMarks.clear s.edges id⟩
  case colorEdge | highlightEdge | unhighlightEdge | setEdgeWeight =>
    exact edges_onEdges htwice s _
  all_goals exact ⟨nofun, fun _ _ => Option.map_id'.symm⟩

end Scene

/-! ## 3. Instructions that change places -/

namespace Instruction

def movesPointer : Instruction → Bool
  | .visit _ => true
  | _ => false

def setsWeight : Instruction → Bool
  | .setEdgeWeight .. => true
  | _ => false

/-- Two instructions do not depend on each other over this graph, in whichever order. -/
inductive Independent (graph : Graph) : Instruction → Instruction → Prop where
  /-- They name different nodes, and only one of them at most moves the visit pointer. -/
  | nodes {a b : Instruction} {m n : String} (ha : a.node? = some m) (hb : b.node? = some n)
      (hne : m ≠ n) (hpointer : (a.movesPointer && b.movesPointer) = false) : Independent graph a b
  | nodeAndEdge {a b : Instruction} {m s t : String} (ha : a.node? = some m) (hb : b.About s t) :
      Independent graph a b
  /-- They are about connections that have no record in common. -/
  | edges {a b : Instruction} {s t u v : String} (ha : a.About s t) (hb : b.About u v)
      (hrecords : (graph.recordIds s t).Disjoint (graph.recordIds u v)) : Independent graph a b
  /-- They are about connections, perhaps the same, and only one of them sets the weight. -/
  | weight {a b : Instruction} {s t u v : String} (ha : a.About s t) (hb : b.About u v)
      (hsets : a.setsWeight = true) (hkeeps : b.setsWeight = false) : Independent graph a b
  | messages {a b : Instruction} (ha : a.marksMessages = true) (hb : b.marksMessages = false) :
      Independent graph a b
  | symm {a b : Instruction} (h : Independent graph a b) : Independent graph b a

variable {a b : Instruction} {m n s t : String} {palette : Palette} {graph : Graph}

theorem otherNode_of_not_movesPointer (hnode : a.node? = some m) (hpointer : a.movesPointer = false)
    (marks : NodeMarks) : a.otherNode marks = marks := by
  cases a with
  | visit node => exact nomatch hpointer
  | clearHighlights => exact nomatch hnode
  | _ => rfl

/-- Wherever the pointer was, an instruction that does not move it finds the same lasting face. -/
theorem release_namedNode (hpointer : a.movesPointer = false) (marks : NodeMarks) :
    (a.namedNode palette marks).release = a.namedNode palette marks.release := by
  obtain ⟨visit, highlight, live, saved, label⟩ := marks
  cases a with
  | visit node => exact nomatch hpointer
  | _ => cases visit <;> rfl

theorem otherNode_namedNode (hb : b.node? = some n)
    (hpointer : (a.movesPointer && b.movesPointer) = false) (marks : NodeMarks) :
    b.otherNode (a.namedNode palette marks) = a.namedNode palette (b.otherNode marks) := by
  cases hmoves : b.movesPointer with
  | false => rw [otherNode_of_not_movesPointer hb hmoves, otherNode_of_not_movesPointer hb hmoves]
  | true =>
    rw [hmoves, Bool.and_true] at hpointer
    cases b with
    | visit node => exact release_namedNode hpointer marks
    | _ => exact nomatch hmoves

theorem otherNode_comm (ha : a.node? = some m) (hb : b.node? = some n)
    (hpointer : (a.movesPointer && b.movesPointer) = false) (marks : NodeMarks) :
    b.otherNode (a.otherNode marks) = a.otherNode (b.otherNode marks) := by
  rcases Bool.and_eq_false_iff.mp hpointer with ha' | hb'
  · rw [otherNode_of_not_movesPointer ha ha', otherNode_of_not_movesPointer ha ha']
  · rw [otherNode_of_not_movesPointer hb hb', otherNode_of_not_movesPointer hb hb']

theorem nodeRevision_commute (ha : a.node? = some m) (hb : b.node? = some n) (hne : m ≠ n)
    (hpointer : (a.movesPointer && b.movesPointer) = false) :
    (a.nodeRevision palette).Commute (b.nodeRevision palette) where
  both := by
    intro id hid hid'
    have hm : a.node? = some id := Option.mem_toList.mp hid
    have hn : b.node? = some id := Option.mem_toList.mp hid'
    exact absurd (Option.some.inj (ha.symm.trans (hm.trans (hn.symm.trans hb)))) hne
  first := fun _ _ _ => otherNode_namedNode hb hpointer
  second := fun _ _ _ marks =>
    (otherNode_namedNode ha (Bool.and_comm _ _ ▸ hpointer) marks).symm
  neither := otherNode_comm ha hb hpointer

theorem About.otherEdge_eq (h : a.About s t) (marks : EdgeMarks) : a.otherEdge marks = marks := by
  cases h <;> rfl

theorem reachedEdge_comm (hsets : a.setsWeight = true) (hkeeps : b.setsWeight = false)
    (marks : EdgeMarks) :
    b.reachedEdge palette (a.reachedEdge palette marks) =
      a.reachedEdge palette (b.reachedEdge palette marks) := by
  -- The one writes the weight and nothing else, the other anything but the weight.
  cases a with
  | setEdgeWeight source target weight =>
    cases b with
    | setEdgeWeight source target other => exact nomatch hkeeps
    | _ => rfl
  | _ => exact nomatch hsets

theorem edgeRevision_commute {u v : String} (ha : a.About s t) (hb : b.About u v)
    (hboth : ∀ id ∈ graph.recordIds s t, id ∈ graph.recordIds u v → ∀ marks,
      b.reachedEdge palette (a.reachedEdge palette marks) =
        a.reachedEdge palette (b.reachedEdge palette marks)) :
    (a.edgeRevision palette graph).Commute (b.edgeRevision palette graph) where
  both := by
    intro id hid hid'
    have hin : id ∈ graph.recordIds s t := ha.reached_eq graph ▸ hid
    have hin' : id ∈ graph.recordIds u v := hb.reached_eq graph ▸ hid'
    exact hboth id hin hin'
  first := fun _ _ _ marks => by
    show b.otherEdge (a.reachedEdge palette marks) = a.reachedEdge palette (b.otherEdge marks)
    rw [hb.otherEdge_eq, hb.otherEdge_eq]
  second := fun _ _ _ marks => by
    show b.reachedEdge palette (a.otherEdge marks) = a.otherEdge (b.reachedEdge palette marks)
    rw [ha.otherEdge_eq, ha.otherEdge_eq]
  neither := fun marks => by
    show b.otherEdge (a.otherEdge marks) = a.otherEdge (b.otherEdge marks)
    rw [ha.otherEdge_eq, ha.otherEdge_eq]

end Instruction

/-! What a command leaves alone. -/

namespace Command

variable {command : Command} {instruction : Instruction} {m s t : String}

theorem parts_of_node? (haction : command.action = .ok instruction)
    (h : instruction.node? = some m) :
    command.marksEdges = false ∧ command.marksMessages = false := by
  rw [marksEdges_of_ok haction, marksMessages_of_ok haction]
  cases instruction <;> first | exact ⟨rfl, rfl⟩ | exact nomatch h

theorem parts_of_about (haction : command.action = .ok instruction) (h : instruction.About s t) :
    command.marksNodes = false ∧ command.marksMessages = false := by
  rw [marksNodes_of_ok haction, marksMessages_of_ok haction]
  cases h <;> exact ⟨rfl, rfl⟩

theorem parts_of_marksMessages (haction : command.action = .ok instruction)
    (h : instruction.marksMessages = true) :
    command.marksNodes = false ∧ command.marksEdges = false := by
  rw [marksNodes_of_ok haction, marksEdges_of_ok haction]
  cases instruction <;> first | exact ⟨rfl, rfl⟩ | exact nomatch h

end Command

namespace Scene

open Instruction

variable {settings : Settings} {graph : Graph} {a b command : Command}
  {i j instruction : Instruction}

theorem eq_of_parts {s t : Scene} (hnodes : s.nodes = t.nodes) (hedges : s.edges = t.edges)
    (hmessages : s.messages = t.messages) : s = t :=
  SameOffEdges.eq_of_edges_eq ⟨hnodes, hmessages⟩ hedges

theorem step_eq_followed (haction : command.action = .ok instruction) (s : Scene) :
    s.step settings graph command = .followed (s.step settings graph command).scene := by
  simp only [step, haction, LineResult.scene]

theorem nodes_step (haction : command.action = .ok instruction) (s : Scene) :
    (instruction.nodeRevision settings.palette).Makes s.nodes
      (s.step settings graph command).scene.nodes := by
  rw [step_of_ok haction]
  exact nodes_perform s settings.palette graph instruction

theorem edges_step (haction : command.action = .ok instruction) (s : Scene) :
    (instruction.edgeRevision settings.palette graph).Makes s.edges
      (s.step settings graph command).scene.edges := by
  rw [step_of_ok haction]
  exact edges_perform s settings.palette graph instruction

/-- Two commands about connections may change places when what they do to a record of both may. -/
theorem step_comm_of_about {source target source' target' : String} (ha : a.action = .ok i)
    (hb : b.action = .ok j) (hi : i.About source target) (hj : j.About source' target')
    (hboth : ∀ id ∈ graph.recordIds source target, id ∈ graph.recordIds source' target' → ∀ marks,
      j.reachedEdge settings.palette (i.reachedEdge settings.palette marks) =
        i.reachedEdge settings.palette (j.reachedEdge settings.palette marks)) (s : Scene) :
    ((s.step settings graph a).scene.step settings graph b).scene =
      ((s.step settings graph b).scene.step settings graph a).scene := by
  obtain ⟨hnoNodes, hnoMessages⟩ := Command.parts_of_about ha hi
  apply eq_of_parts
  · exact (part_nodes settings).step_comm (Or.inl hnoNodes) s graph
  · exact (edgeRevision_commute hi hj hboth).eq (edges_step ha s) (edges_step hb _)
      (edges_step hb s) (edges_step ha _)
  · exact (part_messages settings).step_comm (Or.inl hnoMessages) s graph

theorem step_comm_of_independent (h : i.Independent graph j) (ha : a.action = .ok i)
    (hb : b.action = .ok j) (s : Scene) :
    ((s.step settings graph a).scene.step settings graph b).scene =
      ((s.step settings graph b).scene.step settings graph a).scene := by
  have hnodes := part_nodes settings
  have hedges := part_edges settings
  have hmessages := part_messages settings
  -- Where one of the two leaves a part alone the other decides; a part that both of them mark is
  -- looked at mark by mark.
  induction h generalizing a b with
  | symm h ih => exact (ih hb ha).symm
  | nodes hi hj hne hpointer =>
    obtain ⟨hnoEdges, hnoMessages⟩ := Command.parts_of_node? ha hi
    apply eq_of_parts
    · exact (nodeRevision_commute hi hj hne hpointer).eq (nodes_step ha s) (nodes_step hb _)
        (nodes_step hb s) (nodes_step ha _)
    · exact hedges.step_comm (Or.inl hnoEdges) s graph
    · exact hmessages.step_comm (Or.inl hnoMessages) s graph
  | nodeAndEdge hi hj =>
    obtain ⟨hnoEdges, hnoMessages⟩ := Command.parts_of_node? ha hi
    obtain ⟨hnoNodes, _⟩ := Command.parts_of_about hb hj
    apply eq_of_parts
    · exact hnodes.step_comm (Or.inr hnoNodes) s graph
    · exact hedges.step_comm (Or.inl hnoEdges) s graph
    · exact hmessages.step_comm (Or.inl hnoMessages) s graph
  | edges hi hj hrecords =>
    exact step_comm_of_about ha hb hi hj (fun id hid hid' => absurd hid' (hrecords hid)) s
  | weight hi hj hsets hkeeps =>
    exact step_comm_of_about ha hb hi hj (fun _ _ _ => reachedEdge_comm hsets hkeeps) s
  | messages hi hj =>
    obtain ⟨hnoNodes, hnoEdges⟩ := Command.parts_of_marksMessages ha hi
    apply eq_of_parts
    · exact hnodes.step_comm (Or.inl hnoNodes) s graph
    · exact hedges.step_comm (Or.inl hnoEdges) s graph
    · exact hmessages.step_comm (Or.inr ((Command.marksMessages_of_ok hb).trans hj)) s graph

/-- Commands that do not depend on each other may change places in every scene, also in one that no
trace leads to: on different nodes unless both move the visit pointer, even if the pointer leaves the
node of the other; on a node and on a connection; on connections without a common record, or when
only one of them sets the weight; and on the messages and on anything else. -/
theorem independent_commands_commute (settings : Settings) (graph : Graph) (s : Scene)
    {a b : Command} {i j : Instruction} (ha : a.action = .ok i) (hb : b.action = .ok j)
    (h : i.Independent graph j) :
    ∃ t, (s.step settings graph a).scene.step settings graph b = .followed t ∧
      (s.step settings graph b).scene.step settings graph a = .followed t := by
  refine ⟨_, step_eq_followed hb _, ?_⟩
  rw [step_comm_of_independent h ha hb s]
  exact step_eq_followed ha _

/-- Two nodes carry the pointer, and the pointer moves from the one that is filled. -/
theorem independent_commands_commute_of_pointer_leaving :
    let zero : NodeMarks := { visit := true, saved := { color := some "red", visited := true } }
    let two : NodeMarks := { visit := true, live := { inQueue := true } }
    let s : Scene := { nodes := Marks.ofList [("0", zero), ("2", two)] }
    let graph := Graph.ofEnds false 3 [(0, 1)]
    ∃ t, (s.step {} graph (Command.read "visit 1")).scene.step {} graph
        (Command.read "colorNode 0 blue") = .followed t ∧
      (s.step {} graph (Command.read "colorNode 0 blue")).scene.step {} graph
        (Command.read "visit 1") = .followed t ∧
      t.nodes = Marks.ofList [
        ("0", { live := { color := some "blue", visited := true }, saved := { visited := true } }),
        ("1", { visit := true }), ("2", {})] := by
  intro zero two s graph
  have hvisit : (Command.read "visit 1").action = .ok (.visit "1") := by decide +kernel
  have hcolor : (Command.read "colorNode 0 blue").action = .ok (.colorNode "0" "blue") := by
    decide +kernel
  have h : (Instruction.visit "1").Independent graph (.colorNode "0" "blue") :=
    .nodes rfl rfl (by decide) rfl
  obtain ⟨t, hfirst, hsecond⟩ := independent_commands_commute {} graph s hvisit hcolor h
  refine ⟨t, hfirst, hsecond, ?_⟩
  have hscene := congrArg LineResult.scene hfirst
  rw [step_of_ok hcolor, step_of_ok hvisit] at hscene
  rw [← show _ = t from hscene]
  decide +kernel

/-! ## 4. Instructions that are repeated -/

theorem step_step_of_not_log (haction : command.action = .ok instruction)
    (hlog : ∀ text, instruction ≠ .log text) (s : Scene) :
    ((s.step settings graph command).scene.step settings graph command).scene =
      (s.step settings graph command).scene := by
  apply eq_of_parts
  · exact (nodes_step haction s).eq_of_idempotent (nodes_step haction _)
      (namedNode_namedNode settings.palette instruction) (otherNode_otherNode instruction)
  · exact (edges_step haction s).eq_of_idempotent (edges_step haction _)
      (reachedEdge_reachedEdge settings.palette instruction) (otherEdge_otherEdge instruction)
  · rw [step_of_ok haction, step_of_ok haction, messages_perform, messages_perform]
    cases instruction with
    | log text => exact absurd rfl (hlog text)
    | clearLog => rfl
    | _ => exact List.append_nil _

/-- A command may be repeated, in whichever scene, just when it is no `log` command: following it
once more changes nothing then. -/
theorem repeatable_iff_not_log (settings : Settings) (graph : Graph) {command : Command}
    {instruction : Instruction} (haction : command.action = .ok instruction) :
    (∀ s : Scene, ∃ t, s.step settings graph command = .followed t ∧
      t.step settings graph command = .followed t) ↔ ∀ text, instruction ≠ .log text := by
  constructor
  · rintro h text rfl
    obtain ⟨t, hfirst, hsecond⟩ := h Scene.empty
    -- The message would stand there once and twice.
    rw [step_eq_followed haction, step_of_ok haction] at hfirst hsecond
    cases hfirst
    have hmessages := congrArg (fun result => result.scene.messages.length) hsecond
    exact absurd hmessages (by simp [LineResult.scene, perform, say])
  · intro hlog s
    refine ⟨_, step_eq_followed haction s, ?_⟩
    rw [step_eq_followed haction, step_step_of_not_log haction hlog]

/-- A visit where two other nodes carry the pointer, with faces kept aside. -/
theorem repeatable_iff_not_log_of_two_pointers :
    let zero : NodeMarks := { visit := true, saved := { color := some "red" } }
    let two : NodeMarks := { visit := true, live := { inQueue := true }, saved := { visited := true } }
    let s : Scene := { nodes := Marks.ofList [("0", zero), ("2", two)] }
    ∃ t, s.step {} (Graph.empty true) (Command.read "visit 2") = .followed t ∧
      t.step {} (Graph.empty true) (Command.read "visit 2") = .followed t ∧
      t.nodes = Marks.ofList [("0", { live := { color := some "red" } }),
        ("2", { visit := true, saved := { visited := true } })] := by
  intro zero two s
  have hvisit : (Command.read "visit 2").action = .ok (.visit "2") := by decide +kernel
  obtain ⟨t, hfirst, hsecond⟩ := (repeatable_iff_not_log {} (Graph.empty true) hvisit).mpr nofun s
  refine ⟨t, hfirst, hsecond, ?_⟩
  have hscene := congrArg LineResult.scene hfirst
  rw [step_of_ok hvisit] at hscene
  rw [← show _ = t from hscene]
  decide +kernel

end Scene

end GraphReplay
