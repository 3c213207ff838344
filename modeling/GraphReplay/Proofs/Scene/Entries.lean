import GraphReplay.Canvas.Drawing
import GraphReplay.Proofs.Scene.Order

/-!
# Entries that say nothing

The maps of a scene hold entries for the ids that some instruction has come across, also when the
marks are the default ones again, and a visit or `clearHighlights` goes through the entries that are
there.  Which ids have entries is a matter of history, and it shows nowhere: scenes that agree on
every mark go on to agree, and a canvas draws them alike (`default_entries_unseen`).
-/

namespace GraphReplay

/-- Revisions make the same marks of the same marks, whichever ids have entries. -/
theorem Marks.Revision.Makes.get_congr {α : Type} [Inhabited α] {r : Marks.Revision α}
    {m m' n n' : Marks α} (hm : r.Makes m m') (hn : r.Makes n n')
    (h : ∀ id, m.get id = n.get id) (id : String) : m'.get id = n'.get id := by
  by_cases hid : id ∈ r.ids
  · rw [hm.get_of_mem hid, hn.get_of_mem hid, h]
  · rw [hm.get_of_not_mem hid, hn.get_of_not_mem hid, h]

/-- The scenes have the same marks at every id and the same messages.  An id without an entry has
the default marks. -/
structure Scene.Agree (s t : Scene) : Prop where
  nodes : ∀ id, s.nodes.get id = t.nodes.get id
  edges : ∀ id, s.edges.get id = t.edges.get id
  messages : s.messages = t.messages

/-- Both lines are followed, or both are refused for the same fault, and the scenes agree. -/
inductive LineResult.Agree : LineResult → LineResult → Prop where
  | followed {s t : Scene} (h : s.Agree t) : Agree (.followed s) (.followed t)
  | refused {s t : Scene} (fault : Fault) (h : s.Agree t) :
    Agree (.refused s fault) (.refused t fault)

theorem LineResult.Agree.scene {a b : LineResult} (h : a.Agree b) : a.scene.Agree b.scene := by
  cases h with
  | followed h => exact h
  | refused fault h => exact h

namespace Scene

variable {s t : Scene}

/-- A node may get an entry for the marks that it has. -/
theorem agree_onNode_self (s : Scene) (id : String) : s.Agree (s.onNode id fun n => n) where
  nodes := by
    intro other
    show _ = (s.nodes.update id fun n => n).get other
    rw [Marks.get_update, ite_self]
  edges := fun _ => rfl
  messages := rfl

namespace Agree

theorem say (h : s.Agree t) (message : Message) : (s.say message).Agree (t.say message) :=
  ⟨h.nodes, h.edges, congrArg (· ++ [message]) h.messages⟩

theorem perform (h : s.Agree t) (palette : Palette) (graph : Graph) (instruction : Instruction) :
    (s.perform palette graph instruction).Agree (t.perform palette graph instruction) where
  nodes := (s.nodes_perform palette graph instruction).get_congr
    (t.nodes_perform palette graph instruction) h.nodes
  edges := (s.edges_perform palette graph instruction).get_congr
    (t.edges_perform palette graph instruction) h.edges
  messages := by rw [messages_perform, messages_perform, h.messages]

theorem step (h : s.Agree t) (settings : Settings) (graph : Graph) (command : Command) :
    (s.step settings graph command).Agree (t.step settings graph command) := by
  unfold Scene.step
  cases command.action with
  | ok instruction => exact .followed (h.perform settings.palette graph instruction)
  | error fault => exact .refused fault (h.say (fault.report settings command.raw))

theorem follow (h : s.Agree t) (settings : Settings) (steps : List (Command × Graph)) :
    (s.follow settings steps).Agree (t.follow settings steps) := by
  induction steps generalizing s t with
  | nil => exact h
  | cons step steps ih => exact ih (h.step settings step.2 step.1).scene

theorem draw_eq (h : s.Agree t) (c : Canvas) : (c.setScene s).draw = (c.setScene t).draw := by
  have hlinks : (c.setScene s).linkCalls = (c.setScene t).linkCalls := by
    funext l
    unfold Canvas.linkCalls Canvas.edgeCalls
    rw [show (c.setScene s).scene.edges.get l.id = (c.setScene t).scene.edges.get l.id from
      h.edges l.id]
    rfl
  have hbodies : (c.setScene s).bodyCalls = (c.setScene t).bodyCalls := by
    funext b
    unfold Canvas.bodyCalls
    rw [show (c.setScene s).scene.nodes.get b.id = (c.setScene t).scene.nodes.get b.id from
      h.nodes b.id]
    rfl
  unfold Canvas.draw
  rw [hlinks, hbodies]
  rfl

end Agree

/-- Scenes that agree cannot be told apart.  Every command, also a faulty one, has the same result
in both and leaves scenes that agree, so every trace does, over whichever graphs it is followed, and
a canvas draws both by the same calls. -/
theorem default_entries_unseen {s t : Scene} (h : s.Agree t) :
    (∀ settings graph command,
      (s.step settings graph command).Agree (t.step settings graph command)) ∧
    (∀ settings steps, (s.follow settings steps).Agree (t.follow settings steps)) ∧
    ∀ c : Canvas, (c.setScene s).draw = (c.setScene t).draw :=
  ⟨h.step, h.follow, h.draw_eq⟩

/-- A node was filled and cleared before the visit of another: its entry stays, and then neither a
faulty line nor the pointer that moves on nor a picture tells of it. -/
theorem default_entries_unseen_of_cleared_node :
    let graph := Graph.ofEnds false 2 [(0, 1)]
    let short := [Command.read "visit 1"]
    let long := [Command.read "colorNode 0 red", Command.read "unhighlightNode 0",
      Command.read "visit 1"]
    let s := Scene.replay {} graph short
    let t := Scene.replay {} graph long
    s.nodes.get? "0" = none ∧ t.nodes.get? "0" = some {} ∧
      (s.step {} graph (Command.read "visit")).Agree (t.step {} graph (Command.read "visit")) ∧
      (s.step {} graph (Command.read "visit 0")).Agree (t.step {} graph (Command.read "visit 0")) ∧
      ∀ width height, ((Canvas.new graph width height).setScene s).draw =
        ((Canvas.new graph width height).setScene t).draw := by
  intro graph short long s t
  have hentry : t = s.onNode "0" fun n => n := by decide +kernel
  have h : s.Agree t := hentry ▸ s.agree_onNode_self "0"
  obtain ⟨hstep, _, hdraw⟩ := default_entries_unseen h
  have hnone : s.nodes.get? "0" = none := by decide +kernel
  have hsome : t.nodes.get? "0" = some {} := by decide +kernel
  exact ⟨hnone, hsome, hstep {} graph _, hstep {} graph _, fun width height => hdraw _⟩

end Scene

end GraphReplay
