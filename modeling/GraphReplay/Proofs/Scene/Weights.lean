import GraphReplay.Proofs.Playback.Run

/-!
# Finite weights

A trace may say `inf` or `nan`, but the weights that it sets are finite: what is read is zero then.
So every weight that a scene of a player shows is a finite number.
-/

namespace GraphReplay

/-! ## 1. Marks with a property -/

namespace Marks

variable {α β : Type} {P : α → Prop} {Q : β → Prop} {m : Marks α}

def All (P : α → Prop) (m : Marks α) : Prop :=
  ∀ e ∈ m.entries, P e.2

theorem mem_of_find?_eq_some {id : String} {a : α} {l : List (String × α)}
    (h : find? id l = some a) : (id, a) ∈ l := by
  induction l with
  | nil => exact nomatch h
  | cons e l ih =>
    rw [find?] at h
    split at h
    · next hid =>
      cases h
      exact hid ▸ List.mem_cons_self
    · exact List.mem_cons_of_mem e (ih h)

namespace All

theorem empty : (∅ : Marks α).All P :=
  nofun

theorem put (h : m.All P) (id : String) {a : α} (ha : P a) : (m.put id a).All P := by
  intro e he
  rcases mem_insertEntry he with rfl | he
  · exact ha
  · exact h e he

theorem map (h : m.All P) {f : α → β} (hf : ∀ a, P a → Q (f a)) : (m.map f).All Q := by
  intro e he
  obtain ⟨old, hold, rfl⟩ := List.mem_map.mp he
  exact hf old.2 (h old hold)

variable [Inhabited α]

theorem get (h : m.All P) (hdefault : P default) (id : String) : P (m.get id) := by
  unfold Marks.get Marks.get?
  cases hfind : find? id m.entries with
  | none => exact hdefault
  | some a => exact h _ (mem_of_find?_eq_some hfind)

theorem update (h : m.All P) (hdefault : P default) {f : α → α} (hf : ∀ a, P a → P (f a))
    (id : String) : (m.update id f).All P :=
  h.put id (hf _ (h.get hdefault id))

end All

end Marks

/-! ## 2. Traces -/

namespace Decimal

theorem isFinite_readLeading (s : String) : (readLeading s).isFinite = true := by
  have hzero : (0.0 : Float).isFinite = true := by decide +kernel
  unfold readLeading
  split
  · split
    · assumption
    · exact hzero
  · exact hzero

end Decimal

def Instruction.FiniteWeight : Instruction → Prop
  | .setEdgeWeight _ _ weight => weight.isFinite = true
  | _ => True

def Command.FiniteWeight (command : Command) : Prop :=
  ∀ instruction, command.action = .ok instruction → instruction.FiniteWeight

theorem Verb.finiteWeight_instruction? {verb : Verb} {args : List String}
    {instruction : Instruction} (h : verb.instruction? args = some instruction) :
    instruction.FiniteWeight := by
  revert h
  fun_cases Verb.instruction? verb args <;> intro h <;> cases h
  case case12 => exact Decimal.isFinite_readLeading _
  all_goals trivial

theorem Command.finiteWeight_read (line : String) : (Command.read line).FiniteWeight := by
  have hdecode : ∀ name args raw instruction, decode name args raw = .ok instruction →
      instruction.FiniteWeight := by
    intro name args raw instruction h
    unfold decode at h
    split at h
    · exact nomatch h
    · split at h
      · exact nomatch h
      · next hverb =>
        cases h
        exact Verb.finiteWeight_instruction? hverb
  intro instruction h
  unfold read at h
  dsimp only at h
  split at h
  · exact hdecode "" [] _ instruction h
  · next name args _ => exact hdecode name args _ instruction h

theorem finiteWeight_of_mem_readTrace {text : String} {command : Command}
    (h : command ∈ readTrace text) : command.FiniteWeight := by
  obtain ⟨line, _, rfl⟩ := List.mem_map.mp h
  exact Command.finiteWeight_read line

/-! ## 3. Scenes -/

def EdgeMarks.FiniteWeight (marks : EdgeMarks) : Prop :=
  ∀ weight, marks.weight = some weight → weight.isFinite = true

theorem EdgeMarks.finiteWeight_default : (default : EdgeMarks).FiniteWeight :=
  fun _ h => nomatch h

namespace Scene

/-- Every weight that stands in the place of that of a record is a finite number. -/
def FiniteWeights (s : Scene) : Prop :=
  s.edges.All EdgeMarks.FiniteWeight

namespace FiniteWeights

variable {s : Scene}

theorem onEdges (h : s.FiniteWeights) {f : EdgeMarks → EdgeMarks}
    (hf : ∀ marks, marks.FiniteWeight → (f marks).FiniteWeight) (ids : List String) :
    (s.onEdges ids f).FiniteWeights :=
  List.foldlRecOn (motive := Marks.All EdgeMarks.FiniteWeight) ids _ h
    fun _ hedges id _ => hedges.update EdgeMarks.finiteWeight_default hf id

theorem perform (h : s.FiniteWeights) (palette : Palette) (graph : Graph)
    {instruction : Instruction} (hfinite : instruction.FiniteWeight) :
    (s.perform palette graph instruction).FiniteWeights := by
  cases instruction with
  | colorEdge source target color =>
    apply h.onEdges
    exact fun _ hmarks => hmarks
  | highlightEdge source target =>
    apply h.onEdges
    exact fun _ hmarks => hmarks
  | unhighlightEdge source target =>
    apply h.onEdges
    exact fun _ hmarks => hmarks
  | setEdgeWeight source target weight =>
    apply h.onEdges
    intro marks _ shown hshown
    cases hshown
    exact hfinite
  | clearHighlights => exact h.map fun _ hmarks => hmarks
  | _ => exact h

theorem step (h : s.FiniteWeights) (settings : Settings) (graph : Graph) {command : Command}
    (hfinite : command.FiniteWeight) : (s.step settings graph command).scene.FiniteWeights := by
  unfold Scene.step
  cases haction : command.action with
  | ok instruction => exact h.perform settings.palette graph (hfinite instruction haction)
  | error fault => exact h

theorem replay (settings : Settings) (graph : Graph) {commands : List Command}
    (hfinite : ∀ command ∈ commands, command.FiniteWeight) :
    (Scene.replay settings graph commands).FiniteWeights :=
  List.foldlRecOn (motive := FiniteWeights) commands _ Marks.All.empty
    fun _ hs command hmem => hs.step settings graph (hfinite command hmem)

end FiniteWeights

end Scene

/-! ## 4. Players -/

namespace Player

structure FiniteWeights (p : Player) : Prop where
  commands : ∀ command ∈ p.commands, command.FiniteWeight
  scene : p.scene.FiniteWeights

variable {p q : Player}

theorem finiteWeights_new (settings : Settings) : (new settings).FiniteWeights :=
  ⟨nofun, Marks.All.empty⟩

theorem FiniteWeights.change (h : p.FiniteWeights) {op : Operation} (hchange : Change p op q) :
    q.FiniteWeights := by
  have hempty : Scene.empty.FiniteWeights := Marks.All.empty
  cases hchange with
  | advanced op hcommand haction =>
    have hfinite := h.commands _ (List.mem_of_getElem? hcommand) _ haction
    exact ⟨h.commands, h.scene.perform _ _ hfinite⟩
  | aborted op _ _ => exact ⟨nofun, hempty⟩
  | steppedBack hpos =>
    exact ⟨h.commands, Scene.FiniteWeights.replay _ _ fun command hmem =>
      h.commands command (List.mem_of_mem_take hmem)⟩
  | startedOver op _ _ => exact ⟨h.commands, hempty⟩
  | traceLoaded text => exact ⟨fun _ => finiteWeight_of_mem_readTrace, hempty⟩
  | wasReset => exact ⟨h.commands, hempty⟩
  | cleared => exact ⟨nofun, hempty⟩
  | _ => exact ⟨h.commands, h.scene⟩

end Player

end GraphReplay
