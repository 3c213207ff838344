import GraphReplay.Proofs.Graph.Formed

/-!
# Taking an edit back

As long as the mode stays what it was, ending a connection at once undoes making it, and removing a
node at once undoes adding it, down to the order of the records.  That the records of a connection
are found again, all of them and no other, is due to the mode: a directed graph looks for one record
and has made one, and in an undirected graph they are a couple.
-/

namespace GraphReplay

namespace Graph

variable {g start : Graph} {s t text : String} {directed : Bool}

/-! ## 1. The mode -/

theorem directed_of_read (hread : read text directed = .ok g) : g.directed = directed := by
  obtain ⟨nodeCount, ends, _, rfl⟩ := exists_givesEnds_of_read hread
  exact directed_ofEnds directed nodeCount ends

theorem directed_edit {edit : Edit} (hmode : edit.keepsMode = true) :
    (g.edit edit).directed = g.directed := by
  cases edit with
  | addNode => rfl
  | removeNode id =>
    show (g.removeNode id).1.directed = g.directed
    unfold removeNode
    split <;> rfl
  | connect source target =>
    show (g.connect source target).1.directed = g.directed
    rcases g.connect_cases source target with hconnect | ⟨_, _, _, _, hconnect⟩ <;> rw [hconnect]
    rfl
  | disconnect source target => rfl
  | setDirected directed => exact nomatch hmode

/-- The graph has been in one mode from its beginning, so if it is undirected then its records are
in couples still. -/
structure OneMode (g : Graph) : Prop where
  formed : g.Formed
  coupled : g.directed = false → ∃ couples, Coupled g couples

namespace OneMode

theorem of_start
    (hstart : start = Graph.empty directed ∨ ∃ text, Graph.read text directed = .ok start) :
    start.OneMode where
  formed := Formed.of_start hstart
  coupled := by
    intro hundirected
    rcases hstart with rfl | ⟨text, hread⟩
    · cases directed with
      | true => exact nomatch hundirected
      | false => exact ⟨[], Coupled.empty⟩
    · rw [directed_of_read hread] at hundirected
      subst hundirected
      exact Coupled.read hread

theorem edit (h : g.OneMode) {edit : Edit} (hmode : edit.keepsMode = true) :
    (g.edit edit).OneMode where
  formed := h.formed.edit edit
  coupled := by
    intro hundirected
    rw [directed_edit hmode] at hundirected
    obtain ⟨couples, hcouples⟩ := h.coupled hundirected
    exact hcouples.edit hmode

theorem editAll (h : g.OneMode) {edits : List Edit}
    (hmode : ∀ edit ∈ edits, edit.keepsMode = true) : (g.editAll edits).OneMode :=
  editAll_of_edit (fun edit hedit _ hg => hg.edit (hmode edit hedit)) h

end OneMode

/-! ## 2. Connections -/

theorem newRecords_ne_nil (g : Graph) (s t : String) : g.newRecords s t ≠ [] := by
  obtain ⟨j, _, hnew | ⟨k, _, _, hnew⟩⟩ := newRecords_cases g s t <;> rw [hnew] <;>
    exact List.cons_ne_nil _ _

theorem recordIds_join_of_directed (hdirected : g.directed = true) (hnone : g.edge? s t = none) :
    (g.join s t).recordIds s t = (g.newRecords s t).map Edge.id := by
  have hjoined : (g.join s t).directed = true := hdirected
  have hnew : g.newRecords s t = [⟨edgeId (leastUnused g.edgeNumbers), s, t, 0.0, none⟩] := by
    unfold newRecords recordEnds
    rw [hdirected]
    rfl
  have hfound : (g.join s t).edge? s t = (g.newRecords s t).head? := by
    unfold edge? at hnone ⊢
    rw [join, List.find?_append, hnone, hnew]
    simp
  rw [recordIds_of_directed hjoined, hfound, hnew]
  rfl

theorem Coupled.recordIds_join {couples : List Couple} (h : Coupled g couples) (hs : s ∈ g.nodes)
    (ht : t ∈ g.nodes) (hnone : g.edge? s t = none) :
    (g.join s t).recordIds s t = (g.newRecords s t).map Edge.id := by
  obtain ⟨k, hnew, hjoin⟩ := h.join hs ht
  have hold : couples.find? (·.joins s t) = none := by
    rw [h.edge?_eq, Option.map_eq_none_iff] at hnone
    exact hnone
  have hjoins : (Couple.mk k s t).joins s t = true := Couple.joins_iff.mpr (Or.inl ⟨rfl, rfl⟩)
  -- No couple joined the two nodes before, so the new one is the first that does.
  have hfirst : (couples ++ [Couple.mk k s t]).find? (·.joins s t) = some ⟨k, s, t⟩ := by
    rw [List.find?_append, hold, List.find?_singleton, if_pos hjoins]
    rfl
  rw [hjoin.recordIds_eq, hfirst, hnew]
  simp [Couple.leaving, Couple.entering, Couple.records]

theorem OneMode.recordIds_join (h : g.OneMode) (hs : s ∈ g.nodes) (ht : t ∈ g.nodes)
    (hnone : g.edge? s t = none) :
    (g.join s t).recordIds s t = (g.newRecords s t).map Edge.id := by
  cases hmode : g.directed with
  | true => exact recordIds_join_of_directed hmode hnone
  | false =>
    obtain ⟨couples, hcouples⟩ := h.coupled hmode
    exact hcouples.recordIds_join hs ht hnone

/-- If the records of a new connection are what is found between its ends, then to end it is to take
them away again. -/
theorem disconnect_join
    (hfound : (g.join s t).recordIds s t = (g.newRecords s t).map Edge.id) :
    (g.join s t).disconnect s t = (g, (g.newRecords s t).map Edge.id) := by
  have hold : g.edges.filter (fun e => !((g.newRecords s t).map Edge.id).contains e.id) =
      g.edges := by
    rw [List.filter_eq_self]
    intro e he
    rw [Bool.not_eq_true', List.contains_eq_mem, decide_eq_false_iff_not]
    intro hmem
    obtain ⟨new, hnew, hsame⟩ := List.mem_map.mp hmem
    exact id_not_mem_of_mem_newRecords hnew (hsame ▸ List.mem_map_of_mem he)
  have hnew : (g.newRecords s t).filter
      (fun e => !((g.newRecords s t).map Edge.id).contains e.id) = [] := by
    rw [List.filter_eq_nil_iff]
    intro e he
    simpa using ⟨e, he, rfl⟩
  unfold disconnect
  rw [hfound]
  simp only [join, List.filter_append, hold, hnew, List.append_nil]

/-! ## 3. Nodes -/

theorem Formed.removeNode_addNode (h : g.Formed) :
    g.addNode.1.removeNode g.addNode.2 = (g, true) := by
  have hother : ∀ id ∈ g.nodes, (id != g.freshNode) = true := by
    intro id hid
    exact bne_iff_ne.mpr fun heq => g.freshNode_not_mem (heq ▸ hid)
  have hnodes : (g.nodes ++ [g.freshNode]).filter (· != g.freshNode) = g.nodes := by
    rw [List.filter_append, List.filter_eq_self.mpr hother]
    simp
  have hedges : g.edges.filter
      (fun e => e.source != g.freshNode && e.target != g.freshNode) = g.edges := by
    rw [List.filter_eq_self]
    intro e he
    have hformed := h.records e he
    rw [hother _ hformed.source, hother _ hformed.target]
    rfl
  unfold addNode removeNode
  rw [if_pos (List.mem_append_right _ (List.mem_singleton_self _))]
  simp only [hnodes, hedges]

/-- A graph of either mode that began empty or was read, and was edited in this mode: a new
connection is found again as the ids that it was given, and to end it gives them back and leaves the
graph as it was before; an edit of a connection that names no record has changed nothing; and a
new node can be removed without a trace. -/
theorem edits_can_be_undone
    (hstart : start = Graph.empty directed ∨ ∃ text, read text directed = .ok start)
    {edits : List Edit} (hmode : ∀ edit ∈ edits, edit.keepsMode = true) :
    let g := start.editAll edits
    (∀ s t,
      ((g.connect s t).2 ≠ [] →
        (g.connect s t).1.recordIds s t = (g.connect s t).2 ∧
          (g.connect s t).1.disconnect s t = (g, (g.connect s t).2)) ∧
      ((g.connect s t).2 = [] → (g.connect s t).1 = g) ∧
      ((g.disconnect s t).2 = [] → (g.disconnect s t).1 = g)) ∧
    g.addNode.1.removeNode g.addNode.2 = (g, true) := by
  intro g
  have h : g.OneMode := (OneMode.of_start hstart).editAll hmode
  refine ⟨fun s t => ⟨?_, ?_, ?_⟩, h.formed.removeNode_addNode⟩
  · intro hnew
    rcases g.connect_cases s t with hconnect | ⟨_, hs, ht, hnone, hconnect⟩
    · exact absurd (congrArg Prod.snd hconnect) hnew
    · rw [hconnect]
      have hfound := h.recordIds_join hs ht hnone
      exact ⟨hfound, disconnect_join hfound⟩
  · intro hnone
    rcases g.connect_cases s t with hconnect | ⟨_, _, _, _, hconnect⟩
    · rw [hconnect]
    · rw [hconnect, List.map_eq_nil_iff] at hnone
      exact absurd hnone (g.newRecords_ne_nil s t)
  · intro hnone
    rw [disconnect_of_recordIds_eq_nil hnone]

/-- A new connection fills the gap that another one left, a line of the text cannot be connected
again, and a new node fills the gap between the nodes. -/
theorem edits_can_be_undone_of_gaps :
    let edits : List Edit := [.addNode, .disconnect "1" "0", .removeNode "3"]
    ∃ start, read "4 3\n0 1\n2 1\n3 2" false = .ok start ∧
      (∀ edit ∈ edits, edit.keepsMode = true) ∧
      let g := start.editAll edits
      g.nodes = ["0", "1", "2", "4"] ∧ g.edges.map Edge.id = ["edge-2", "edge-3"] ∧
        (g.connect "4" "0").2 = ["edge-0", "edge-1"] ∧
        (g.connect "4" "0").1.recordIds "4" "0" = ["edge-0", "edge-1"] ∧
        (g.connect "4" "0").1.disconnect "4" "0" = (g, ["edge-0", "edge-1"]) ∧
        (g.connect "1" "2").1 = g ∧ (g.disconnect "0" "1").1 = g ∧
        g.addNode.2 = "3" ∧ g.addNode.1.removeNode "3" = (g, true) := by
  intro edits
  have hread : read "4 3\n0 1\n2 1\n3 2" false = .ok (ofEnds false 4 [(0, 1), (2, 1), (3, 2)]) := by
    decide +kernel
  have hmode : ∀ edit ∈ edits, edit.keepsMode = true := by decide
  refine ⟨_, hread, hmode, ?_⟩
  intro g
  obtain ⟨hconnections, hnode⟩ := edits_can_be_undone (Or.inr ⟨_, hread⟩) hmode
  have hnew : (g.connect "4" "0").2 = ["edge-0", "edge-1"] := by decide +kernel
  obtain ⟨hfound, hundone⟩ := (hconnections "4" "0").1 (hnew ▸ nofun)
  have hadded : g.addNode.2 = "3" := by decide +kernel
  exact ⟨by decide +kernel, by decide +kernel, hnew, hnew ▸ hfound, hnew ▸ hundone,
    (hconnections "1" "2").2.1 (by decide +kernel), (hconnections "0" "1").2.2 (by decide +kernel),
    hadded, hadded ▸ hnode⟩

end Graph

end GraphReplay
