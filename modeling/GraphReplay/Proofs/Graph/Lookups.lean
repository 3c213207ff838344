import GraphReplay.Proofs.Graph.Formed
import GraphReplay.Proofs.Scene.Order

/-!
# Lookups and new ids

Whatever was done to a graph, what is looked up between two nodes are records of theirs, each named
once, so an instruction about one connection is nothing to another; and what is added takes the
least numbers that are not in use.  All of this comes from `Graph.Formed`, which no edit and no
change of mode can end.
-/

namespace GraphReplay

namespace Graph

variable {g : Graph} {s t : String}

/-! ## 1. Records between two nodes -/

theorem nodup_recordIds (g : Graph) (s t : String) : (g.recordIds s t).Nodup := by
  unfold recordIds
  cases g.edge? s t with
  | none => exact List.nodup_nil
  | some e =>
    show (e.id :: (g.twin? e).toList.map Edge.id).Nodup
    cases htwin : g.twin? e with
    | none => exact List.nodup_singleton _
    | some twin =>
      have hne : e.id ≠ twin.id := (mem_of_twin?_eq_some htwin).2.1.symm
      simpa using hne

namespace Formed

theorem exists_of_mem_recordIds (h : g.Formed) {id : String} (hid : id ∈ g.recordIds s t) :
    ∃ e ∈ g.edges, e.id = id ∧ e.joins s t = true := by
  unfold recordIds at hid
  cases hedge : g.edge? s t with
  | none =>
    rw [hedge] at hid
    exact absurd hid List.not_mem_nil
  | some e =>
    rw [hedge] at hid
    obtain ⟨he, rfl, rfl⟩ := mem_of_edge?_eq_some hedge
    rcases List.mem_cons.mp hid with rfl | htwin
    · exact ⟨e, he, rfl, by simp [Edge.joins]⟩
    · obtain ⟨twin, hmem, rfl⟩ := List.mem_map.mp htwin
      obtain ⟨hin, _, hsame, hpaired⟩ := mem_of_twin?_eq_some (Option.mem_toList.mp hmem)
      obtain ⟨pair, hpair⟩ := Option.isSome_iff_exists.mp hpaired
      -- The pair id tells that the twin joins the same two nodes.
      exact ⟨twin, hin, rfl, h.joins_of_pair_eq he hin hpair (hsame.trans hpair)⟩

theorem not_mem_recordIds (h : g.Formed) {e : Edge} (he : e ∈ g.edges)
    (hother : e.joins s t = false) : e.id ∉ g.recordIds s t := by
  intro hid
  obtain ⟨e', he', hsame, hjoins⟩ := h.exists_of_mem_recordIds hid
  rw [h.eq_of_id_eq he' he hsame, hother] at hjoins
  exact nomatch hjoins

/-- An instruction about a connection leaves the marks of all other records alone. -/
theorem get?_edges_perform_of_not_joins (h : g.Formed) {instruction : Instruction}
    (habout : instruction.About s t) (palette : Palette) (scene : Scene) {e : Edge}
    (he : e ∈ g.edges) (hother : e.joins s t = false) :
    (scene.perform palette g instruction).edges.get? e.id = scene.edges.get? e.id := by
  have hunreached : e.id ∉ instruction.reached g := by
    rw [habout.reached_eq]
    exact h.not_mem_recordIds he hother
  have hswept := (scene.edges_perform palette g instruction).swept e.id hunreached
  rw [hswept]
  show (scene.edges.get? e.id).map instruction.otherEdge = _
  rw [funext habout.otherEdge_eq]
  exact Option.map_id'

/-! ## 2. Least numbers -/

theorem exists_numeral_addNode (h : g.Formed) :
    ∃ k, g.addNode.2 = Text.numeral k ∧ Text.numeral k ∉ g.nodes ∧
      ∀ j < k, Text.numeral j ∈ g.nodes := by
  refine ⟨_, rfl, g.freshNode_not_mem, fun j hj => ?_⟩
  obtain ⟨id, hid, hnumber⟩ := List.mem_filterMap.mp (mem_of_lt_leastUnused hj)
  obtain ⟨n, rfl⟩ := h.numerals id hid
  rw [Text.natural?_numeral, Option.some.injEq] at hnumber
  exact hnumber ▸ hid

theorem mem_edgeNumbers_iff (h : g.Formed) (n : Nat) :
    n ∈ g.edgeNumbers ↔ edgeId n ∈ g.edges.map Edge.id := by
  rw [edgeNumbers, List.mem_filterMap, List.mem_map]
  constructor
  · rintro ⟨e, he, hnumber⟩
    obtain ⟨k, hk⟩ := (h.records e he).number
    rw [hk, edgeNumber?_edgeId, Option.some.injEq] at hnumber
    exact ⟨e, he, hnumber ▸ hk⟩
  · rintro ⟨e, he, hid⟩
    exact ⟨e, he, hid ▸ edgeNumber?_edgeId n⟩

end Formed

theorem map_id_newRecords (g : Graph) (s t : String) :
    (g.newRecords s t).map Edge.id =
      (freshNumbers (recordCount g.directed) g.edgeNumbers).map edgeId := by
  unfold newRecords recordEnds recordCount
  cases g.directed <;> rfl

theorem Formed.exists_numbers_connect (h : g.Formed) (hnew : (g.connect s t).2 ≠ []) :
    ∃ numbers : List Nat, (g.connect s t).2 = numbers.map edgeId ∧
      numbers.length = recordCount g.directed ∧ numbers.Pairwise (· < ·) ∧
      ∀ n ∈ numbers, edgeId n ∉ g.edges.map Edge.id ∧
        ∀ m < n, m ∈ numbers ∨ edgeId m ∈ g.edges.map Edge.id := by
  rcases g.connect_cases s t with hconnect | ⟨_, _, _, _, hconnect⟩
  · exact absurd (congrArg Prod.snd hconnect) hnew
  · rw [hconnect]
    refine ⟨_, g.map_id_newRecords s t, length_freshNumbers _ _, pairwise_freshNumbers _ _, ?_⟩
    intro n hn
    constructor
    · rw [← h.mem_edgeNumbers_iff]
      exact not_mem_of_mem_freshNumbers hn
    · intro m hm
      rw [← h.mem_edgeNumbers_iff]
      exact mem_or_mem_of_lt_freshNumbers hn hm

/-- A graph that began empty or was read, after whatever edits and changes of mode: no two nodes and
no two records have one id, records join nodes, and a pair id is that of the ends.  What is looked
up between two nodes are records that join them, each once, so an instruction about a connection
leaves the marks of every other one alone.  A new node takes the least number that no node has, and
a new connection the least numbers that no record has, in ascending order. -/
theorem connections_stay_apart {start : Graph} {directed : Bool}
    (hstart : start = Graph.empty directed ∨ ∃ text, read text directed = .ok start)
    (edits : List Edit) :
    let g := start.editAll edits
    g.nodes.Nodup ∧ (g.edges.map Edge.id).Nodup ∧
      (∀ e ∈ g.edges, e.source ∈ g.nodes ∧ e.target ∈ g.nodes ∧
        (e.pair = none ∨ e.pair = some (pairId e.source e.target))) ∧
      (∀ s t, (g.recordIds s t).Nodup ∧
        (∀ id ∈ g.recordIds s t, ∃ e ∈ g.edges, e.id = id ∧ e.joins s t = true) ∧
        ∀ instruction : Instruction, instruction.About s t →
          ∀ palette (scene : Scene), ∀ e ∈ g.edges, e.joins s t = false →
            (scene.perform palette g instruction).edges.get? e.id = scene.edges.get? e.id) ∧
      (∃ k, g.addNode.2 = Text.numeral k ∧ Text.numeral k ∉ g.nodes ∧
        ∀ j < k, Text.numeral j ∈ g.nodes) ∧
      ∀ s t, (g.connect s t).2 ≠ [] →
        ∃ numbers : List Nat, (g.connect s t).2 = numbers.map edgeId ∧
          numbers.length = recordCount g.directed ∧ numbers.Pairwise (· < ·) ∧
          ∀ n ∈ numbers, edgeId n ∉ g.edges.map Edge.id ∧
            ∀ m < n, m ∈ numbers ∨ edgeId m ∈ g.edges.map Edge.id := by
  intro g
  have h : g.Formed := (Formed.of_start hstart).editAll edits
  refine ⟨h.nodup_nodes, h.nodup_ids, ?_, ?_, h.exists_numeral_addNode, ?_⟩
  · intro e he
    have hformed := h.records e he
    refine ⟨hformed.source, hformed.target, ?_⟩
    cases hpair : e.pair with
    | none => exact Or.inl rfl
    | some pair => exact Or.inr (congrArg some (hformed.pair pair hpair))
  · intro s t
    refine ⟨g.nodup_recordIds s t, fun id hid => h.exists_of_mem_recordIds hid, ?_⟩
    intro instruction habout palette scene e he hother
    exact h.get?_edges_perform_of_not_joins habout palette scene he hother
  · intro s t hnew
    exact h.exists_numbers_connect hnew

/-- Changes of mode leave a half of a pair, a record without a pair id and the gap of a node behind;
the next connection takes the number in the gap and the next one after those in use. -/
theorem connections_stay_apart_of_lost_half :
    let edits : List Edit := [.setDirected true, .disconnect "0" "1", .connect "3" "1",
      .disconnect "3" "2", .removeNode "0", .setDirected false]
    ∃ start, read "4 3\n0 1\n2 1\n3 2" false = .ok start ∧
      let g := start.editAll edits
      g.edges.map (fun e => (e.id, e.ends)) =
          [("edge-2", "2", "1"), ("edge-3", "1", "2"), ("edge-5", "2", "3"), ("edge-0", "3", "1")] ∧
        g.recordIds "1" "2" = ["edge-3", "edge-2"] ∧ (g.recordIds "1" "2").Nodup ∧
        (∀ palette (scene : Scene),
          (scene.perform palette g (.colorEdge "1" "2" "red")).edges.get? "edge-5" =
            scene.edges.get? "edge-5") ∧
        g.addNode.2 = "0" ∧ (g.connect "1" "3").2 = ["edge-1", "edge-4"] ∧
        ∃ numbers : List Nat, (g.connect "1" "3").2 = numbers.map edgeId ∧ numbers.length = 2 ∧
          numbers.Pairwise (· < ·) := by
  intro edits
  have hread : read "4 3\n0 1\n2 1\n3 2" false = .ok (ofEnds false 4 [(0, 1), (2, 1), (3, 2)]) := by
    decide +kernel
  refine ⟨_, hread, ?_⟩
  intro g
  obtain ⟨_, _, _, hlookups, _, hconnect⟩ := connections_stay_apart (Or.inr ⟨_, hread⟩) edits
  obtain ⟨hnodup, _, hapart⟩ := hlookups "1" "2"
  have hnew : (g.connect "1" "3").2 = ["edge-1", "edge-4"] := by decide +kernel
  obtain ⟨numbers, hids, hlength, hascending, _⟩ := hconnect "1" "3" (hnew ▸ nofun)
  have hrecords : g.edges.map (fun e => (e.id, e.ends)) =
      [("edge-2", "2", "1"), ("edge-3", "1", "2"), ("edge-5", "2", "3"), ("edge-0", "3", "1")] := by
    decide +kernel
  have hlost : ("edge-5", "2", "3") ∈ g.edges.map fun e => (e.id, e.ends) :=
    hrecords ▸ by decide
  obtain ⟨e, he, hsame⟩ := List.mem_map.mp hlost
  obtain ⟨hid, hends⟩ := Prod.mk.inj hsame
  have hother : e.joins "1" "2" = false := by
    rw [Edge.joins, (Prod.mk.inj hends).1, (Prod.mk.inj hends).2]
    decide
  refine ⟨hrecords, by decide +kernel, hnodup, ?_, by decide +kernel, hnew, numbers, hids, hlength,
    hascending⟩
  intro palette scene
  exact hid ▸ hapart _ (.colorEdge "red") palette scene e he hother

end Graph

end GraphReplay
