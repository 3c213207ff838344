import GraphReplay.Proofs.Graph.Simple

/-!
# Formed graphs

What is true of every graph that began empty or was read, after any edits and changes of mode: node
ids are numerals and record ids are numbered, each without repetition; records join nodes, a pair
id is made of the two ends, and no record has a weight of its own.  Couples may lose one half and
records without a pair id may come between them, so this is all that is left of `Graph.Coupled`.
-/

namespace GraphReplay

/-- The records are those that reading and connecting make between these nodes. -/
structure Edge.Formed (nodes : List String) (e : Edge) : Prop where
  number : ∃ k, e.id = edgeId k
  source : e.source ∈ nodes
  target : e.target ∈ nodes
  pair : ∀ pair, e.pair = some pair → pair = pairId e.source e.target
  weight : e.weight = 0.0

theorem Edge.Formed.mono {nodes more : List String} {e : Edge} (h : e.Formed nodes)
    (hsource : e.source ∈ more) (htarget : e.target ∈ more) : e.Formed more :=
  ⟨h.number, hsource, htarget, h.pair, h.weight⟩

namespace Graph

structure Formed (g : Graph) : Prop where
  numerals : ∀ id ∈ g.nodes, ∃ n, id = Text.numeral n
  nodup_nodes : g.nodes.Nodup
  records : ∀ e ∈ g.edges, e.Formed g.nodes
  nodup_ids : (g.edges.map Edge.id).Nodup

variable {g start : Graph} {s t text : String} {directed : Bool}

/-! ## 1. New records -/

/-- A new connection has one record with the least unused number, or one for each direction with the
two least. -/
theorem newRecords_cases (g : Graph) (s t : String) :
    ∃ j, j ∉ g.edgeNumbers ∧
      (g.newRecords s t = [⟨edgeId j, s, t, 0.0, none⟩] ∨
        ∃ k, k ∉ g.edgeNumbers ∧ k ≠ j ∧ g.newRecords s t =
          [⟨edgeId j, s, t, 0.0, some (pairId s t)⟩,
            ⟨edgeId k, t, s, 0.0, some (pairId s t)⟩]) := by
  refine ⟨leastUnused g.edgeNumbers, not_mem_leastUnused _, ?_⟩
  unfold newRecords recordEnds
  cases g.directed with
  | true => exact Or.inl rfl
  | false =>
    have hnext := not_mem_leastUnused (leastUnused g.edgeNumbers :: g.edgeNumbers)
    rw [List.mem_cons, not_or] at hnext
    exact Or.inr ⟨_, hnext.2, hnext.1, rfl⟩

theorem formed_of_mem_newRecords (hs : s ∈ g.nodes) (ht : t ∈ g.nodes) {e : Edge}
    (he : e ∈ g.newRecords s t) : e.Formed g.nodes := by
  obtain ⟨j, _, hnew | ⟨k, _, _, hnew⟩⟩ := newRecords_cases g s t
  · rw [hnew, List.mem_singleton] at he
    subst he
    exact ⟨⟨j, rfl⟩, hs, ht, nofun, rfl⟩
  · rw [hnew, List.mem_pair] at he
    rcases he with rfl | rfl
    · exact ⟨⟨j, rfl⟩, hs, ht, fun pair h => (Option.some.inj h).symm, rfl⟩
    · refine ⟨⟨k, rfl⟩, ht, hs, fun pair h => ?_, rfl⟩
      rw [← Option.some.inj h]
      exact pairId_comm s t

theorem nodup_ids_newRecords (g : Graph) (s t : String) :
    ((g.newRecords s t).map Edge.id).Nodup := by
  obtain ⟨j, _, hnew | ⟨k, _, hne, hnew⟩⟩ := newRecords_cases g s t
  · rw [hnew]
    exact List.nodup_singleton _
  · rw [hnew]
    have hids : edgeId j ≠ edgeId k := fun h => hne (edgeId_inj.mp h).symm
    exact List.nodup_cons.mpr ⟨by simpa using hids, List.nodup_singleton _⟩

theorem id_not_mem_of_mem_newRecords {e : Edge} (he : e ∈ g.newRecords s t) :
    e.id ∉ g.edges.map Edge.id := by
  have hunused : ∃ n, n ∉ g.edgeNumbers ∧ e.id = edgeId n := by
    obtain ⟨j, hj, hnew | ⟨k, hk, _, hnew⟩⟩ := newRecords_cases g s t
    · rw [hnew, List.mem_singleton] at he
      exact ⟨j, hj, he ▸ rfl⟩
    · rw [hnew, List.mem_pair] at he
      rcases he with rfl | rfl
      · exact ⟨j, hj, rfl⟩
      · exact ⟨k, hk, rfl⟩
  obtain ⟨n, hn, hid⟩ := hunused
  intro hmem
  obtain ⟨old, hold, hsame⟩ := List.mem_map.mp hmem
  apply hn
  refine List.mem_filterMap.mpr ⟨old, hold, ?_⟩
  rw [hsame, hid, edgeNumber?_edgeId]

theorem freshNode_not_mem (g : Graph) : g.freshNode ∉ g.nodes := by
  intro hmem
  apply not_mem_leastUnused (g.nodes.filterMap Text.natural?)
  exact List.mem_filterMap.mpr ⟨g.freshNode, hmem, Text.natural?_numeral _⟩

namespace Formed

/-! ## 2. Edits -/

theorem empty (directed : Bool) : Formed (Graph.empty directed) :=
  ⟨nofun, List.nodup_nil, nofun, List.nodup_nil⟩

theorem join (h : g.Formed) (hs : s ∈ g.nodes) (ht : t ∈ g.nodes) : (g.join s t).Formed where
  numerals := h.numerals
  nodup_nodes := h.nodup_nodes
  records := by
    intro e he
    rcases List.mem_append.mp he with he | he
    · exact h.records e he
    · exact formed_of_mem_newRecords hs ht he
  nodup_ids := by
    show ((g.edges ++ g.newRecords s t).map Edge.id).Nodup
    rw [List.map_append, List.nodup_append]
    refine ⟨h.nodup_ids, nodup_ids_newRecords g s t, ?_⟩
    intro old hold new hnew heq
    obtain ⟨e, he, rfl⟩ := List.mem_map.mp hnew
    exact id_not_mem_of_mem_newRecords he (heq ▸ hold)

/-- Records may go, and with them nodes that none of those that stay touches. -/
theorem filter (h : g.Formed) {p : String → Bool} {q : Edge → Bool}
    (hends : ∀ e ∈ g.edges, q e = true → p e.source = true ∧ p e.target = true) :
    Formed { g with nodes := g.nodes.filter p, edges := g.edges.filter q } where
  numerals := fun id hid => h.numerals id (List.mem_filter.mp hid).1
  nodup_nodes := h.nodup_nodes.filter p
  records := by
    intro e he
    obtain ⟨hmem, hkept⟩ := List.mem_filter.mp he
    have hformed := h.records e hmem
    obtain ⟨hsource, htarget⟩ := hends e hmem hkept
    exact hformed.mono (List.mem_filter.mpr ⟨hformed.source, hsource⟩)
      (List.mem_filter.mpr ⟨hformed.target, htarget⟩)
  nodup_ids := h.nodup_ids.sublist (List.filter_sublist.map Edge.id)

theorem edit (h : g.Formed) (edit : Edit) : (g.edit edit).Formed := by
  cases edit with
  | addNode =>
    refine ⟨?_, ?_, ?_, h.nodup_ids⟩
    · intro id hid
      rcases List.mem_append.mp hid with hid | hid
      · exact h.numerals id hid
      · exact ⟨_, List.mem_singleton.mp hid⟩
    · exact h.nodup_nodes.append (List.nodup_singleton _)
        (List.disjoint_singleton.mpr g.freshNode_not_mem)
    · intro e he
      have hformed := h.records e he
      exact hformed.mono (List.mem_append_left _ hformed.source)
        (List.mem_append_left _ hformed.target)
  | removeNode id =>
    show (g.removeNode id).1.Formed
    unfold Graph.removeNode
    split
    · exact h.filter fun e _ hkept => Bool.and_eq_true_iff.mp hkept
    · exact h
  | connect source target =>
    show (g.connect source target).1.Formed
    rcases g.connect_cases source target with hconnect | ⟨_, hs, ht, _, hconnect⟩ <;> rw [hconnect]
    · exact h
    · exact h.join hs ht
  | disconnect source target =>
    have hfilter := h.filter (p := fun _ => true)
      (q := fun e => !(g.recordIds source target).contains e.id) fun _ _ _ => ⟨rfl, rfl⟩
    rw [List.filter_true] at hfilter
    exact hfilter
  | setDirected directed => exact ⟨h.numerals, h.nodup_nodes, h.records, h.nodup_ids⟩

theorem editAll (h : g.Formed) (edits : List Edit) : (g.editAll edits).Formed :=
  editAll_of_edit (fun edit _ _ hg => hg.edit edit) h

/-! ## 3. Graphs that are read -/

theorem foldl_join (h : g.Formed) {ends : List (Nat × Nat)}
    (hends : ∀ e ∈ ends, Text.numeral e.1 ∈ g.nodes ∧ Text.numeral e.2 ∈ g.nodes) :
    (ends.foldl (fun g e => g.join (Text.numeral e.1) (Text.numeral e.2)) g).Formed := by
  induction ends generalizing g with
  | nil => exact h
  | cons e ends ih =>
    obtain ⟨hs, ht⟩ := hends e List.mem_cons_self
    -- Connecting makes no nodes, so the other ends are nodes still.
    exact ih (h.join hs ht) fun other hother => hends other (List.mem_cons_of_mem e hother)

theorem read (hread : Graph.read text directed = .ok g) : g.Formed := by
  obtain ⟨nodeCount, ends, hgives, rfl⟩ := exists_givesEnds_of_read hread
  have hnodes : Formed { Graph.empty directed with
      nodes := (List.range nodeCount).map Text.numeral } := by
    refine ⟨?_, ?_, nofun, List.nodup_nil⟩
    · intro id hid
      obtain ⟨n, _, rfl⟩ := List.mem_map.mp hid
      exact ⟨n, rfl⟩
    · exact List.nodup_range.map fun _ _ heq => Text.numeral_inj.mp heq
  apply hnodes.foldl_join
  intro e he
  obtain ⟨hfirst, hsecond⟩ := hgives.lt e he
  exact ⟨List.mem_map.mpr ⟨e.1, List.mem_range.mpr hfirst, rfl⟩,
    List.mem_map.mpr ⟨e.2, List.mem_range.mpr hsecond, rfl⟩⟩

theorem of_start (hstart : start = Graph.empty directed ∨ ∃ text, Graph.read text directed = .ok start) :
    start.Formed := by
  rcases hstart with rfl | ⟨text, hread⟩
  · exact empty directed
  · exact read hread

/-! ## 4. Records by id and by pair id -/

theorem eq_of_id_eq (h : g.Formed) {e e' : Edge} (he : e ∈ g.edges) (he' : e' ∈ g.edges)
    (hid : e.id = e'.id) : e = e' :=
  List.inj_on_of_nodup_map h.nodup_ids he he' hid

/-- Records with one pair id join the same two nodes. -/
theorem joins_of_pair_eq (h : g.Formed) {e e' : Edge} {pair : String} (he : e ∈ g.edges)
    (he' : e' ∈ g.edges) (hpair : e.pair = some pair) (hpair' : e'.pair = some pair) :
    e'.joins e.source e.target = true := by
  have hdash : ∀ id ∈ g.nodes, '-' ∉ id.toList := by
    intro id hid
    obtain ⟨n, rfl⟩ := h.numerals id hid
    exact Text.not_mem_numeral_of_not_digit (by decide) n
  have hformed := h.records e he
  have hformed' := h.records e' he'
  have hsame : pairId e'.source e'.target = pairId e.source e.target :=
    (hformed'.pair pair hpair').symm.trans (hformed.pair pair hpair)
  simp only [Edge.joins, Bool.or_eq_true, Bool.and_eq_true, beq_iff_eq]
  exact (pairId_eq_iff (hdash _ hformed'.source) (hdash _ hformed'.target)).mp hsame

end Formed

end Graph

end GraphReplay
