import Mathlib.Data.List.Find
import GraphReplay.Proofs.Graph.Couples

/-!
# Edited graphs

What a list of edits leaves of a graph.  An undirected graph that keeps its mode stays made of
couples, so a connection can be found from both ends or from none, and each end leads to the other;
to make or to end one connection is nothing to the others (`both_ends_agree`).
-/

namespace GraphReplay

namespace Graph

def Edit.keepsMode : Edit → Bool
  | .setDirected _ => false
  | _ => true

/-- The graph after these edits, in order. -/
def editAll (g : Graph) (edits : List Edit) : Graph :=
  edits.foldl edit g

/-- What each of the edits keeps is kept by all of them. -/
theorem editAll_of_edit {P : Graph → Prop} {edits : List Edit}
    (hedit : ∀ edit ∈ edits, ∀ g, P g → P (g.edit edit)) {g : Graph} (h : P g) :
    P (g.editAll edits) := by
  induction edits generalizing g with
  | nil => exact h
  | cons edit edits ih =>
    exact ih (fun other hother => hedit other (List.mem_cons_of_mem edit hother))
      (hedit edit List.mem_cons_self g h)

namespace Coupled

variable {g g' : Graph} {couples couples' : List Couple} {s t u v : String}

/-! ## 1. Runs of edits -/

theorem edit (h : Coupled g couples) {edit : Edit} (hmode : edit.keepsMode = true) :
    ∃ left, Coupled (g.edit edit) left := by
  cases edit with
  | addNode => exact ⟨couples, h.addNode⟩
  | removeNode id => exact h.removeNode id
  | connect source target => exact h.connect source target
  | disconnect source target => exact h.disconnect source target
  | setDirected directed => exact nomatch hmode

theorem editAll (h : Coupled g couples) {edits : List Edit}
    (hmode : ∀ edit ∈ edits, edit.keepsMode = true) : ∃ left, Coupled (g.editAll edits) left := by
  apply editAll_of_edit (P := fun g => ∃ left, Coupled g left)
  · rintro edit hedit g ⟨left, hleft⟩
    exact hleft.edit (hmode edit hedit)
  · exact ⟨couples, h⟩

/-! ## 2. From one end and from the other -/

theorem edge?_bind_twin? (h : Coupled g couples) (hne : s ≠ t) :
    (g.edge? s t).bind g.twin? = g.edge? t s := by
  rw [h.edge?_eq, h.edge?_eq]
  simp only [Couple.joins_comm _ t s]
  cases hfind : couples.find? (·.joins s t) with
  | none => rfl
  | some c =>
    have hjoins : c.joins s t = true := Couple.joins_of_find? hfind
    show g.twin? (c.leaving s) = some (c.leaving t)
    rw [h.twin?_leaving hfind, Couple.entering_eq_leaving hne hjoins]

theorem recordIds_reverse (h : Coupled g couples) (hne : s ≠ t) :
    g.recordIds t s = (g.recordIds s t).reverse := by
  rw [h.recordIds_eq, h.recordIds_eq]
  simp only [Couple.joins_comm _ t s]
  cases hfind : couples.find? (·.joins s t) with
  | none => rfl
  | some c =>
    have hjoins : c.joins s t = true := Couple.joins_of_find? hfind
    have hback : c.joins t s = true := c.joins_comm s t ▸ hjoins
    show [(c.leaving t).id, (c.entering t).id] = [(c.entering s).id, (c.leaving s).id]
    rw [Couple.entering_eq_leaving hne hjoins, Couple.entering_eq_leaving hne.symm hback]

theorem length_recordIds (h : Coupled g couples) (s t : String) :
    (g.recordIds s t).length = 0 ∨ (g.recordIds s t).length = 2 := by
  rw [h.recordIds_eq]
  cases couples.find? (·.joins s t) with
  | none => exact Or.inl rfl
  | some c => exact Or.inr rfl

/-! ## 3. Other connections -/

/-- Of the couples only the first one that joins two nodes counts for what is found between them. -/
theorem lookups_eq (h : Coupled g couples) (h' : Coupled g' couples')
    (hfirst : couples'.find? (·.joins u v) = couples.find? (·.joins u v)) :
    g'.edge? u v = g.edge? u v ∧ g'.recordIds u v = g.recordIds u v := by
  constructor
  · rw [h.edge?_eq, h'.edge?_eq, hfirst]
  · rw [h.recordIds_eq, h'.recordIds_eq, hfirst]

theorem lookups_connect (h : Coupled g couples) (hother : ¬(u = s ∧ v = t))
    (hback : ¬(u = t ∧ v = s)) :
    (g.connect s t).1.edge? u v = g.edge? u v ∧
      (g.connect s t).1.recordIds u v = g.recordIds u v := by
  rcases g.connect_cases s t with hconnect | ⟨_, hs, ht, _, hconnect⟩
  · rw [hconnect]
    exact ⟨rfl, rfl⟩
  · rw [hconnect]
    obtain ⟨k, _, hjoin⟩ := h.join hs ht
    apply h.lookups_eq hjoin
    -- The new couple is the last one, and it does not join `u` and `v`.
    have hnew : (Couple.mk k s t).joins u v = false := by
      rw [Bool.eq_false_iff, ne_eq, Couple.joins_iff]
      rintro (⟨hs, ht⟩ | ⟨hs, ht⟩)
      · exact hother ⟨hs.symm, ht.symm⟩
      · exact hback ⟨ht.symm, hs.symm⟩
    rw [List.find?_append, List.find?_singleton, hnew]
    exact Option.or_none

theorem lookups_disconnect (h : Coupled g couples) (hother : ¬(u = s ∧ v = t))
    (hback : ¬(u = t ∧ v = s)) :
    (g.disconnect s t).1.edge? u v = g.edge? u v ∧
      (g.disconnect s t).1.recordIds u v = g.recordIds u v := by
  cases hfind : couples.find? (·.joins s t) with
  | none =>
    rw [h.disconnect_of_find?_eq_none hfind]
    exact ⟨rfl, rfl⟩
  | some c =>
    apply h.lookups_eq (h.disconnect_of_find?_eq_some hfind)
    have hjoins : c.joins s t = true := Couple.joins_of_find? hfind
    have hnot : c.joins u v = false := by
      rw [Bool.eq_false_iff, ne_eq, Couple.joins_iff]
      rw [Couple.joins_iff] at hjoins
      rintro (⟨rfl, rfl⟩ | ⟨rfl, rfl⟩)
      · exact hjoins.elim hother fun hswap => hback hswap
      · exact hjoins.elim (fun hsame => hback hsame.symm) fun hswap => hother hswap.symm
    rw [List.find?_filter]
    apply List.find?_congr
    intro d hd
    -- The couple that goes would not have been found here.
    by_cases hnumber : d.number = c.number
    · rw [h.eq_of_number_eq hd (List.mem_of_find?_eq_some hfind) hnumber, hnot]
      simp
    · simp [hnumber]

end Coupled

/-- In an undirected graph that was read or began empty, and was edited in this mode, a connection
can be found from both ends or from none, the twin of the record one way is the record the other
way, and a change of one connection leaves the others as they were. -/
theorem both_ends_agree {start : Graph}
    (hstart : start = Graph.empty false ∨ ∃ text, read text false = .ok start) {edits : List Edit}
    (hmode : ∀ edit ∈ edits, edit.keepsMode = true) :
    let g := start.editAll edits
    (∀ s t, s ≠ t →
      ((g.edge? s t).isSome ↔ (g.edge? t s).isSome) ∧
        (g.edge? s t).bind g.twin? = g.edge? t s ∧
        g.recordIds t s = (g.recordIds s t).reverse ∧
        ((g.recordIds s t).length = 0 ∨ (g.recordIds s t).length = 2)) ∧
      ∀ s t u v, ¬(u = s ∧ v = t) → ¬(u = t ∧ v = s) →
        ((g.connect s t).1.edge? u v = g.edge? u v ∧
          (g.connect s t).1.recordIds u v = g.recordIds u v) ∧
        ((g.disconnect s t).1.edge? u v = g.edge? u v ∧
          (g.disconnect s t).1.recordIds u v = g.recordIds u v) := by
  intro g
  have hcoupled : ∃ couples, Coupled start couples := by
    rcases hstart with rfl | ⟨text, hread⟩
    · exact ⟨[], Coupled.empty⟩
    · exact Coupled.read hread
  obtain ⟨couples, hcouples⟩ := hcoupled
  obtain ⟨left, h⟩ := hcouples.editAll hmode
  constructor
  · intro s t hne
    exact ⟨h.edge?_isSome_comm s t, h.edge?_bind_twin? hne, h.recordIds_reverse hne,
      h.length_recordIds s t⟩
  · intro s t u v hother hback
    exact ⟨h.lookups_connect hother hback, h.lookups_disconnect hother hback⟩

/-- Three lines join the same nodes, one of them the other way round, and a loop stands between. -/
theorem both_ends_agree_of_repeated_lines :
    let text := "3 5\n0 1\n1 0\n2 2\n0 1\n1 2"
    let edits : List Edit := [.disconnect "0" "1", .connect "2" "0", .removeNode "7", .addNode]
    ∃ start, read text false = .ok start ∧ (∀ edit ∈ edits, edit.keepsMode = true) ∧
      (start.editAll edits).recordIds "0" "1" = ["edge-3", "edge-2"] ∧
      (start.editAll edits).recordIds "1" "0" = ["edge-2", "edge-3"] ∧
      ((start.editAll edits).disconnect "0" "2").1.recordIds "0" "1" = ["edge-3", "edge-2"] := by
  intro text edits
  have hmode : ∀ edit ∈ edits, edit.keepsMode = true := by decide
  have hread : read text false = .ok (ofEnds false 3 [(0, 1), (1, 0), (2, 2), (0, 1), (1, 2)]) := by
    decide +kernel
  have hthere : ((ofEnds false 3 [(0, 1), (1, 0), (2, 2), (0, 1), (1, 2)]).editAll edits).recordIds
      "0" "1" = ["edge-3", "edge-2"] := by decide +kernel
  have hagree := both_ends_agree (Or.inr ⟨text, hread⟩) hmode
  refine ⟨_, hread, hmode, hthere, ?_, ?_⟩
  · rw [(hagree.1 "0" "1" (by decide)).2.2.1, hthere]
    rfl
  · rw [(hagree.2 "0" "2" "0" "1" (by decide) (by decide)).2.2, hthere]

end Graph

end GraphReplay
