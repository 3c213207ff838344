import GraphReplay.Graph.Format

/-!
# Graphs that are read

What is known of a graph when a text gave one: the ends of its connections were read from lines
after the header, and all of them are nodes.
-/

namespace GraphReplay

namespace Graph

theorem lt_of_mem_readEnds {nodeCount expected found : Nat} {lines : List String}
    {ends : List (Nat × Nat)} (hread : readEnds nodeCount expected found lines = .ok ends) :
    ∀ e ∈ ends, e.1 < nodeCount ∧ e.2 < nodeCount := by
  fun_induction readEnds nodeCount expected found lines generalizing ends
  case case1 | case3 | case4 | case5 | case6 => exact nomatch hread
  case case2 | case8 =>
    cases hread
    exact nofun
  case case7 found line lines _ source target _ hsource htarget rest hrest ih =>
    cases hread
    intro e he
    rcases List.mem_cons.mp he with rfl | he
    · exact ⟨Nat.lt_of_not_le hsource, Nat.lt_of_not_le htarget⟩
    · exact ih hrest e he

theorem exists_ends_of_read_eq_ok {text : String} {directed : Bool} {g : Graph}
    (hread : Graph.read text directed = .ok g) :
    ∃ nodeCount edgeCount lines ends,
      readEnds nodeCount edgeCount 0 lines = .ok ends ∧ g = ofEnds directed nodeCount ends := by
  revert hread
  fun_cases Graph.read text directed
  case case1 | case2 | case3 | case4 => exact nofun
  case case5 header lines _ nodeCount edgeCount _ ends hends =>
    intro hread
    injection hread with hgraph
    exact ⟨nodeCount, edgeCount, lines, ends, hends, hgraph.symm⟩

end Graph

end GraphReplay
