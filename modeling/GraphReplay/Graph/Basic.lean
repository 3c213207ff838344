/-!
# Graphs

A graph is a list of node ids and a list of edge records, both in the order in which they were
made.  An undirected connection is held as two records, one for each direction, which share a pair
id; `Graph.recordIds` finds both of them from either end.
-/

namespace GraphReplay

/-- One direction of a connection between two nodes. -/
structure Edge where
  id : String
  source : String
  target : String
  weight : Float
  /-- Shared by the two records of an undirected connection. -/
  pair : Option String
deriving DecidableEq, Inhabited, BEq

structure Graph where
  nodes : List String
  edges : List Edge
  /-- Whether a connection leads one way only. -/
  directed : Bool
deriving DecidableEq, Inhabited, BEq

namespace Graph

def empty (directed : Bool) : Graph :=
  ⟨[], [], directed⟩

/-- The first record from `source` to `target`. -/
def edge? (g : Graph) (source target : String) : Option Edge :=
  g.edges.find? fun e => e.source == source && e.target == target

/-- The first other record with the pair id of `edge`; a directed graph has none. -/
def twin? (g : Graph) (edge : Edge) : Option Edge :=
  if g.directed || edge.pair.isNone then none
  else g.edges.find? fun e => e.id != edge.id && e.pair == edge.pair

/-- The ids of the records that stand for the connection from `source` to `target`: the record
itself and then its twin. -/
def recordIds (g : Graph) (source target : String) : List String :=
  match g.edge? source target with
  | none => []
  | some edge => edge.id :: (g.twin? edge).toList.map Edge.id

theorem mem_of_edge?_eq_some {g : Graph} {source target : String} {e : Edge}
    (h : g.edge? source target = some e) :
    e ∈ g.edges ∧ e.source = source ∧ e.target = target := by
  refine ⟨List.mem_of_find?_eq_some h, ?_⟩
  simpa using List.find?_some h

theorem mem_of_twin?_eq_some {g : Graph} {e twin : Edge} (h : g.twin? e = some twin) :
    twin ∈ g.edges ∧ twin.id ≠ e.id ∧ twin.pair = e.pair ∧ e.pair.isSome := by
  unfold twin? at h
  split at h
  · exact nomatch h
  · next hpaired =>
    have hfound : twin.id ≠ e.id ∧ twin.pair = e.pair := by
      simpa using List.find?_some h
    refine ⟨List.mem_of_find?_eq_some h, hfound.1, hfound.2, ?_⟩
    cases hpair : e.pair <;> simp_all

theorem recordIds_eq_nil_iff {g : Graph} {source target : String} :
    g.recordIds source target = [] ↔ g.edge? source target = none := by
  unfold recordIds
  split <;> simp_all

theorem recordIds_of_directed {g : Graph} (h : g.directed = true) (source target : String) :
    g.recordIds source target = (g.edge? source target).toList.map Edge.id := by
  unfold recordIds twin?
  rw [h]
  cases g.edge? source target <;> rfl

end Graph

end GraphReplay
