import GraphReplay.Graph.Basic
import GraphReplay.Text.Numeral

/-!
# Editing a graph

Nodes and connections are added and removed by id.  New ids are numbered: a node takes the least
number that is not the id of a node, a record the least number that is not in use by a record.
`not_mem_leastUnused` and `mem_of_lt_leastUnused` say that this number is free and that those below
it are not.
-/

namespace GraphReplay

/-! ## 1. Fresh numbers -/

/-- The least number from `k` on that is not in `used`; among `fuel + 1` candidates. -/
def leastUnusedFrom (used : List Nat) (k : Nat) : Nat → Nat
  | 0 => k
  | fuel + 1 => if k ∈ used then leastUnusedFrom (used.erase k) (k + 1) fuel else k

def leastUnused (used : List Nat) : Nat :=
  leastUnusedFrom used 0 used.length

theorem le_leastUnusedFrom (used : List Nat) (k fuel : Nat) : k ≤ leastUnusedFrom used k fuel := by
  induction fuel generalizing used k with
  | zero => exact Nat.le_refl k
  | succ fuel ih =>
    simp only [leastUnusedFrom]
    split
    · exact Nat.le_of_succ_le (ih (used.erase k) (k + 1))
    · exact Nat.le_refl k

theorem mem_of_lt_leastUnusedFrom {used : List Nat} {k fuel n : Nat} (hk : k ≤ n)
    (hn : n < leastUnusedFrom used k fuel) : n ∈ used := by
  induction fuel generalizing used k with
  | zero => simp only [leastUnusedFrom] at hn; omega
  | succ fuel ih =>
    simp only [leastUnusedFrom] at hn
    split at hn
    · next hmem =>
      by_cases h : n = k
      · exact h ▸ hmem
      · exact List.mem_of_mem_erase (ih (by omega) hn)
    · omega

theorem mem_of_lt_leastUnused {used : List Nat} {n : Nat} (hn : n < leastUnused used) :
    n ∈ used :=
  mem_of_lt_leastUnusedFrom (Nat.zero_le n) hn

theorem leastUnusedFrom_not_mem {used : List Nat} {k fuel : Nat} (h : used.length ≤ fuel) :
    leastUnusedFrom used k fuel ∉ used := by
  induction fuel generalizing used k with
  | zero => simp [List.length_eq_zero_iff.1 (Nat.le_zero.1 h)]
  | succ fuel ih =>
    simp only [leastUnusedFrom]
    split
    · next hmem =>
      have hlen : (used.erase k).length ≤ fuel := by
        rw [List.length_erase_of_mem hmem]
        omega
      -- Taking `k` away hides no greater number.
      have hne : leastUnusedFrom (used.erase k) (k + 1) fuel ≠ k :=
        Nat.ne_of_gt (le_leastUnusedFrom (used.erase k) (k + 1) fuel)
      exact fun hn => ih hlen ((List.mem_erase_of_ne hne).2 hn)
    · assumption

theorem not_mem_leastUnused (used : List Nat) : leastUnused used ∉ used :=
  leastUnusedFrom_not_mem (Nat.le_refl _)

/-- The `count` least numbers that are not in `used`, ascending. -/
def freshNumbers : Nat → List Nat → List Nat
  | 0, _ => []
  | count + 1, used => leastUnused used :: freshNumbers count (leastUnused used :: used)

/-! ## 2. Records -/

/-- The number that the id of a record holds, if it is `edge-` and a number. -/
def edgeNumber? (id : String) : Option Nat :=
  match id.toList with
  | 'e' :: 'd' :: 'g' :: 'e' :: '-' :: digits => Text.natural? (String.ofList digits)
  | _ => none

def edgeId (k : Nat) : String :=
  "edge-" ++ Text.numeral k

/-- The pair id of a connection: the ids of its ends in order, whichever comes first. -/
def pairId (a b : String) : String :=
  if a ≤ b then a ++ "-" ++ b else b ++ "-" ++ a

namespace Graph

def edgeNumbers (g : Graph) : List Nat :=
  g.edges.filterMap fun e => edgeNumber? e.id

/-- The ends and the pair id of the records that a new connection takes. -/
def recordEnds (g : Graph) (source target : String) : List (String × String) × Option String :=
  if g.directed then ([(source, target)], none)
  else ([(source, target), (target, source)], some (pairId source target))

def newRecords (g : Graph) (source target : String) : List Edge :=
  let (ends, pair) := g.recordEnds source target
  List.zipWith (fun k ends => ⟨edgeId k, ends.1, ends.2, 0.0, pair⟩)
    (freshNumbers ends.length g.edgeNumbers) ends

/-- The graph with a new connection, made without asking whether there is one already. -/
def join (g : Graph) (source target : String) : Graph :=
  { g with edges := g.edges ++ g.newRecords source target }

/-! ## 3. Edits -/

def freshNode (g : Graph) : String :=
  Text.numeral (leastUnused (g.nodes.filterMap Text.natural?))

/-- The graph with one node more, and its id. -/
def addNode (g : Graph) : Graph × String :=
  ({ g with nodes := g.nodes ++ [g.freshNode] }, g.freshNode)

/-- The graph without a node and the records that touch it, and whether there was such a node. -/
def removeNode (g : Graph) (id : String) : Graph × Bool :=
  if id ∈ g.nodes then
    ({ g with
        nodes := g.nodes.filter (· != id)
        edges := g.edges.filter fun e => e.source != id && e.target != id }, true)
  else (g, false)

/-- Whether `connect` makes a connection: between two different nodes that have none so far. -/
def canConnect (g : Graph) (source target : String) : Bool :=
  source != target && g.nodes.contains source && g.nodes.contains target &&
    (g.edge? source target).isNone

/-- The graph with a connection between two nodes, and the ids of its records if it is new. -/
def connect (g : Graph) (source target : String) : Graph × List String :=
  if g.canConnect source target then
    (g.join source target, (g.newRecords source target).map Edge.id)
  else (g, [])

/-- The graph without the records that stand for a connection, and their ids. -/
def disconnect (g : Graph) (source target : String) : Graph × List String :=
  let ids := g.recordIds source target
  ({ g with edges := g.edges.filter fun e => !ids.contains e.id }, ids)

/-- The graph with its connections read one way or both ways; the records stay as they are. -/
def setDirected (g : Graph) (directed : Bool) : Graph :=
  { g with directed }

/-- A connection is new, or nothing is done. -/
theorem connect_cases (g : Graph) (s t : String) :
    g.connect s t = (g, []) ∨
      (s ≠ t ∧ s ∈ g.nodes ∧ t ∈ g.nodes ∧ g.edge? s t = none ∧
        g.connect s t = (g.join s t, (g.newRecords s t).map Edge.id)) := by
  unfold connect
  split
  · next hcan =>
    simp only [canConnect, Bool.and_eq_true, bne_iff_ne, List.contains_iff_mem,
      Option.isNone_iff_eq_none] at hcan
    exact Or.inr ⟨hcan.1.1.1, hcan.1.1.2, hcan.1.2, hcan.2, rfl⟩
  · exact Or.inl rfl

theorem disconnect_of_recordIds_eq_nil {g : Graph} {s t : String} (h : g.recordIds s t = []) :
    g.disconnect s t = (g, []) := by
  have hkept : g.edges.filter (fun e => !([] : List String).contains e.id) = g.edges :=
    List.filter_eq_self.mpr fun _ _ => rfl
  simp only [disconnect, h, hkept]

inductive Edit where
  | addNode
  | removeNode (id : String)
  | connect (source target : String)
  | disconnect (source target : String)
  | setDirected (directed : Bool)
deriving DecidableEq

def edit (g : Graph) : Edit → Graph
  | .addNode => g.addNode.1
  | .removeNode id => (g.removeNode id).1
  | .connect source target => (g.connect source target).1
  | .disconnect source target => (g.disconnect source target).1
  | .setDirected directed => g.setDirected directed

end Graph

end GraphReplay
