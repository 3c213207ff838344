import GraphReplay.Graph.Format
import GraphReplay.Proofs.Graph.Ids

/-!
# Numbered records

The numbers of records are looked for anew with every connection.  As long as no record goes, the
numbers in use are those below some bound, so the connections that are made one after the other get
the numbers that count them.
-/

namespace GraphReplay

/-- If the numbers in use are those below a bound, the fresh ones count on from there. -/
theorem freshNumbers_of_mem_iff_lt {used : List Nat} {bound : Nat}
    (h : ∀ n, n ∈ used ↔ n < bound) (count : Nat) :
    freshNumbers count used = List.range' bound count := by
  induction count generalizing used bound with
  | zero => rfl
  | succ count ih =>
    have hleast : leastUnused used = bound := by
      apply leastUnused_eq_of
      · rw [h]
        omega
      · intro m hm
        exact (h m).mpr hm
    have hnext : ∀ n, n ∈ bound :: used ↔ n < bound + 1 := by
      intro n
      rw [List.mem_cons, h]
      omega
    rw [freshNumbers, hleast, ih hnext, List.range'_succ]

namespace Graph

variable {g : Graph} {directed : Bool}

/-- How many records a connection has. -/
def recordCount (directed : Bool) : Nat :=
  if directed then 1 else 2

/-- The records of connection number `i` of a graph that is read. -/
def recordsAt (directed : Bool) (i : Nat) (ends : Nat × Nat) : List Edge :=
  let source := Text.numeral ends.1
  let target := Text.numeral ends.2
  if directed then [⟨edgeId i, source, target, 0.0, none⟩]
  else
    [⟨edgeId (2 * i), source, target, 0.0, some (pairId source target)⟩,
      ⟨edgeId (2 * i + 1), target, source, 0.0, some (pairId source target)⟩]

theorem length_recordsAt (directed : Bool) (i : Nat) (ends : Nat × Nat) :
    (recordsAt directed i ends).length = recordCount directed := by
  cases directed with
  | true => rfl
  | false => rfl

/-- The graph has the records of `count` connections, numbered in order. -/
structure Numbered (g : Graph) (directed : Bool) (count : Nat) : Prop where
  mode : g.directed = directed
  numbers : ∀ n, n ∈ g.edgeNumbers ↔ n < recordCount directed * count

theorem Numbered.newRecords {count : Nat} (h : Numbered g directed count) (ends : Nat × Nat) :
    g.newRecords (Text.numeral ends.1) (Text.numeral ends.2) = recordsAt directed count ends := by
  have hfresh := freshNumbers_of_mem_iff_lt h.numbers
  unfold recordCount at hfresh
  unfold Graph.newRecords recordEnds recordsAt
  rw [h.mode]
  cases directed with
  | true =>
    simp only [if_true, List.length_singleton, hfresh, Nat.one_mul]
    rfl
  | false =>
    simp only [Bool.false_eq_true, if_false, List.length_cons, List.length_nil, hfresh]
    rfl

theorem Numbered.join {count : Nat} (h : Numbered g directed count) (ends : Nat × Nat) :
    Numbered (g.join (Text.numeral ends.1) (Text.numeral ends.2)) directed (count + 1) where
  mode := h.mode
  numbers := by
    intro n
    have hnew : n ∈ (recordsAt directed count ends).filterMap (fun e => edgeNumber? e.id) ↔
        recordCount directed * count ≤ n ∧ n < recordCount directed * (count + 1) := by
      unfold recordsAt recordCount
      cases directed with
      | true =>
        simp only [if_true, List.filterMap_cons, edgeNumber?_edgeId, List.filterMap_nil,
          List.mem_singleton]
        omega
      | false =>
        simp only [Bool.false_eq_true, if_false, List.filterMap_cons, edgeNumber?_edgeId,
          List.filterMap_nil, List.mem_pair]
        omega
    have hsplit : (g.join (Text.numeral ends.1) (Text.numeral ends.2)).edgeNumbers =
        g.edgeNumbers ++ (recordsAt directed count ends).filterMap (fun e => edgeNumber? e.id) := by
      rw [← h.newRecords ends]
      exact List.filterMap_append
    have hbounds : recordCount directed * count ≤ recordCount directed * (count + 1) :=
      Nat.mul_le_mul_left _ (Nat.le_succ count)
    rw [hsplit, List.mem_append, h.numbers, hnew]
    omega

theorem Numbered.edges_foldl_join {count : Nat} (h : Numbered g directed count)
    (ends : List (Nat × Nat)) :
    (ends.foldl (fun g e => g.join (Text.numeral e.1) (Text.numeral e.2)) g).edges =
      g.edges ++ (ends.zipIdx count).flatMap fun e => recordsAt directed e.2 e.1 := by
  induction ends generalizing g count with
  | nil => exact (List.append_nil _).symm
  | cons e ends ih =>
    rw [List.foldl_cons, ih (h.join e), List.zipIdx_cons, List.flatMap_cons, ← List.append_assoc]
    show g.edges ++ g.newRecords _ _ ++ _ = _
    rw [h.newRecords e]

/-! ## Graphs that are made of connections -/

theorem nodes_ofEnds (directed : Bool) (nodeCount : Nat) (ends : List (Nat × Nat)) :
    (ofEnds directed nodeCount ends).nodes = (List.range nodeCount).map Text.numeral := by
  unfold ofEnds
  apply List.foldlRecOn
    (motive := fun g : Graph => g.nodes = (List.range nodeCount).map Text.numeral) ends _ rfl
  exact fun g hg _ _ => hg

theorem directed_ofEnds (directed : Bool) (nodeCount : Nat) (ends : List (Nat × Nat)) :
    (ofEnds directed nodeCount ends).directed = directed := by
  unfold ofEnds
  apply List.foldlRecOn (motive := fun g : Graph => g.directed = directed) ends _ rfl
  exact fun g hg _ _ => hg

theorem edges_ofEnds (directed : Bool) (nodeCount : Nat) (ends : List (Nat × Nat)) :
    (ofEnds directed nodeCount ends).edges =
      ends.zipIdx.flatMap fun e => recordsAt directed e.2 e.1 := by
  have hempty : Numbered { Graph.empty directed with nodes := (List.range nodeCount).map Text.numeral }
      directed 0 :=
    ⟨rfl, fun n => by
      rw [Nat.mul_zero]
      exact ⟨nofun, nofun⟩⟩
  exact hempty.edges_foldl_join ends

theorem length_edges_ofEnds (directed : Bool) (nodeCount : Nat) (ends : List (Nat × Nat)) :
    (ofEnds directed nodeCount ends).edges.length = recordCount directed * ends.length := by
  rw [edges_ofEnds]
  generalize 0 = start
  induction ends generalizing start with
  | nil => rfl
  | cons e ends ih =>
    rw [List.zipIdx_cons, List.flatMap_cons, List.length_append, length_recordsAt, ih,
      List.length_cons, Nat.mul_succ, Nat.add_comm]

/-- The records of a connection stand at the places that its number gives. -/
theorem getElem?_edges_ofEnds (directed : Bool) (nodeCount : Nat) {ends : List (Nat × Nat)}
    {i : Nat} {e : Nat × Nat} (h : ends[i]? = some e) {j : Nat} (hj : j < recordCount directed) :
    (ofEnds directed nodeCount ends).edges[recordCount directed * i + j]? =
      (recordsAt directed i e)[j]? := by
  rw [edges_ofEnds]
  suffices hstart : ∀ start, ((ends.zipIdx start).flatMap fun e =>
      recordsAt directed e.2 e.1)[recordCount directed * i + j]? =
        (recordsAt directed (start + i) e)[j]? by
    have hzero := hstart 0
    rw [Nat.zero_add] at hzero
    exact hzero
  intro start
  induction ends generalizing i start with
  | nil => exact nomatch h
  | cons first ends ih =>
    rw [List.zipIdx_cons, List.flatMap_cons]
    cases i with
    | zero =>
      rw [List.getElem?_cons_zero, Option.some_inj] at h
      rw [Nat.mul_zero, Nat.zero_add, List.getElem?_append_left, h, Nat.add_zero]
      rw [length_recordsAt]
      exact hj
    | succ i =>
      rw [List.getElem?_cons_succ] at h
      have hpast : (recordsAt directed start first).length ≤ recordCount directed * (i + 1) + j := by
        rw [length_recordsAt, Nat.mul_succ]
        omega
      have hrest : recordCount directed * (i + 1) + j - (recordsAt directed start first).length =
          recordCount directed * i + j := by
        rw [length_recordsAt, Nat.mul_succ]
        omega
      rw [List.getElem?_append_right hpast, hrest, ih h, Nat.add_assoc, Nat.add_comm 1 i]

end Graph

end GraphReplay
