import GraphReplay.Proofs.Graph.Formed
import GraphReplay.Proofs.Scene.Weights

/-!
# Scenes that compare as equal

Scenes and graphs are compared with their weights as numbers are compared: both zeros are one, and
what is no number is like nothing.  Finite weights compare as equal just when they look alike, so
scenes with finite weights do so too (`Scene.beq_iff`); formed graphs are equal then.
-/

namespace GraphReplay

/-! ## 1. Doubles -/

namespace Decimal

open Float.Model Float.Model.UnpackedFloat

/-- The number without the sign that a zero has. -/
def unsignedZero : UnpackedFloat → UnpackedFloat
  | .zero _ => .zero .positive
  | x => x

/-- What can be seen of a double by comparing it. -/
def look (x : Float) : UnpackedFloat :=
  unsignedZero x.toModel.unpack

theorem then_eq_eq_iff {m m' : Nat} {e e' : Int} :
    (compare e e').then (compare m m') = .eq ↔ e = e' ∧ m = m' := by
  rw [Ordering.then_eq_eq, Int.compare_eq_eq, Nat.compare_eq_eq]

theorem compare_eq_iff {x y : UnpackedFloat} (hx : x.isFinite = true) :
    UnpackedFloat.compare x y = some .eq ↔ unsignedZero x = unsignedZero y := by
  cases x with
  | notANumber => exact nomatch hx
  | infinity sign => exact nomatch hx
  | zero sign =>
    cases y with
    | notANumber => exact iff_of_false nofun nofun
    | infinity sign' => cases sign' <;> exact iff_of_false nofun nofun
    | zero sign' => exact iff_of_true rfl rfl
    | finite sign' m' e' hm' => cases sign' <;> exact iff_of_false nofun nofun
  | finite sign m e hm =>
    cases y with
    | notANumber => exact iff_of_false nofun nofun
    | infinity sign' => cases sign <;> cases sign' <;> exact iff_of_false nofun nofun
    | zero sign' => cases sign <;> exact iff_of_false nofun nofun
    | finite sign' m' e' hm' =>
      show _ ↔ UnpackedFloat.finite sign m e hm = .finite sign' m' e' hm'
      rw [UnpackedFloat.finite.injEq]
      cases sign with
      | positive =>
        cases sign' with
        | positive =>
          show some ((compare e e').then (compare m m')) = some .eq ↔ _
          rw [Option.some.injEq, then_eq_eq_iff, and_comm]
          exact (and_iff_right rfl).symm
        | negative => exact iff_of_false nofun fun h => nomatch h.1
      | negative =>
        cases sign' with
        | positive => exact iff_of_false nofun fun h => nomatch h.1
        | negative =>
          show some ((compare e e').then (compare m m')).swap = some .eq ↔ _
          rw [Option.some.injEq, Ordering.swap_eq_eq, then_eq_eq_iff, and_comm]
          exact (and_iff_right rfl).symm

/-- A finite double compares as equal to those that look like it. -/
theorem beq_iff_look_eq {x y : Float} (hx : x.isFinite = true) :
    (x == y) = true ↔ look x = look y := by
  show (UnpackedFloat.compare _ _ == some .eq) = true ↔ _
  rw [beq_iff_eq]
  exact compare_eq_iff hx

end Decimal

/-! ## 2. Scenes -/

deriving instance ReflBEq, LawfulBEq for Face, NodeMarks, Severity, Message

/-- Lists compare as equal just when they look alike, if their entries do. -/
theorem beq_iff_map_eq {α β : Type} [BEq α] {f : α → β} {l l' : List α}
    (h : ∀ a ∈ l, ∀ b ∈ l', (a == b) = true ↔ f a = f b) :
    (l == l') = true ↔ l.map f = l'.map f := by
  induction l generalizing l' with
  | nil =>
    cases l' with
    | nil => exact iff_of_true rfl rfl
    | cons b l' => exact iff_of_false nofun nofun
  | cons a l ih =>
    cases l' with
    | nil => exact iff_of_false nofun nofun
    | cons b l' =>
      have hrest : (l == l') = true ↔ l.map f = l'.map f := ih fun c hc d hd =>
        h c (List.mem_cons_of_mem a hc) d (List.mem_cons_of_mem b hd)
      rw [List.cons_beq_cons, Bool.and_eq_true, h a List.mem_cons_self b List.mem_cons_self, hrest,
        List.map_cons, List.map_cons, List.cons.injEq]

instance {α : Type} [BEq α] [LawfulBEq α] : LawfulBEq (Marks α) where
  rfl := by
    intro m
    show (m.entries == m.entries) = true
    exact beq_self_eq_true m.entries
  eq_of_beq := by
    intro m n h
    cases m
    cases n
    rw [Marks.mk.injEq]
    exact eq_of_beq h

namespace EdgeMarks

/-- What can be seen of the marks of an edge by comparing them. -/
def look (marks : EdgeMarks) : Bool × Option String × Option Float.Model.UnpackedFloat :=
  (marks.highlight, marks.color, marks.weight.map Decimal.look)

theorem beq_iff_look_eq {marks other : EdgeMarks} (hfinite : marks.FiniteWeight) :
    (marks == other) = true ↔ marks.look = other.look := by
  have hweight : (marks.weight == other.weight) = true ↔
      marks.weight.map Decimal.look = other.weight.map Decimal.look := by
    cases hmarks : marks.weight with
    | none => cases other.weight <;> simp
    | some weight =>
      cases other.weight with
      | none => simp
      | some weight' =>
        rw [Option.map_some, Option.map_some, Option.some.injEq]
        exact Decimal.beq_iff_look_eq (hfinite weight hmarks)
  show (marks.highlight == other.highlight &&
    (marks.color == other.color && marks.weight == other.weight)) = true ↔ _
  rw [Bool.and_eq_true, Bool.and_eq_true, beq_iff_eq, beq_iff_eq, hweight]
  simp only [look, Prod.mk.injEq]

end EdgeMarks

namespace Scene

/-- What can be seen of a scene by comparing it. -/
def look (s : Scene) :
    Marks NodeMarks × List (String × Bool × Option String × Option Float.Model.UnpackedFloat) ×
      List Message :=
  (s.nodes, s.edges.entries.map fun e => (e.1, e.2.look), s.messages)

/-- Scenes with finite weights compare as equal just when they look alike. -/
theorem beq_iff {s t : Scene} (hfinite : s.FiniteWeights) : (s == t) = true ↔ s.look = t.look := by
  have hedges : (s.edges == t.edges) = true ↔
      s.edges.entries.map (fun e => (e.1, e.2.look)) =
        t.edges.entries.map fun e => (e.1, e.2.look) := by
    apply beq_iff_map_eq
    intro a ha b _
    show (a.1 == b.1 && a.2 == b.2) = true ↔ (a.1, a.2.look) = (b.1, b.2.look)
    rw [Prod.mk.injEq, Bool.and_eq_true, beq_iff_eq, EdgeMarks.beq_iff_look_eq (hfinite a ha)]
  show (s.nodes == t.nodes && (s.edges == t.edges && s.messages == t.messages)) = true ↔ _
  rw [Bool.and_eq_true, Bool.and_eq_true, hedges, beq_iff_eq, beq_iff_eq]
  simp only [look, Prod.mk.injEq]

end Scene

/-! ## 3. Graphs -/

theorem Edge.Formed.beq_iff_eq {nodes nodes' : List String} {e e' : Edge} (h : e.Formed nodes)
    (h' : e'.Formed nodes') : (e == e') = true ↔ e = e' := by
  have hzero : ((0.0 : Float) == 0.0) = true := by decide +kernel
  obtain ⟨id, source, target, weight, pair⟩ := e
  obtain ⟨id', source', target', weight', pair'⟩ := e'
  obtain rfl : weight = 0.0 := h.weight
  obtain rfl : weight' = 0.0 := h'.weight
  show (id == id' && (source == source' && (target == target' && (_ && pair == pair')))) = true ↔ _
  rw [hzero]
  simp

/-- Records of formed graphs have no weights of their own that could differ in a sign. -/
theorem Graph.Formed.beq_iff_eq {g g' : Graph} (h : g.Formed) (h' : g'.Formed) :
    (g == g') = true ↔ g = g' := by
  have hedges : (g.edges == g'.edges) = true ↔ g.edges = g'.edges := by
    have hmap := beq_iff_map_eq (f := id) fun e he e' he' =>
      Edge.Formed.beq_iff_eq (h.records e he) (h'.records e' he')
    rw [List.map_id, List.map_id] at hmap
    exact hmap
  obtain ⟨nodes, edges, directed⟩ := g
  obtain ⟨nodes', edges', directed'⟩ := g'
  show (nodes == nodes' && (edges == edges' && directed == directed')) = true ↔ _
  rw [Bool.and_eq_true, Bool.and_eq_true, hedges]
  simp

end GraphReplay
