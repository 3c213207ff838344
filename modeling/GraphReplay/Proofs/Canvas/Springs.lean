import GraphReplay.Canvas.Basic
import GraphReplay.Proofs.Graph.Simple

/-!
# The springs of a canvas

A body that is tied to itself stops the layout for good.  A canvas ties a body to itself just when
the graph that it shows has a loop, and of the ways to a graph only a line of a text that joins a
node to itself makes one (`runs_iff_lines_loopless`).
-/

namespace GraphReplay

/-! ## 1. Springs of records -/

namespace Layout

theorem loop_mem_tie_iff {springs : List (Nat × Nat)} {a b i : Nat} :
    (i, i) ∈ tie springs a b ↔ (i, i) ∈ springs ∨ (a = i ∧ b = i) := by
  unfold tie
  split
  · next htied =>
    -- If there is a spring already, it is the one that would be made.
    refine ⟨Or.inl, fun h => h.elim id ?_⟩
    rintro ⟨rfl, rfl⟩
    simpa using htied
  · rw [List.mem_append, List.mem_singleton, Prod.mk.injEq, eq_comm (a := i), eq_comm (a := i)]

theorem loop_mem_foldl_tie_iff {springs : List (Nat × Nat)} {links : List Link} {i : Nat} :
    (i, i) ∈ links.foldl (fun springs l => tie springs l.source l.target) springs ↔
      (i, i) ∈ springs ∨ ∃ l ∈ links, l.source = i ∧ l.target = i := by
  induction links generalizing springs with
  | nil => simp
  | cons l links ih =>
    rw [List.foldl_cons, ih, loop_mem_tie_iff, or_assoc]
    simp only [List.mem_cons, exists_eq_or_imp]

end Layout

namespace Canvas

variable {c : Canvas} {g : Graph} {nodes : List String} {id : String} {e : Edge} {l : Link}

theorem getElem?_of_lastIndex? {i : Nat} (h : lastIndex? id nodes = some i) :
    nodes[i]? = some id := by
  induction nodes generalizing i with
  | nil => exact nomatch h
  | cons n nodes ih =>
    rw [lastIndex?] at h
    split at h
    · next j hlater =>
      cases h
      exact ih hlater
    · split at h
      · next heq =>
        cases h
        exact congrArg some heq
      · exact nomatch h

theorem exists_lastIndex?_of_mem (h : id ∈ nodes) : ∃ i, lastIndex? id nodes = some i := by
  induction nodes with
  | nil => exact nomatch h
  | cons n nodes ih =>
    rw [lastIndex?]
    cases hlater : lastIndex? id nodes with
    | some i => exact ⟨i + 1, rfl⟩
    | none =>
      rcases List.mem_cons.mp h with rfl | h
      · exact ⟨0, if_pos rfl⟩
      · obtain ⟨i, hi⟩ := ih h
        exact nomatch hlater.symm.trans hi

theorem link?_eq_some_iff :
    link? nodes e = some l ↔ ∃ source target, lastIndex? e.source nodes = some source ∧
      lastIndex? e.target nodes = some target ∧ l = ⟨e.id, source, target, e.weight, e.pair⟩ := by
  unfold link?
  constructor
  · intro h
    split at h
    · next source target hsource htarget =>
      cases h
      exact ⟨source, target, hsource, htarget, rfl⟩
    · exact nomatch h
  · rintro ⟨source, target, hsource, htarget, rfl⟩
    rw [hsource, htarget]

/-- The springs of a graph hold a loop just when a record between its nodes is one. -/
theorem setGraph_untied_iff (c : Canvas) (g : Graph) :
    (∀ s ∈ (c.setGraph g).layout.springs, s.1 ≠ s.2) ↔
      ∀ e ∈ g.edges, e.source ∈ g.nodes → e.source ≠ e.target := by
  constructor
  · intro h e he hnode heq
    obtain ⟨i, hi⟩ := exists_lastIndex?_of_mem hnode
    have hlink : link? g.nodes e = some ⟨e.id, i, i, e.weight, e.pair⟩ :=
      link?_eq_some_iff.mpr ⟨i, i, hi, heq ▸ hi, rfl⟩
    have hspring : (i, i) ∈ (c.setGraph g).layout.springs :=
      Layout.loop_mem_foldl_tie_iff.mpr
        (Or.inr ⟨_, List.mem_filterMap.mpr ⟨e, he, hlink⟩, rfl, rfl⟩)
    exact h (i, i) hspring rfl
  · rintro h ⟨i, j⟩ hspring heq
    obtain rfl : i = j := heq
    rcases Layout.loop_mem_foldl_tie_iff.mp hspring with hnil | ⟨l, hl, hsource, htarget⟩
    · exact nomatch hnil
    · obtain ⟨e, he, hlink⟩ := List.mem_filterMap.mp hl
      obtain ⟨source, target, hfirst, hsecond, rfl⟩ := link?_eq_some_iff.mp hlink
      -- Both ends are the node with index `i`.
      have hsource' := getElem?_of_lastIndex? hfirst
      have htarget' := getElem?_of_lastIndex? hsecond
      rw [show source = i from hsource] at hsource'
      rw [show target = i from htarget] at htarget'
      have hsame := hsource'.symm.trans htarget'
      injection hsame with hends
      exact h e he (List.mem_of_getElem? hsource') hends

/-! ## 2. Runs -/

/-- What happens to a canvas: another graph is shown, or time passes. -/
inductive Act where
  | setGraph (g : Graph)
  | tick (dt : Float32)

/-- The canvas after these acts, unless its layout could not move at one of them. -/
def run? (c : Canvas) : List Act → Option Canvas
  | [] => some c
  | .setGraph g :: acts => (c.setGraph g).run? acts
  | .tick dt :: acts => (c.tick? dt).bind (run? · acts)

theorem tick?_of_untied (huntied : ∀ s ∈ c.layout.springs, s.1 ≠ s.2) (dt : Float32) :
    ∃ c', c.tick? dt = some c' ∧ c'.layout.springs = c.layout.springs := by
  have hmoves := (Layout.tick?_isSome_iff dt c.layout).mpr huntied
  obtain ⟨moved, hmoved⟩ := Option.isSome_iff_exists.mp hmoves
  refine ⟨{ c with layout := moved, flowTime := c.flowTime + dt.toFloat }, ?_,
    Layout.springs_tick? hmoved⟩
  unfold Canvas.tick?
  rw [hmoved]
  rfl

theorem setGraph_untied (c : Canvas) (h : g.Loopless) :
    ∀ s ∈ (c.setGraph g).layout.springs, s.1 ≠ s.2 :=
  (c.setGraph_untied_iff g).mpr fun e he _ => h e he

theorem run?_of_untied {acts : List Act} (huntied : ∀ s ∈ c.layout.springs, s.1 ≠ s.2)
    (hacts : ∀ g, .setGraph g ∈ acts → g.Loopless) :
    ∃ c', c.run? acts = some c' ∧ ∀ s ∈ c'.layout.springs, s.1 ≠ s.2 := by
  induction acts generalizing c with
  | nil => exact ⟨c, rfl, huntied⟩
  | cons act acts ih =>
    have hrest : ∀ g, .setGraph g ∈ acts → g.Loopless := fun g hg =>
      hacts g (List.mem_cons_of_mem act hg)
    cases act with
    | setGraph g => exact ih (c.setGraph_untied (hacts g List.mem_cons_self)) hrest
    | tick dt =>
      obtain ⟨next, htick, hsprings⟩ := tick?_of_untied huntied dt
      rw [run?, htick]
      exact ih (hsprings ▸ huntied) hrest

/-- The graph comes from one of these texts, by reading and then by edits. -/
def ComesFrom (texts : String → Prop) (g : Graph) : Prop :=
  ∃ text directed start edits, texts text ∧ Graph.read text directed = .ok start ∧
    g = start.editAll edits

/-- Canvases that show graphs from some texts, edited in whatever way, never tie a body to itself
and never fail to move, just when in none of the accepted texts a line joins a node to itself. -/
theorem runs_iff_lines_loopless (texts : String → Prop) :
    (∀ g width height acts, ComesFrom texts g → (∀ g', .setGraph g' ∈ acts → ComesFrom texts g') →
      ∃ c, (Canvas.new g width height).run? acts = some c ∧ ∀ s ∈ c.layout.springs, s.1 ≠ s.2) ↔
    ∀ text nodeCount ends, texts text → Graph.GivesEnds (Graph.formatLines text) nodeCount ends →
      ∀ e ∈ ends, e.1 ≠ e.2 := by
  constructor
  · intro h text nodeCount ends htext hgives e he
    have hread := hgives.read_eq false
    obtain ⟨c, hrun, huntied⟩ := h _ 0.0 0.0 [] ⟨text, false, _, [], htext, hread, rfl⟩ nofun
    -- With nothing done to it, the canvas shows the graph as it was read.
    cases hrun
    have hends := (setGraph_untied_iff _ _).mp huntied
    have hloopless : (Graph.ofEnds false nodeCount ends).Loopless := fun record hrecord =>
      hends record hrecord (Graph.mem_nodes_ofEnds hgives.lt hrecord).1
    exact Graph.loopless_ofEnds_iff.mp hloopless e he
  · intro h
    -- Edits add no loops to the graph of a text, and without loops every act goes through.
    have hloopless : ∀ g, ComesFrom texts g → g.Loopless := by
      rintro g ⟨text, directed, start, edits, htext, hread, rfl⟩
      obtain ⟨nodeCount, ends, hgives, rfl⟩ := Graph.exists_givesEnds_of_read hread
      exact (Graph.loopless_ofEnds_iff.mpr (h text nodeCount ends htext hgives)).editAll edits
    intro g width height acts hg hacts
    exact run?_of_untied (setGraph_untied _ (hloopless g hg)) fun g' hg' =>
      hloopless g' (hacts g' hg')

/-- One node that a line joins to itself: the canvas of this graph cannot move at all. -/
theorem not_run?_of_loop_line :
    ∃ g, Graph.read "1 1\n0 0" true = .ok g ∧
      ∀ width height dt, (Canvas.new g width height).run? [.tick dt] = none := by
  have hread : Graph.read "1 1\n0 0" true = .ok (Graph.ofEnds true 1 [(0, 0)]) := by decide +kernel
  refine ⟨_, hread, fun width height dt => ?_⟩
  have hsprings : (Canvas.new (Graph.ofEnds true 1 [(0, 0)]) width height).layout.springs =
      [(0, 0)] := rfl
  have hstuck : (Canvas.new (Graph.ofEnds true 1 [(0, 0)]) width height).layout.tick? dt = none := by
    rw [← Option.not_isSome_iff_eq_none, Layout.tick?_isSome_iff, hsprings]
    exact fun h => h (0, 0) List.mem_cons_self rfl
  show ((Canvas.new _ width height).tick? dt).bind _ = none
  unfold Canvas.tick?
  rw [hstuck]
  rfl

end Canvas

end GraphReplay
