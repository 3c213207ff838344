import Mathlib.Data.List.Induction
import GraphReplay.Proofs.Canvas.Shown

/-!
# Layouts that are built anew

Another graph renumbers the bodies of a canvas.  Places go by id from the old bodies to the new
ones, and the ends of records go by id to the new numbers, so nothing depends on the numbers
(`setGraph_rebuilds`): what was there stays where it was, a link leads where its record leads, and
two nodes are tied once if some record joins them, the way the first such record leads.
-/

namespace GraphReplay

/-! ## 1. Ties -/

namespace Edge

variable {e : Edge} {s t : String}

theorem joins_iff :
    e.joins s t = true ↔ (e.source = s ∧ e.target = t) ∨ (e.source = t ∧ e.target = s) := by
  simp only [joins, Bool.or_eq_true, Bool.and_eq_true, beq_iff_eq]

theorem joins_iff_eq {p : String × String} :
    e.joins p.1 p.2 = true ↔ p = e.ends ∨ p = (e.target, e.source) := by
  obtain ⟨s, t⟩ := p
  rw [joins_iff]
  constructor
  · rintro (⟨rfl, rfl⟩ | ⟨rfl, rfl⟩)
    · exact Or.inl rfl
    · exact Or.inr rfl
  · rintro (h | h) <;> cases h
    · exact Or.inl ⟨rfl, rfl⟩
    · exact Or.inr ⟨rfl, rfl⟩

theorem joins_ends (e : Edge) : e.joins e.ends.1 e.ends.2 = true :=
  joins_iff.mpr (Or.inl ⟨rfl, rfl⟩)

/-- Two nodes that a record joins are its ends, so a record joins them if it joins its ends. -/
theorem joins_eq (h : e.joins s t = true) (e' : Edge) :
    e'.joins s t = e'.joins e.ends.1 e.ends.2 := by
  rcases joins_iff.mp h with ⟨rfl, rfl⟩ | ⟨rfl, rfl⟩
  · rfl
  · exact Bool.or_comm _ _

end Edge

namespace Graph

/-- The records whose ends are nodes. -/
def attached (g : Graph) : List Edge :=
  g.edges.filter fun e => e.source ∈ g.nodes ∧ e.target ∈ g.nodes

/-- One tie for each two nodes that some of the records join: the ends of the first such record, in
the order of these records. -/
structure Ties (records : List Edge) (ties : List (String × String)) : Prop where
  every : ∀ e ∈ records, ∃ p ∈ ties, e.joins p.1 p.2 = true
  first : ∀ p ∈ ties, (records.find? (·.joins p.1 p.2)).map Edge.ends = some p
  ordered : ties.Pairwise fun p q =>
    records.findIdx (·.joins p.1 p.2) < records.findIdx (·.joins q.1 q.2)

namespace Ties

variable {records : List Edge} {ties : List (String × String)} {e : Edge} {p : String × String}

theorem nil : Ties [] [] :=
  ⟨nofun, nofun, List.Pairwise.nil⟩

theorem findIdx_lt (h : Ties records ties) (hp : p ∈ ties) :
    records.findIdx (·.joins p.1 p.2) < records.length := by
  obtain ⟨e, hfind, _⟩ := Option.map_eq_some_iff.mp (h.first p hp)
  have hjoins := List.find?_some hfind
  exact List.findIdx_lt_length_of_exists ⟨e, List.mem_of_find?_eq_some hfind, hjoins⟩

theorem findIdx_append (h : Ties records ties) (hp : p ∈ ties) (more : List Edge) :
    (records ++ more).findIdx (·.joins p.1 p.2) = records.findIdx (·.joins p.1 p.2) := by
  rw [List.findIdx_append, if_pos (h.findIdx_lt hp)]

theorem first_append (h : Ties records ties) (hp : p ∈ ties) (more : List Edge) :
    ((records ++ more).find? (·.joins p.1 p.2)).map Edge.ends = some p := by
  obtain ⟨e, hfind, hends⟩ := Option.map_eq_some_iff.mp (h.first p hp)
  rw [List.find?_append, hfind]
  exact congrArg some hends

theorem ordered_append (h : Ties records ties) (more : List Edge) :
    ties.Pairwise fun p q => (records ++ more).findIdx (·.joins p.1 p.2) <
      (records ++ more).findIdx (·.joins q.1 q.2) := by
  refine h.ordered.imp_of_mem fun {p q} hp hq hlt => ?_
  rwa [h.findIdx_append hp, h.findIdx_append hq]

/-- A record between nodes that are tied needs no tie. -/
theorem concat_of_tied (h : Ties records ties) (hp : p ∈ ties) (he : e.joins p.1 p.2 = true) :
    Ties (records ++ [e]) ties where
  every := by
    intro e' he'
    rcases List.mem_append.mp he' with hold | hnew
    · exact h.every e' hold
    · exact ⟨p, hp, List.mem_singleton.mp hnew ▸ he⟩
  first := fun q hq => h.first_append hq [e]
  ordered := h.ordered_append [e]

theorem concat_of_untied (h : Ties records ties) (he : ∀ p ∈ ties, e.joins p.1 p.2 = false) :
    Ties (records ++ [e]) (ties ++ [e.ends]) := by
  -- A record that joins the same nodes would have tied them.
  have hnot : ∀ e' ∈ records, ¬ e'.joins e.ends.1 e.ends.2 = true := by
    intro e' he' hjoins
    obtain ⟨p, hp, htied⟩ := h.every e' he'
    have hboth : e.joins p.1 p.2 = true := by
      rw [Edge.joins_eq htied, ← Edge.joins_eq hjoins]
      exact e.joins_ends
    exact Bool.false_ne_true ((he p hp).symm.trans hboth)
  constructor
  case every =>
    intro e' he'
    rcases List.mem_append.mp he' with hold | hnew
    · obtain ⟨p, hp, htied⟩ := h.every e' hold
      exact ⟨p, List.mem_append_left _ hp, htied⟩
    · obtain rfl := List.mem_singleton.mp hnew
      exact ⟨e'.ends, List.mem_concat_self, e'.joins_ends⟩
  case first =>
    intro p hp
    rcases List.mem_append.mp hp with hold | hnew
    · exact h.first_append hold [e]
    · obtain rfl := List.mem_singleton.mp hnew
      have hself := e.joins_ends
      rw [List.find?_append, List.find?_eq_none.mpr hnot, Option.none_or, List.find?_singleton,
        if_pos hself]
      rfl
  case ordered =>
    refine List.pairwise_append.mpr ⟨h.ordered_append [e], List.pairwise_singleton _ _, ?_⟩
    intro p hp q hq
    obtain rfl := List.mem_singleton.mp hq
    have hlast : records.findIdx (·.joins e.ends.1 e.ends.2) = records.length :=
      List.findIdx_eq_length.mpr fun e' he' => Bool.eq_false_iff.mpr (hnot e' he')
    rw [h.findIdx_append hp, List.findIdx_append, hlast, if_neg (Nat.lt_irrefl _)]
    exact Nat.lt_add_left _ (h.findIdx_lt hp)

/-- Two nodes have one tie if a record joins them, and none otherwise. -/
theorem countP_eq (h : Ties records ties) (s t : String) :
    ties.countP (fun p => p = (s, t) ∨ p = (t, s)) =
      if records.any (·.joins s t) then 1 else 0 := by
  have hsame : ∀ p, p = (s, t) ∨ p = (t, s) →
      (fun e : Edge => e.joins p.1 p.2) = fun e => e.joins s t := by
    rintro p (rfl | rfl)
    · rfl
    · exact funext fun e => Bool.or_comm _ _
  -- Two such ties would be the ends of the same record, the first that joins the nodes.
  have hatMost : ties.countP (fun p => p = (s, t) ∨ p = (t, s)) ≤ 1 := by
    rw [List.countP_eq_length_filter]
    have hordered := h.ordered.filter (fun p => p = (s, t) ∨ p = (t, s))
    have hfound : ∀ p ∈ ties.filter (fun p => p = (s, t) ∨ p = (t, s)),
        p = (s, t) ∨ p = (t, s) := fun p hp => of_decide_eq_true (List.mem_filter.mp hp).2
    generalize ties.filter (fun p => p = (s, t) ∨ p = (t, s)) = found at hordered hfound
    match found with
    | [] => exact Nat.zero_le 1
    | [p] => exact Nat.le_refl 1
    | p :: q :: rest =>
      have hlt := List.rel_of_pairwise_cons hordered List.mem_cons_self
      rw [hsame p (hfound p List.mem_cons_self),
        hsame q (hfound q (List.mem_cons_of_mem p List.mem_cons_self))] at hlt
      exact absurd hlt (Nat.lt_irrefl _)
  split
  · next hany =>
    obtain ⟨e, he, hjoins⟩ := List.any_eq_true.mp hany
    obtain ⟨p, hp, htied⟩ := h.every e he
    have hpair : p = (s, t) ∨ p = (t, s) := by
      rcases Edge.joins_iff.mp hjoins with ⟨rfl, rfl⟩ | ⟨rfl, rfl⟩
      · exact Edge.joins_iff_eq.mp htied
      · exact (Edge.joins_iff_eq.mp htied).symm
    have hpos : 0 < ties.countP (fun p => p = (s, t) ∨ p = (t, s)) :=
      List.countP_pos_iff.mpr ⟨p, hp, decide_eq_true hpair⟩
    omega
  · next hnone =>
    rw [List.countP_eq_zero]
    intro p hp hpair
    obtain ⟨e, hfind, _⟩ := Option.map_eq_some_iff.mp (h.first p hp)
    rw [hsame p (of_decide_eq_true hpair)] at hfind
    have hjoins := List.find?_some hfind
    exact hnone (List.any_eq_true.mpr ⟨e, List.mem_of_find?_eq_some hfind, hjoins⟩)

end Ties

end Graph

/-! ## 2. Springs -/

namespace Canvas

variable {c c' : Canvas} {g : Graph} {nodes : List String} {e : Edge} {l : Link}
  {springs : List (Nat × Nat)} {ties : List (String × String)} {p : String × String}

/-- The nodes with these two indices. -/
def nodesAt? (nodes : List String) (s : Nat × Nat) : Option (String × String) :=
  nodes[s.1]?.bind fun source => nodes[s.2]?.map fun target => (source, target)

/-- The nodes that a spring holds together. -/
def tie? (c : Canvas) (s : Nat × Nat) : Option (String × String) :=
  nodesAt? (c.layout.bodies.map Body.id) s

theorem nodesAt?_eq_some_iff {s : Nat × Nat} :
    nodesAt? nodes s = some p ↔ nodes[s.1]? = some p.1 ∧ nodes[s.2]? = some p.2 := by
  unfold nodesAt?
  simp only [Option.bind_eq_some_iff, Option.map_eq_some_iff, Prod.ext_iff]
  constructor
  · rintro ⟨source, hsource, target, htarget, rfl, rfl⟩
    exact ⟨hsource, htarget⟩
  · rintro ⟨hsource, htarget⟩
    exact ⟨p.1, hsource, p.2, htarget, rfl, rfl⟩

theorem eq_of_nodesAt? (hnodes : nodes.Nodup) {s s' : Nat × Nat} (hs : nodesAt? nodes s = some p)
    (hs' : nodesAt? nodes s' = some p) : s = s' := by
  obtain ⟨hsource, htarget⟩ := nodesAt?_eq_some_iff.mp hs
  obtain ⟨hsource', htarget'⟩ := nodesAt?_eq_some_iff.mp hs'
  have hunique : ∀ {i j : Nat} {id : String},
      nodes[i]? = some id → nodes[j]? = some id → i = j := by
    intro i j id hi hj
    obtain ⟨hlt, _⟩ := List.getElem?_eq_some_iff.mp hi
    exact (List.getElem?_inj hlt hnodes).mp (hi.trans hj.symm)
  exact Prod.ext (hunique hsource hsource') (hunique htarget htarget')

/-- With a place for each node, a spring is there if its two nodes are tied. -/
theorem mem_springs_iff (hnodes : nodes.Nodup)
    (hties : springs.map (nodesAt? nodes) = ties.map some) {s : Nat × Nat}
    (hs : nodesAt? nodes s = some p) : s ∈ springs ↔ p ∈ ties := by
  constructor
  · intro hmem
    have hp : some p ∈ ties.map some := hties ▸ hs ▸ List.mem_map_of_mem hmem
    obtain ⟨q, hq, heq⟩ := List.mem_map.mp hp
    exact Option.some.inj heq ▸ hq
  · intro hmem
    have hp : some p ∈ springs.map (nodesAt? nodes) := hties ▸ List.mem_map_of_mem hmem
    obtain ⟨s', hs', heq⟩ := List.mem_map.mp hp
    exact eq_of_nodesAt? hnodes hs heq ▸ hs'

theorem nodesAt?_of_link? (h : link? nodes e = some l) :
    nodesAt? nodes (l.source, l.target) = some e.ends ∧
      nodesAt? nodes (l.target, l.source) = some (e.target, e.source) := by
  obtain ⟨i, j, hi, hj, rfl⟩ := link?_eq_some_iff.mp h
  have hsource := getElem?_of_lastIndex? hi
  have htarget := getElem?_of_lastIndex? hj
  exact ⟨nodesAt?_eq_some_iff.mpr ⟨hsource, htarget⟩, nodesAt?_eq_some_iff.mpr ⟨htarget, hsource⟩⟩

/-- The springs of some links are the ties of their records. -/
theorem exists_ties (hnodes : nodes.Nodup) {records : List Edge}
    (hlinks : ∀ e ∈ records, ∃ l, link? nodes e = some l) :
    ∃ ties, ((records.filterMap (link? nodes)).foldl
        (fun springs l => Layout.tie springs l.source l.target) []).map (nodesAt? nodes) =
          ties.map some ∧ Graph.Ties records ties := by
  induction records using List.reverseRecOn with
  | nil => exact ⟨[], rfl, .nil⟩
  | append_singleton records e ih =>
    obtain ⟨ties, hties, h⟩ := ih fun e' he' => hlinks e' (List.mem_append_left _ he')
    obtain ⟨l, hl⟩ := hlinks e List.mem_concat_self
    obtain ⟨hthere, hback⟩ := nodesAt?_of_link? hl
    rw [List.filterMap_append, List.foldl_append, List.filterMap_cons_some hl]
    show ∃ ties, (Layout.tie _ l.source l.target).map _ = _ ∧ _
    generalize (records.filterMap (link? nodes)).foldl _ [] = springs at hties ⊢
    have htied : (l.source, l.target) ∈ springs ∨ (l.target, l.source) ∈ springs ↔
        ∃ p ∈ ties, e.joins p.1 p.2 = true := by
      rw [mem_springs_iff hnodes hties hthere, mem_springs_iff hnodes hties hback]
      simp only [Edge.joins_iff_eq, and_or_left, exists_or, exists_eq_right]
    unfold Layout.tie
    split
    · next hmem =>
      obtain ⟨p, hp, hjoins⟩ := htied.mp (by simpa using hmem)
      exact ⟨ties, hties, h.concat_of_tied hp hjoins⟩
    · next hmem =>
      refine ⟨ties ++ [e.ends], ?_, h.concat_of_untied fun p hp => ?_⟩
      · rw [List.map_append, List.map_append, hties, List.map_singleton, hthere]
        rfl
      · refine Bool.eq_false_iff.mpr fun hjoins => hmem ?_
        simpa using htied.mpr ⟨p, hp, hjoins⟩

/-! ## 3. Links -/

theorem exists_link?_of_mem_attached (he : e ∈ g.attached) : ∃ l, link? g.nodes e = some l := by
  obtain ⟨_, hends⟩ := List.mem_filter.mp he
  obtain ⟨hsource, htarget⟩ := of_decide_eq_true hends
  obtain ⟨i, hi⟩ := exists_lastIndex?_of_mem hsource
  obtain ⟨j, hj⟩ := exists_lastIndex?_of_mem htarget
  exact ⟨_, link?_eq_some_iff.mpr ⟨i, j, hi, hj, rfl⟩⟩

theorem links_setGraph (c : Canvas) (g : Graph) :
    (c.setGraph g).links = g.attached.filterMap (link? g.nodes) := by
  unfold Graph.attached
  rw [List.filterMap_filter]
  apply List.filterMap_congr
  intro e _
  split
  · rfl
  · next hends =>
    -- Without a node at each end there is no link.
    refine Option.eq_none_iff_forall_ne_some.mpr fun l hl => hends (decide_eq_true ?_)
    obtain ⟨i, j, hi, hj, _⟩ := link?_eq_some_iff.mp hl
    exact ⟨List.mem_of_getElem? (getElem?_of_lastIndex? hi),
      List.mem_of_getElem? (getElem?_of_lastIndex? hj)⟩

/-- Every link leads between the bodies of the ends of its record. -/
theorem Shows.map_record? (h : c.Shows g) {records : List Edge}
    (hlinks : ∀ e ∈ records, ∃ l, link? g.nodes e = some l) :
    (records.filterMap (link? g.nodes)).map c.record? = records.map some := by
  induction records with
  | nil => rfl
  | cons e records ih =>
    obtain ⟨l, hl⟩ := hlinks e List.mem_cons_self
    rw [List.filterMap_cons_some hl, List.map_cons, h.record?_of_link? hl,
      ih fun e' he' => hlinks e' (List.mem_cons_of_mem e he')]
    rfl

/-! ## 4. Places -/

theorem positionOf?_of_mem {bodies : List Body} (hids : (bodies.map Body.id).Nodup) {b : Body}
    (hb : b ∈ bodies) : positionOf? bodies b.id = some b.position := by
  unfold positionOf?
  cases hfind : bodies.reverse.find? (·.id == b.id) with
  | none =>
    have hnot := List.find?_eq_none.mp hfind b (List.mem_reverse.mpr hb)
    exact absurd (beq_self_eq_true b.id) hnot
  | some other =>
    have hother := List.mem_reverse.mp (List.mem_of_find?_eq_some hfind)
    have hid : other.id = b.id := by simpa using List.find?_some hfind
    rw [List.inj_on_of_nodup_map hids hother hb hid]
    rfl

theorem position_of_mem_place {b : Body} (hb : b ∈ c.place nodes) {position : Vec}
    (hposition : positionOf? c.layout.bodies b.id = some position) : b.position = position := by
  unfold place at hb
  obtain ⟨i, hi, rfl⟩ := List.mem_mapIdx.mp hb
  show (positionOf? c.layout.bodies nodes[i]).getD _ = position
  rw [show positionOf? c.layout.bodies nodes[i] = some position from hposition]
  rfl

/-- Bodies that were placed are found in their places. -/
theorem place_setGraph (c : Canvas) (hg : g.nodes.Nodup) :
    (c.setGraph g).place g.nodes = c.place g.nodes := by
  have hids : ((c.place g.nodes).map Body.id).Nodup := (c.ids_place g.nodes).symm ▸ hg
  apply List.ext_getElem?
  intro i
  cases hi : g.nodes[i]? with
  | none => simp [place, hi]
  | some id =>
    have hplaced : (c.place g.nodes)[i]? = some
        { id, position := (positionOf? c.layout.bodies id).getD
            (circlePosition c.width c.height g.nodes.length i) } := by
      simp [place, hi]
    have hfound := positionOf?_of_mem hids (List.mem_of_getElem? hplaced)
    have hagain : ((c.setGraph g).place g.nodes)[i]? = some
        { id, position := (positionOf? (c.place g.nodes) id).getD
            (circlePosition c.width c.height g.nodes.length i) } := by
      unfold place
      rw [List.getElem?_mapIdx, hi]
      rfl
    dsimp only at hfound
    rw [hagain, hplaced, hfound]
    rfl

theorem setGraph_setGraph (c : Canvas) (hg : g.nodes.Nodup) :
    (c.setGraph g).setGraph g = c.setGraph g := by
  have hplace := c.place_setGraph hg
  unfold setGraph at hplace ⊢
  rw [hplace]

/-! ## 5. Runs -/

theorem nodup_ids_run? {acts : List Act} (hids : (c.layout.bodies.map Body.id).Nodup)
    (hacts : ∀ g, .setGraph g ∈ acts → g.nodes.Nodup) (hrun : c.run? acts = some c') :
    (c'.layout.bodies.map Body.id).Nodup := by
  induction acts generalizing c with
  | nil =>
    cases hrun
    exact hids
  | cons act acts ih =>
    have hrest : ∀ g, .setGraph g ∈ acts → g.nodes.Nodup := fun g hg =>
      hacts g (List.mem_cons_of_mem act hg)
    cases act with
    | setGraph g =>
      have hg := hacts g List.mem_cons_self
      exact ih ((c.shows_setGraph g).ids.symm ▸ hg) hrest hrun
    | tick dt =>
      obtain ⟨next, htick, hrun⟩ := Option.bind_eq_some_iff.mp hrun
      obtain ⟨layout, hlayout, rfl⟩ := Option.map_eq_some_iff.mp htick
      refine ih ?_ hrest hrun
      show (layout.bodies.map Body.id).Nodup
      rw [Layout.ids_tick? hlayout]
      exact hids

/-- Whatever a canvas has shown before, showing a graph leaves no trace of the old numbers of
bodies.  The bodies are the nodes in order, and those that were there before stay in their places;
the links are the records between nodes, each between the bodies of its ends; two nodes are tied
once if some of these records joins them, and not otherwise, the way the first such record leads and
in the order of the first such records.  Showing the graph once more changes nothing. -/
theorem setGraph_rebuilds {start : Graph} {width height : Float} {acts : List Act}
    (hstart : start.nodes.Nodup) (hacts : ∀ g, .setGraph g ∈ acts → g.nodes.Nodup)
    (hrun : (new start width height).run? acts = some c) (hg : g.nodes.Nodup) :
    let c' := c.setGraph g
    c'.layout.bodies.map Body.id = g.nodes ∧
    c'.links.map c'.record? = g.attached.map some ∧
    (∀ b ∈ c.layout.bodies, ∀ b' ∈ c'.layout.bodies, b'.id = b.id → b'.position = b.position) ∧
    (∃ ties : List (String × String), c'.layout.springs.map c'.tie? = ties.map some ∧
      (∀ s t, ties.countP (fun p => p = (s, t) ∨ p = (t, s)) =
        if g.attached.any (·.joins s t) then 1 else 0) ∧
      (∀ p ∈ ties, (g.attached.find? (·.joins p.1 p.2)).map Edge.ends = some p) ∧
      ties.Pairwise fun p q =>
        g.attached.findIdx (·.joins p.1 p.2) < g.attached.findIdx (·.joins q.1 q.2)) ∧
    c'.directed = g.directed ∧
    c'.setGraph g = c' := by
  intro c'
  have hids : (c.layout.bodies.map Body.id).Nodup :=
    nodup_ids_run? ((shows_new start width height).ids.symm ▸ hstart) hacts hrun
  have hshows := c.shows_setGraph g
  have hlinks := fun e he => exists_link?_of_mem_attached (g := g) (e := e) he
  refine ⟨hshows.ids, ?_, ?_, ?_, rfl, c.setGraph_setGraph hg⟩
  · rw [c.links_setGraph g]
    exact hshows.map_record? hlinks
  · intro b hb b' hb' hid
    exact position_of_mem_place hb' (hid ▸ positionOf?_of_mem hids hb)
  · obtain ⟨ties, hties, h⟩ := exists_ties hg hlinks
    rw [← c.links_setGraph g, ← hshows.ids] at hties
    exact ⟨ties, hties, h.countP_eq, h.first, h.ordered⟩

/-- Three nodes have moved when one of them goes and another comes between the two that stay, which
are joined there, back and there again. -/
theorem setGraph_rebuilds_of_node_between :
    let start := Graph.ofEnds false 3 [(0, 1), (1, 2)]
    let there : Edge := ⟨"edge-0", "2", "0", 1.5, some "0-2"⟩
    let back : Edge := ⟨"edge-1", "0", "2", 1.5, some "0-2"⟩
    let lost : Edge := ⟨"edge-2", "1", "0", 0.0, none⟩
    let other : Edge := ⟨"edge-3", "5", "0", 2.0, none⟩
    let again : Edge := ⟨"edge-4", "2", "0", 0.0, none⟩
    let g : Graph := ⟨["2", "5", "0"], [there, back, lost, other, again], true⟩
    ∃ c, (new start 800.0 600.0).run? [.tick 0.016] = some c ∧
      let c' := c.setGraph g
      c'.layout.bodies.map Body.id = ["2", "5", "0"] ∧
      c'.links.map c'.record? = [some there, some back, some other, some again] ∧
      c'.layout.springs.map c'.tie? = [some ("2", "0"), some ("5", "0")] ∧
      (∀ b ∈ c.layout.bodies, ∀ b' ∈ c'.layout.bodies, b'.id = b.id → b'.position = b.position) ∧
      c'.setGraph g = c' := by
  intro start there back lost other again g
  have hsprings : (new start 800.0 600.0).layout.springs = [(0, 1), (1, 2)] := by rfl
  obtain ⟨c, htick, _⟩ := tick?_of_untied (c := new start 800.0 600.0) (by simp [hsprings]) 0.016
  have hrun : (new start 800.0 600.0).run? [.tick 0.016] = some c := by
    rw [run?, htick]
    rfl
  have hstart : start.nodes.Nodup := by decide
  have hg : g.nodes.Nodup := by decide
  obtain ⟨hids, hlinks, hplaces, _, _, hagain⟩ :=
    setGraph_rebuilds hstart (by simp) hrun hg
  have hattached : g.attached = [there, back, other, again] := by decide
  rw [hattached] at hlinks
  have hties : (c.setGraph g).layout.springs.map (c.setGraph g).tie? =
      [some ("2", "0"), some ("5", "0")] := by
    unfold tie?
    rw [hids]
    rfl
  exact ⟨c, hrun, hids, hlinks, hties, hplaces, hagain⟩

end Canvas

end GraphReplay
