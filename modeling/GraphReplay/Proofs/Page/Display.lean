import GraphReplay.Proofs.Canvas.Shown
import GraphReplay.Proofs.Page.Clock
import GraphReplay.Proofs.Scene.Comparison

/-!
# What a page displays

A page has copies of its player: a canvas with the graph and the scene, and a box that is checked
if the graph is directed.  When the player becomes another one, a copy is made again only if what
it is a copy of compares as changed; `Desk.Displays.follow` says that the copies are those of the
new player all the same.  An entry into a box comes before its action, so for a moment a box is
ahead of the page.
-/

namespace GraphReplay

/-! ## 1. Players of a page -/

namespace Player

variable {p q : Player}

/-- The graph is formed and the weights are finite, so comparing tells what can be told apart. -/
structure Comparable (p : Player) : Prop where
  formed : p.graph.Formed
  finite : p.FiniteWeights

theorem comparable_new (settings : Settings) : (new settings).Comparable :=
  ⟨.empty settings.directed, finiteWeights_new settings⟩

/-- On a page nobody puts an arbitrary graph in the place of that of the player. -/
theorem Comparable.change (h : p.Comparable) {op : Operation} (hop : ∀ g, op ≠ .setGraph g)
    (hchange : Change p op q) : q.Comparable := by
  refine ⟨?_, h.finite.change hchange⟩
  cases hchange with
  | graphRead hread => exact .read hread
  | graphSet graph => exact absurd rfl (hop graph)
  | graphEdited edit => exact h.formed.edit edit
  | cleared => exact .empty _
  | _ => exact h.formed

end Player

namespace Desk

variable {h k : Desk} {p next : Player} {g : Graph} {s : Scene} {directed weighted : Bool}

/-! ## 2. Copies -/

/-- The page has the player `p`, its canvas shows `g` with what can be seen of `s`, and its boxes
are checked or not as said. -/
structure Displays (h : Desk) (p : Player) (g : Graph) (s : Scene) (directed weighted : Bool) :
    Prop where
  player : h.player = p
  canvas : ∃ c, h.canvas = some c ∧ c.Shows g ∧ c.scene.look = s.look ∧ c.weighted = h.weighted
  directedBox : (h.fields.get .directedBox).checked = some directed
  weightedBox : (h.fields.get .weightedBox).checked = some weighted

namespace Displays

theorem withPlayer (hd : h.Displays p g s directed weighted) (next : Player) :
    { h with player := next }.Displays next g s directed weighted :=
  ⟨rfl, hd.canvas, hd.directedBox, hd.weightedBox⟩

theorem arm (hd : h.Displays p g s directed weighted) (tick : Option Tick) :
    (h.arm tick).Displays p g s directed weighted := by
  cases tick with
  | none => exact ⟨hd.player, hd.canvas, hd.directedBox, hd.weightedBox⟩
  | some tick => exact ⟨hd.player, hd.canvas, hd.directedBox, hd.weightedBox⟩

theorem showGraph (hd : h.Displays p g s directed weighted) :
    h.showGraph.Displays p p.graph s directed weighted := by
  obtain ⟨c, hcanvas, _, hscene, hweighted⟩ := hd.canvas
  refine ⟨hd.player, ⟨c.setGraph p.graph, ?_, c.shows_setGraph p.graph, hscene, hweighted⟩,
    hd.directedBox, hd.weightedBox⟩
  unfold Desk.showGraph
  rw [hcanvas, hd.player]
  rfl

theorem showWeighted (hd : h.Displays p g s directed weighted) (shown : Bool) :
    ({ h with weighted := shown }.showScene).Displays p g p.scene directed weighted := by
  obtain ⟨c, hcanvas, hshows, _⟩ := hd.canvas
  refine ⟨hd.player, ⟨{ c.setScene p.scene with weighted := shown }, ?_,
    ⟨hshows.ids, hshows.links, hshows.directed⟩, rfl, rfl⟩, hd.directedBox, hd.weightedBox⟩
  unfold Desk.showScene
  rw [hcanvas, hd.player]
  rfl

theorem showScene (hd : h.Displays p g s directed weighted) :
    h.showScene.Displays p g p.scene directed weighted :=
  hd.showWeighted h.weighted

/-- Only the two boxes are copies. -/
theorem put (hd : h.Displays p g s directed weighted) {w : Widget} (hdirected : w ≠ .directedBox)
    (hweighted : w ≠ .weightedBox) (entry : Properties) :
    { h with fields := h.fields.put w entry }.Displays p g s directed weighted where
  player := hd.player
  canvas := hd.canvas
  directedBox := by
    rw [Fields.get_put_of_ne _ hdirected.symm]
    exact hd.directedBox
  weightedBox := by
    rw [Fields.get_put_of_ne _ hweighted.symm]
    exact hd.weightedBox

theorem putDirected (hd : h.Displays p g s directed weighted) {entry : Properties} {checked : Bool}
    (hentry : entry.checked = some checked) :
    { h with fields := h.fields.put .directedBox entry }.Displays p g s checked weighted where
  player := hd.player
  canvas := hd.canvas
  directedBox := by rw [Fields.get_put_self, hentry]
  weightedBox := by
    rw [Fields.get_put_of_ne _ (by decide)]
    exact hd.weightedBox

theorem putWeighted (hd : h.Displays p g s directed weighted) {entry : Properties} {checked : Bool}
    (hentry : entry.checked = some checked) :
    { h with fields := h.fields.put .weightedBox entry }.Displays p g s directed checked where
  player := hd.player
  canvas := hd.canvas
  directedBox := by
    rw [Fields.get_put_of_ne _ (by decide)]
    exact hd.directedBox
  weightedBox := by rw [Fields.get_put_self, hentry]

theorem writeDirected (hd : h.Displays p g s directed weighted) :
    h.writeDirected.Displays p g s p.graph.directed weighted := by
  apply hd.putDirected
  rw [hd.player]

theorem writeSpeed (hd : h.Displays p g s directed weighted) :
    h.writeSpeed.Displays p g s directed weighted :=
  hd.put (by decide) (by decide) _

/-! ## 3. Another player -/

theorem followGraph (hd : h.Displays next p.graph s directed weighted) (hp : p.graph.Formed)
    (hnext : next.graph.Formed) :
    (if next.graph == p.graph then h else h.showGraph).Displays next next.graph s directed
      weighted := by
  split
  · next hbeq =>
    rw [(hnext.beq_iff_eq hp).mp hbeq]
    exact hd
  · exact hd.showGraph

theorem followScene (hd : h.Displays next g p.scene directed weighted)
    (hnext : next.scene.FiniteWeights) :
    (if next.scene == p.scene then h else h.showScene).Displays next g next.scene directed
      weighted := by
  split
  · next hbeq =>
    -- The canvas may show a zero of the other sign, which looks the same.
    obtain ⟨c, hcanvas, hshows, hscene, hweighted⟩ := hd.canvas
    exact ⟨hd.player, ⟨c, hcanvas, hshows, hscene.trans ((Scene.beq_iff hnext).mp hbeq).symm,
      hweighted⟩, hd.directedBox, hd.weightedBox⟩
  · exact hd.showScene

theorem followDirected (hd : h.Displays next g s directed weighted) (p : Player) :
    (if next.graph.directed = p.graph.directed then h else h.writeDirected).Displays next g s
      (if next.graph.directed = p.graph.directed then directed else next.graph.directed)
      weighted := by
  split
  · exact hd
  · exact hd.writeDirected

/-- If a copy is not made again it is one of the new player as well: what compares as equal is the
same graph, or a scene that looks the same. -/
theorem follow (hd : h.Displays p p.graph p.scene directed weighted) (hp : p.Comparable)
    (hnext : next.Comparable) :
    (h.follow next).Displays next next.graph next.scene
      (if next.graph.directed = p.graph.directed then directed else next.graph.directed)
      weighted := by
  obtain rfl := hd.player
  have harmed : (if dueTick next = dueTick h.player then { h with player := next }
      else { h with player := next }.arm (dueTick next)).Displays next h.player.graph h.player.scene
        directed weighted := by
    split
    · exact hd.withPlayer next
    · exact (hd.withPlayer next).arm (dueTick next)
  have hdirected := ((harmed.followGraph hp.formed hnext.formed).followScene
    hnext.finite.scene).followDirected h.player
  unfold Desk.follow
  dsimp only
  split
  · exact hdirected.writeSpeed
  · exact hdirected

end Displays

/-! ## 4. Actions -/

@[simp] theorem weighted_arm (h : Desk) (tick : Option Tick) :
    (h.arm tick).weighted = h.weighted := by
  cases tick <;> rfl

@[simp] theorem weighted_showGraph (h : Desk) : h.showGraph.weighted = h.weighted := rfl

@[simp] theorem weighted_showScene (h : Desk) : h.showScene.weighted = h.weighted := rfl

@[simp] theorem weighted_writeDirected (h : Desk) : h.writeDirected.weighted = h.weighted := rfl

@[simp] theorem weighted_writeSpeed (h : Desk) : h.writeSpeed.weighted = h.weighted := rfl

theorem weighted_follow (h : Desk) (next : Player) : (h.follow next).weighted = h.weighted := by
  simp [follow, apply_ite Desk.weighted]

/-- The page displays its player as it is now, but its boxes are checked as said. -/
structure Showing (h : Desk) (directed weighted : Bool) : Prop where
  comparable : h.player.Comparable
  displays : h.Displays h.player h.player.graph h.player.scene directed weighted

/-- The page displays its player and its modes as they are now. -/
def Settled (h : Desk) : Prop :=
  h.Showing h.player.graph.directed h.weighted

theorem Showing.operate (hs : h.Showing directed weighted) (op : Operation)
    (hop : ∀ g, op ≠ .setGraph g) :
    (h.operate op).1.Showing
      (if (h.player.after op).graph.directed = h.player.graph.directed then directed
        else (h.player.after op).graph.directed) weighted := by
  have hnext : (h.player.after op).Comparable := hs.comparable.change hop (h.player.after_change op)
  have hd := hs.displays.follow hs.comparable hnext
  have hplayer : (h.operate op).1.player = h.player.after op := hd.player
  refine ⟨?_, ?_⟩
  · rw [hplayer]
    exact hnext
  · rw [hplayer]
    exact hd

theorem Showing.settled_operate {op : Operation}
    (hs : (h.operate op).1.Showing (h.player.after op).graph.directed h.weighted) :
    (h.operate op).1.Settled := by
  have hplayer : (h.operate op).1.player = h.player.after op :=
    (h.tune_follow _).player.trans (h.player_tune _)
  have hweighted : (h.operate op).1.weighted = h.weighted := h.weighted_follow _
  unfold Settled
  rw [hplayer, hweighted]
  exact hs

theorem Settled.operate (hs : h.Settled) (op : Operation) (hop : ∀ g, op ≠ .setGraph g) :
    (h.operate op).1.Settled := by
  have hshowing := Showing.operate hs op hop
  have hbox : (if (h.player.after op).graph.directed = h.player.graph.directed
      then h.player.graph.directed else (h.player.after op).graph.directed) =
        (h.player.after op).graph.directed := by
    split
    · next hsame => exact hsame.symm
    · rfl
  rw [hbox] at hshowing
  exact hshowing.settled_operate

/-- The user checked the box or not, and the mode becomes what the box says. -/
theorem Showing.act_setDirected {checked : Bool} (hs : h.Showing checked h.weighted) :
    (h.act (.setDirected checked)).1.Settled := by
  have hshowing := hs.operate (.edit (.setDirected checked)) nofun
  have hmode : (h.player.after (.edit (.setDirected checked))).graph.directed = checked := rfl
  rw [hmode, ite_self] at hshowing
  exact hshowing.settled_operate

theorem Showing.act_setWeighted (hs : h.Showing h.player.graph.directed weighted) (checked : Bool) :
    (h.act (.setWeighted checked)).1.Settled :=
  ⟨hs.comparable, (hs.displays.showWeighted checked).putWeighted rfl⟩

theorem Settled.withError (hs : h.Settled) (error : Option String) :
    { h with graphError := error }.Settled := by
  obtain ⟨hcomparable, _, hcanvas, hdirected, hweighted⟩ := hs
  exact ⟨hcomparable, rfl, hcanvas, hdirected, hweighted⟩

theorem Settled.put (hs : h.Settled) {w : Widget} (hdirected : w ≠ .directedBox)
    (hweighted : w ≠ .weightedBox) (entry : Properties) :
    { h with fields := h.fields.put w entry }.Settled :=
  ⟨hs.comparable, hs.displays.put hdirected hweighted entry⟩

theorem Settled.writeGraphText (hs : h.Settled) (text : String) :
    (h.writeGraphText text).Settled := by
  obtain ⟨hcomparable, _, hcanvas, hdirected, hweighted⟩ :=
    hs.put (w := .graphField) (by decide) (by decide)
      { h.fields.get .graphField with value := some text }
  exact ⟨hcomparable, rfl, hcanvas, hdirected, hweighted⟩

theorem Settled.writeTraceText (hs : h.Settled) (text : String) :
    (h.writeTraceText text).Settled := by
  obtain ⟨hcomparable, _, hcanvas, hdirected, hweighted⟩ :=
    hs.put (w := .traceField) (by decide) (by decide)
      { h.fields.get .traceField with value := some text }
  exact ⟨hcomparable, rfl, hcanvas, hdirected, hweighted⟩

theorem Settled.act (hs : h.Settled) (action : Action) : (h.act action).1.Settled := by
  cases action with
  | submitGraph =>
    show { (h.operate (.readGraph h.graphText)).1 with graphError := h.defect }.Settled
    exact (hs.operate (.readGraph h.graphText) nofun).withError h.defect
  | submitTrace => exact hs.operate (.loadTrace h.traceText) nofun
  | clear =>
    show (({ (h.operate .clear).1 with graphError := none }.writeGraphText "").writeTraceText
      "").Settled
    exact (((hs.operate .clear nofun).withError none).writeGraphText "").writeTraceText ""
  | restart => exact hs.operate .reset nofun
  | back => exact hs.operate .backward nofun
  | runOrStop => exact hs.operate .toggle nofun
  | forward => exact hs.operate .forward nofun
  | setDirected checked => exact hs.operate (.edit (.setDirected checked)) nofun
  | setWeighted checked => exact Showing.act_setWeighted hs checked
  | typeGraph text => exact hs.writeGraphText text
  | typeTrace text => exact hs.writeTraceText text
  | typeSpeed text =>
    cases hread : Decimal.read? text with
    | none =>
      rw [act_typeSpeed_of_eq_none hread]
      exact hs
    | some speed =>
      rw [act_typeSpeed_of_eq_some hread]
      exact hs.operate (.setSpeed speed) nofun

theorem Settled.fire (hs : h.Settled) {notices : List Notice} (hfire : h.fire = some (k, notices)) :
    k.Settled := by
  unfold Desk.fire at hfire
  split at hfire
  · exact nomatch hfire
  · next timer rest _ =>
    obtain ⟨hcomparable, _, hcanvas, hdirected, hweighted⟩ := hs
    have hwaiting : { h with timers := rest }.Settled :=
      ⟨hcomparable, rfl, hcanvas, hdirected, hweighted⟩
    have hnext := hwaiting.operate (.tick timer.tick.token) nofun
    rw [Option.some.injEq] at hfire
    rw [hfire] at hnext
    exact hnext

theorem settled_start (c : Canvas) : (start (some c)).Settled where
  comparable := Player.comparable_new Settings.standard
  displays :=
    { player := rfl
      canvas := ⟨_, rfl, ⟨Canvas.ids_place _ _, rfl, rfl⟩, rfl, rfl⟩
      directedBox := rfl
      weightedBox := rfl }

/-! ## 5. Entries, looks and moves -/

/-- An entry that leaves a box as it was, or is about another element. -/
theorem Settled.entered (hs : h.Settled) {w : Widget} {entry : Properties}
    (hchecked : entry.checked = (h.fields.get w).checked) :
    { h with fields := h.fields.put w entry }.Settled := by
  by_cases hdirected : w = .directedBox
  · subst hdirected
    exact ⟨hs.comparable, hs.displays.putDirected (hchecked.trans hs.displays.directedBox)⟩
  · by_cases hweighted : w = .weightedBox
    · subst hweighted
      exact ⟨hs.comparable, hs.displays.putWeighted (hchecked.trans hs.displays.weightedBox)⟩
    · exact hs.put hdirected hweighted entry

/-- The canvas may move and be looked at in another way. -/
theorem Settled.withCanvas (hs : h.Settled) {c : Canvas}
    (hc : ∀ old, h.canvas = some old → old.Shows h.player.graph →
      c.Shows h.player.graph ∧ c.scene = old.scene ∧ c.weighted = old.weighted) :
    { h with canvas := some c }.Settled := by
  obtain ⟨hcomparable, _, ⟨old, hold, hshows, hscene, hweighted⟩, hdirectedBox, hweightedBox⟩ := hs
  obtain ⟨hmoved, hsame, hweights⟩ := hc old hold hshows
  refine ⟨hcomparable, rfl, ⟨c, rfl, hmoved, ?_, hweights.trans hweighted⟩, hdirectedBox,
    hweightedBox⟩
  rw [hsame]
  exact hscene

theorem Settled.tick (hs : h.Settled) {c moved : Canvas} {dt : Float32}
    (hcanvas : h.canvas = some c) (htick : c.tick? dt = some moved) :
    { h with canvas := some moved }.Settled := by
  apply hs.withCanvas
  intro old hold hshows
  rw [hcanvas, Option.some_inj] at hold
  subst hold
  refine ⟨hshows.tick? htick, ?_⟩
  obtain ⟨layout, _, rfl⟩ := Option.map_eq_some_iff.mp htick
  exact ⟨rfl, rfl⟩

/-- The canvas presents the player and the mode of the page as they are now. -/
structure PresentedBy (h : Desk) (c : Canvas) : Prop where
  graph : c.graph? = some h.player.graph
  scene : (h.player.scene == c.scene) = true
  weighted : c.weighted = h.weighted

theorem Settled.presentedBy (hs : h.Settled) {c : Canvas} (hcanvas : h.canvas = some c) :
    h.PresentedBy c := by
  obtain ⟨c', hcanvas', hshows, hscene, hweighted⟩ := hs.displays.canvas
  rw [hcanvas, Option.some_inj] at hcanvas'
  subst hcanvas'
  exact ⟨hshows.graph?_eq hs.comparable.formed,
    (Scene.beq_iff hs.comparable.finite.scene).mpr hscene.symm, hweighted⟩

end Desk

end GraphReplay
