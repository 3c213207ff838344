import GraphReplay.Proofs.Canvas.Lines
import GraphReplay.Proofs.Decimal.Packing
import GraphReplay.Proofs.Page.Snapshot

/-!
# The picture on the page

A page presents its player by a canvas whose scene compares as equal to that of the player.  So what
a frame draws is the picture of the player's own scene, with each node and each edge as the scene
marks it, but for one thing: a canvas is not told when the weight of an edge changes from one zero
to the other, so the text of a zero may have the sign of an earlier one
(`Window.frame_pictures_player`).
-/

namespace GraphReplay

/-! ## 1. Texts of weights -/

namespace Decimal

open Float.Model Float.Model.UnpackedFloat

variable {x y : Float}

/-- One of the two zeros. -/
def IsZero (x : Float) : Prop :=
  x = 0.0 ∨ x = -0.0

theorem IsZero.look_eq (h : IsZero x) : look x = .zero .positive := by
  rcases h with rfl | rfl <;> rfl

/-- A finite double is a zero, or it is packed from what is found in it. -/
theorem isZero_or_packed (hx : x.isFinite = true) :
    IsZero x ∨ ∃ sign m e, ∃ hpos : 0 < m,
      x.toModel.unpack = .finite sign m e hpos ∧
        x = Float.ofModel (.pack (.finite sign m e hpos)) := by
  obtain ⟨negative, magnitude, hdecode⟩ := exists_decode_of_isFinite hx
  rcases Nat.eq_zero_or_pos magnitude.significand with hzero | hpos
  · left
    have hx := eq_zero_of_decode hdecode hzero
    cases negative with
    | false => exact Or.inl hx
    | true => exact Or.inr hx
  · right
    obtain ⟨_, hcanonical, hexponent, _⟩ := decode_eq_finite hdecode
    have hpacked := eq_ofModel_pack hdecode hpos
    refine ⟨_, _, _, hpos, ?_, hpacked⟩
    rw [hpacked]
    exact (hcanonical hpos).unpack_pack hexponent _

theorem isFinite_of_look_eq (hx : x.isFinite = true) (hlook : look x = look y) :
    y.isFinite = true := by
  have hsigned : ∀ u : UnpackedFloat, (unsignedZero u).isFinite = u.isFinite := by
    intro u
    cases u <;> rfl
  have hsame := congrArg UnpackedFloat.isFinite hlook
  rw [look, look, hsigned, hsigned] at hsame
  exact hsame.symm.trans hx

/-- Finite doubles that look alike are the same one, or both of them are zeros. -/
theorem eq_or_isZero_of_look_eq (hx : x.isFinite = true) (hlook : look x = look y) :
    x = y ∨ IsZero x ∧ IsZero y := by
  have hy : y.isFinite = true := isFinite_of_look_eq hx hlook
  rcases isZero_or_packed hx with hzero | ⟨sign, m, e, hpos, hunpack, hpacked⟩ <;>
    rcases isZero_or_packed hy with hzero' | ⟨sign', m', e', hpos', hunpack', hpacked'⟩
  · exact Or.inr ⟨hzero, hzero'⟩
  -- What is packed from a finite number does not look like a zero.
  · rw [hzero.look_eq, look, hunpack'] at hlook
    exact nomatch hlook
  · rw [hzero'.look_eq, look, hunpack] at hlook
    exact nomatch hlook
  · left
    rw [look, look, hunpack, hunpack'] at hlook
    rw [hpacked, hpacked']
    exact congrArg (fun u => Float.ofModel (.pack u)) hlook

/-- The text of a number without the sign that a zero has. -/
def plain (words : String) : String :=
  if words = "-0" then "0" else words

theorem IsZero.plain_text (h : IsZero x) : plain (text x) = "0" := by
  rcases h with rfl | rfl <;> decide +kernel

theorem plain_text_eq (hx : x.isFinite = true) (hlook : look x = look y) :
    plain (text x) = plain (text y) := by
  rcases eq_or_isZero_of_look_eq hx hlook with rfl | ⟨hzero, hzero'⟩
  · rfl
  · rw [hzero.plain_text, hzero'.plain_text]

end Decimal

/-! ## 2. Scenes that look alike -/

/-- The call with every zero without its sign. -/
def DrawCall.plain : DrawCall → DrawCall
  | .fillText words x y => .fillText (Decimal.plain words) x y
  | call => call

theorem Scene.look_get_eq {s t : Scene} (hlook : s.look = t.look) (id : String) :
    s.nodes.get id = t.nodes.get id ∧ (s.edges.get id).look = (t.edges.get id).look := by
  simp only [Scene.look, Prod.mk.injEq] at hlook
  obtain ⟨hnodes, hedges, _⟩ := hlook
  have hfound := congrArg (Marks.find? id) hedges
  rw [Marks.find?_map, Marks.find?_map] at hfound
  refine ⟨by rw [hnodes], ?_⟩
  have hget : ∀ u : Scene, (u.edges.get id).look =
      ((Marks.find? id u.edges.entries).map EdgeMarks.look).getD (default : EdgeMarks).look :=
    fun u => (Option.getD_map _ _ _).symm
  rw [hget, hget, hfound]

namespace Canvas

variable {c : Canvas} {s t : Scene} {marks other : EdgeMarks}

theorem lineCalls_eq_of_look_eq (hlook : marks.look = other.look) :
    c.lineCalls marks = c.lineCalls other := by
  simp only [EdgeMarks.look, Prod.mk.injEq] at hlook
  unfold lineCalls edgeColor
  rw [hlook.1, hlook.2.1]

theorem arrowCalls_eq_of_look_eq (hlook : marks.look = other.look) :
    c.arrowCalls marks = c.arrowCalls other := by
  simp only [EdgeMarks.look, Prod.mk.injEq] at hlook
  unfold arrowCalls edgeColor
  rw [hlook.2.1]

theorem plain_weightCalls (hlook : marks.look = other.look) (hfinite : marks.FiniteWeight)
    (weight x₁ y₁ x₂ y₂ : Float) :
    (c.weightCalls marks weight x₁ y₁ x₂ y₂).map DrawCall.plain =
      (c.weightCalls other weight x₁ y₁ x₂ y₂).map DrawCall.plain := by
  have hwords : Decimal.plain (Decimal.text (marks.weight.getD weight)) =
      Decimal.plain (Decimal.text (other.weight.getD weight)) := by
    simp only [EdgeMarks.look, Prod.mk.injEq] at hlook
    have hweights := hlook.2.2
    cases hmarks : marks.weight with
    | none =>
      rw [hmarks, Option.map_none, eq_comm, Option.map_eq_none_iff] at hweights
      rw [hweights]
    | some w =>
      rw [hmarks, Option.map_some, eq_comm, Option.map_eq_some_iff] at hweights
      obtain ⟨w', hother, hsame⟩ := hweights
      rw [hother]
      exact Decimal.plain_text_eq (hfinite w hmarks) hsame.symm
  unfold weightCalls
  split
  · simp only [List.map_cons, List.map_nil, DrawCall.plain, hwords]
  · rfl

section

variable {f : DrawCall → DrawCall} (hlook : s.look = t.look)
  (hweights : ∀ id weight x₁ y₁ x₂ y₂,
    (c.weightCalls (s.edges.get id) weight x₁ y₁ x₂ y₂).map f =
      (c.weightCalls (t.edges.get id) weight x₁ y₁ x₂ y₂).map f)

include hlook hweights

theorem map_edgeCalls_eq (l : Link) (x₁ y₁ x₂ y₂ : Float) :
    ((c.setScene s).edgeCalls l x₁ y₁ x₂ y₂).map f =
      ((c.setScene t).edgeCalls l x₁ y₁ x₂ y₂).map f := by
  have hmarks := (Scene.look_get_eq hlook l.id).2
  unfold edgeCalls
  dsimp only
  split
  · rfl
  · -- The line and the arrow head tell of what is the same in both scenes.
    show (c.lineCalls (s.edges.get l.id) _ _ _ _ _ _ ++ c.arrowCalls (s.edges.get l.id) _ _ _ _ ++
        c.weightCalls (s.edges.get l.id) _ _ _ _ _).map f = _
    rw [lineCalls_eq_of_look_eq hmarks, arrowCalls_eq_of_look_eq hmarks, List.map_append, hweights,
      ← List.map_append]
    rfl

theorem map_linkCalls_eq (l : Link) :
    ((c.setScene s).linkCalls l).map f = ((c.setScene t).linkCalls l).map f := by
  have hpoints : (c.setScene s).pointOf? = (c.setScene t).pointOf? := rfl
  unfold linkCalls
  rw [hpoints]
  split
  · exact map_edgeCalls_eq hlook hweights l _ _ _ _
  · rfl

/-- Pictures of scenes that look alike differ at most in how weights are written. -/
theorem map_draw_eq : (c.setScene s).draw.map f = (c.setScene t).draw.map f := by
  have hbodies : (c.setScene s).bodyCalls = (c.setScene t).bodyCalls := by
    funext b
    have hmarks : (c.setScene s).scene.nodes.get b.id = (c.setScene t).scene.nodes.get b.id :=
      (Scene.look_get_eq hlook b.id).1
    unfold bodyCalls
    rw [hmarks]
    rfl
  unfold draw
  simp only [hbodies, List.map_append, List.map_flatMap, map_linkCalls_eq hlook hweights]
  rfl

end

end Canvas

/-! ## 3. Frames -/

/-- The calls are a picture of the player and the mode of the page as they are now.  It is that of
the canvas `c`, on which every record and node is as the scene of the player marks it. -/
structure Desk.Pictures (h : Desk) (calls : List DrawCall) (c : Canvas) : Prop where
  graph : c.Shows h.player.graph
  scene : c.scene = h.player.scene
  weighted : c.weighted = h.weighted
  plain : calls.map DrawCall.plain = c.draw.map DrawCall.plain
  exact : h.weighted = false → calls = c.draw
  lines : h.player.graph.directed = false → ∀ ctx : Context, ctx.style.dash = [] →
    Shape.lines (ctx.paint c.draw) = h.player.graph.drawn.filterMap c.line?

theorem Desk.Settled.pictures {h : Desk} (hs : h.Settled) {c : Canvas}
    (hcanvas : h.canvas = some c) : h.Pictures c.draw (c.setScene h.player.scene) := by
  obtain ⟨hcomparable, -, ⟨c', hcanvas', hshows, hlook, hweighted⟩, -⟩ := hs
  rw [hcanvas, Option.some_inj] at hcanvas'
  subst hcanvas'
  have hnow : (c.setScene h.player.scene).Shows h.player.graph :=
    ⟨hshows.ids, hshows.links, hshows.directed⟩
  refine ⟨hnow, rfl, hweighted, ?_, ?_, ?_⟩
  · -- The scene on the canvas looks like that of the player, whose weights are finite.
    refine (Canvas.map_draw_eq hlook.symm ?_).symm
    intro id weight x₁ y₁ x₂ y₂
    have hmarks := (Scene.look_get_eq hlook.symm id).2
    have hfinite : (h.player.scene.edges.get id).FiniteWeight :=
      hcomparable.finite.scene.get EdgeMarks.finiteWeight_default id
    exact Canvas.plain_weightCalls hmarks hfinite weight x₁ y₁ x₂ y₂
  · intro hplain
    -- Without weights nothing is written that could differ.
    have hnone : ∀ marks weight x₁ y₁ x₂ y₂, c.weightCalls marks weight x₁ y₁ x₂ y₂ = [] := by
      intro marks weight x₁ y₁ x₂ y₂
      unfold Canvas.weightCalls
      rw [hweighted, hplain]
      rfl
    have hsame := Canvas.map_draw_eq (f := id) hlook (c := c) (by simp only [hnone, implies_true])
    rw [List.map_id, List.map_id] at hsame
    exact hsame
  · intro hdirected ctx hdash
    have hlines := (Canvas.draws_draw hnow hcomparable.formed hdirected).lines ctx [] hdash rfl
    rw [List.append_nil] at hlines
    exact hlines.trans (List.append_nil _)

namespace Window

theorem Settled.pictures {win : Window} (hs : win.Settled) (hshown : win.shown = true)
    (hrequested : win.frameRequested = true) : ∃ desk, win.page = .player desk ∧
      ((win.step .frame).2.1 = .stuck ∨
        ∃ calls c, (win.step .frame).2.1 = .drawn calls ∧ desk.Pictures calls c) := by
  obtain ⟨desk, hpage, hsettled⟩ := hs
  have hnow := hsettled hshown
  obtain ⟨c, hcanvas, _⟩ := hnow.displays.canvas
  refine ⟨desk, hpage, ?_⟩
  rcases step_frame hpage hrequested hcanvas with ⟨_, hstuck⟩ | ⟨moved, htick, hdrawn⟩
  · exact Or.inl hstuck
  · -- The canvas moves before it is drawn, which leaves the page settled.
    have hlater := (hnow.tick hcanvas htick).pictures rfl
    exact Or.inr ⟨_, _, hdrawn, hlater.graph, hlater.scene, hlater.weighted, hlater.plain,
      hlater.exact, hlater.lines⟩

/-- After any events the next frame draws the player as it is then, with the marks of its scene, as
long as the page is in the document and no frame failed. -/
theorem frame_pictures_player (o : Opening) (hcontext : o.hasContext = true) (events : List Event)
    (hframes : ((launch { o with path := "/" }).1.replies events).any Reply.isStuck = false)
    (hshown : ((launch { o with path := "/" }).1.run events).shown = true) :
    let win := (launch { o with path := "/" }).1.run events
    ∃ desk, win.page = .player desk ∧
      ((win.step .frame).2.1 = .stuck ∨
        ∃ calls c, (win.step .frame).2.1 = .drawn calls ∧ desk.Pictures calls c) :=
  ((settled_launch hcontext).run events).pictures hshown
    ((frameRequested_run hframes).trans (frameRequested_launch hcontext))

/-- The canvas is not told of a zero that comes after the other one. -/
example :
    let win := (launch {}).1.run [.input .graphField "2 1\n0 1", .click .graphButton,
      .input .traceField "setEdgeWeight 0 1 0\nsetEdgeWeight 0 1 -0", .click .traceButton,
      .change .weightedBox (some true) none, .click .forwardButton, .click .forwardButton]
    win.page.desk?.map (fun h => ((h.player.scene.edges.get "edge-0").weight,
      h.canvas.bind fun c => (c.scene.edges.get "edge-0").weight)) =
      some (some (-0.0), some 0.0) := by
  decide +kernel

end Window

end GraphReplay
