import GraphReplay.Proofs.Canvas.Context
import GraphReplay.Proofs.Canvas.Shown
import GraphReplay.Proofs.Playback.StepBack

/-!
# The lines of an undirected graph

Two rules choose one of the records of an undirected connection.  A canvas draws the first record
with a pair id, and an instruction marks the first record from one node to another together with
the first other one with its pair id.  They meet: of the records that an instruction marks one is
drawn, so its line shows what was marked (`drawn_lines_show_marks`), also when records have lost
their halves.
-/

namespace GraphReplay

/-! ## 1. The records that are drawn -/

namespace Graph

variable {g : Graph} {e : Edge} {s t : String}

/-- The record that is drawn for the connection of `e`: the first one with its pair id. -/
def drawnFor (g : Graph) (e : Edge) : Edge :=
  match e.pair with
  | none => e
  | some pair => (g.edges.find? (·.pair == some pair)).getD e

/-- The records that an undirected graph is drawn by: those without a pair id, and the first one
with each pair id. -/
def drawn (g : Graph) : List Edge :=
  g.edges.filter fun e => g.drawnFor e = e

theorem drawnFor_of_pair_eq_none (hpair : e.pair = none) : g.drawnFor e = e := by
  unfold drawnFor
  rw [hpair]

theorem exists_find?_pair {pair : String} (he : e ∈ g.edges) (hpair : e.pair = some pair) :
    ∃ first, g.edges.find? (·.pair == some pair) = some first ∧ g.drawnFor e = first := by
  cases hfind : g.edges.find? (·.pair == some pair) with
  | none =>
    have hnot := List.find?_eq_none.mp hfind e he
    exact absurd (beq_iff_eq.mpr hpair) hnot
  | some first =>
    refine ⟨first, rfl, ?_⟩
    unfold drawnFor
    rw [hpair]
    show (g.edges.find? _).getD e = first
    rw [hfind]
    rfl

theorem drawnFor_mem (he : e ∈ g.edges) :
    g.drawnFor e ∈ g.edges ∧ (g.drawnFor e).pair = e.pair := by
  cases hpair : e.pair with
  | none =>
    rw [drawnFor_of_pair_eq_none hpair]
    exact ⟨he, hpair⟩
  | some pair =>
    obtain ⟨first, hfind, hdrawn⟩ := exists_find?_pair he hpair
    rw [hdrawn]
    have hfirst := List.find?_some hfind
    exact ⟨List.mem_of_find?_eq_some hfind, beq_iff_eq.mp hfirst⟩

theorem drawnFor_eq_of_pair_eq {e' : Edge} (he : e ∈ g.edges) (hpair : e.pair.isSome)
    (hsame : e'.pair = e.pair) : g.drawnFor e' = g.drawnFor e := by
  obtain ⟨pair, hsome⟩ := Option.isSome_iff_exists.mp hpair
  obtain ⟨first, hfind, hdrawn⟩ := exists_find?_pair he hsome
  rw [hdrawn]
  unfold drawnFor
  rw [hsame, hsome]
  show (g.edges.find? _).getD e' = first
  rw [hfind]
  rfl

theorem drawnFor_mem_drawn (he : e ∈ g.edges) : g.drawnFor e ∈ g.drawn := by
  obtain ⟨hmem, hsame⟩ := drawnFor_mem he
  refine List.mem_filter.mpr ⟨hmem, decide_eq_true ?_⟩
  cases hpair : e.pair with
  | none => rw [drawnFor_of_pair_eq_none (hsame.trans hpair)]
  | some pair => exact drawnFor_eq_of_pair_eq he (hpair ▸ rfl) hsame

/-- What is drawn for a connection is among the records that an instruction marks. -/
theorem id_drawnFor_mem_recordIds (hdirected : g.directed = false) (hedge : g.edge? s t = some e) :
    (g.drawnFor e).id ∈ g.recordIds s t := by
  have he : e ∈ g.edges := (mem_of_edge?_eq_some hedge).1
  unfold recordIds
  rw [hedge]
  show (g.drawnFor e).id ∈ e.id :: (g.twin? e).toList.map Edge.id
  cases hpair : e.pair with
  | none =>
    rw [drawnFor_of_pair_eq_none hpair]
    exact List.mem_cons_self
  | some pair =>
    obtain ⟨first, hfind, hdrawn⟩ := exists_find?_pair he hpair
    rw [hdrawn]
    by_cases hid : first.id = e.id
    · exact hid ▸ List.mem_cons_self
    · -- The first record with the pair id is another one, so it is the first other one as well.
      have htwin : g.twin? e = some first := by
        unfold twin?
        rw [hdirected, hpair]
        show g.edges.find? (fun e' => e'.id != e.id && e'.pair == some pair) = some first
        rw [List.find?_eq_some_iff_append] at hfind ⊢
        obtain ⟨hfirst, before, after, hedges, hbefore⟩ := hfind
        refine ⟨Bool.and_eq_true_iff.mpr ⟨bne_iff_ne.mpr hid, hfirst⟩, before, after, hedges, ?_⟩
        intro e' he'
        rw [Bool.not_and, hbefore e' he', Bool.or_true]
      rw [htwin]
      exact List.mem_cons_of_mem _ List.mem_cons_self

/-- A record is drawn if none before it has its pair id. -/
theorem Formed.drawnFor_eq_self_iff (h : g.Formed) {before after : List Edge}
    (hedges : g.edges = before ++ e :: after) :
    g.drawnFor e = e ↔ ∀ pair, e.pair = some pair → ∀ e' ∈ before, e'.pair ≠ some pair := by
  have he : e ∈ g.edges := hedges ▸ List.mem_append_right before List.mem_cons_self
  constructor
  · intro hself pair hpair e' he' hpair'
    obtain ⟨first, hfind, hdrawn⟩ := exists_find?_pair he hpair
    cases hbefore : before.find? (·.pair == some pair) with
    | none => exact List.find?_eq_none.mp hbefore e' he' (beq_iff_eq.mpr hpair')
    | some found =>
      rw [hedges, List.find?_append, hbefore, Option.some_or, Option.some.injEq] at hfind
      -- The record would stand in the list twice.
      have hmem : e ∈ before := by
        rw [← hself, hdrawn, ← hfind]
        exact List.mem_of_find?_eq_some hbefore
      have hnodup := h.nodup_ids
      rw [hedges, List.map_append, List.nodup_append] at hnodup
      exact hnodup.2.2 _ (List.mem_map_of_mem hmem) _ List.mem_cons_self rfl
  · intro hall
    cases hpair : e.pair with
    | none => exact drawnFor_of_pair_eq_none hpair
    | some pair =>
      obtain ⟨first, hfind, hdrawn⟩ := exists_find?_pair he hpair
      have hbefore : before.find? (·.pair == some pair) = none :=
        List.find?_eq_none.mpr fun e' he' hpair' => hall pair hpair e' he' (beq_iff_eq.mp hpair')
      rw [hedges, List.find?_append, hbefore, Option.none_or, List.find?_cons, hpair,
        beq_self_eq_true] at hfind
      rw [hdrawn, ← Option.some.inj hfind]

theorem Formed.joins_drawnFor (h : g.Formed) (hedge : g.edge? s t = some e) :
    (g.drawnFor e).joins s t = true := by
  obtain ⟨he, rfl, rfl⟩ := mem_of_edge?_eq_some hedge
  obtain ⟨hmem, hsame⟩ := drawnFor_mem he
  cases hpair : e.pair with
  | none =>
    rw [drawnFor_of_pair_eq_none hpair]
    simp [Edge.joins]
  | some pair => exact h.joins_of_pair_eq he hmem hpair (hsame.trans hpair)

end Graph

/-! ## 2. Lines -/

/-- The line of a connection, with its weight if one is shown. -/
structure Line where
  start : Float × Float
  stop : Float × Float
  color : String
  width : Float
  dash : List Float
  label : Option String

namespace Shape

/-- The text that is painted first of all. -/
def label? : List Shape → Option String
  | .text _ words _ _ :: _ => some words
  | _ => none

@[simp] theorem label?_text (style : Style) (words : String) (x y : Float) (shapes : List Shape) :
    label? (.text style words x y :: shapes) = some words := rfl

@[simp] theorem label?_stroked (style : Style) (path : List DrawCall) (shapes : List Shape) :
    label? (.stroked style path :: shapes) = none := rfl

@[simp] theorem label?_filled (style : Style) (path : List DrawCall) (shapes : List Shape) :
    label? (.filled style path :: shapes) = none := rfl

/-- The strokes from one point to another, each with the text that is painted next. -/
def lines : List Shape → List Line
  | [] => []
  | .stroked style [.moveTo x₁ y₁, .lineTo x₂ y₂] :: shapes =>
    ⟨(x₁, y₁), (x₂, y₂), style.stroke, style.lineWidth, style.dash, label? shapes⟩ :: lines shapes
  | _ :: shapes => lines shapes

end Shape

namespace Canvas

/-- How far apart two points are. -/
def apart (p q : Float × Float) : Float :=
  ((q.1 - p.1) * (q.1 - p.1) + (q.2 - p.2) * (q.2 - p.2)).sqrt

/-- The line of a record with these marks between two places, from rim to rim, unless they are too
close. -/
def lineBetween? (c : Canvas) (marks : EdgeMarks) (weight : Float) (p q : Float × Float) :
    Option Line :=
  let ux := (q.1 - p.1) / apart p q
  let uy := (q.2 - p.2) / apart p q
  if apart p q < 0.001 then none
  else
    some
      { start := (p.1 + ux * nodeRadius, p.2 + uy * nodeRadius)
        stop := (q.1 - ux * nodeRadius, q.2 - uy * nodeRadius)
        color := edgeColor marks
        width := if marks.highlight then 3.0 / c.view.k else 1.5 / c.view.k
        dash := if marks.highlight then [8.0 / c.view.k, 4.0 / c.view.k] else []
        label := if c.weighted then some (Decimal.text (marks.weight.getD weight)) else none }

/-- The line of a record between the places of its ends. -/
def line? (c : Canvas) (e : Edge) : Option Line :=
  match c.placeOf? e.source, c.placeOf? e.target with
  | some p, some q => c.lineBetween? (c.scene.edges.get e.id) e.weight p q
  | _, _ => none

end Canvas

/-- The calls draw these lines, whatever is painted after them, if that is no text; they leave the
dash empty, and what was saved. -/
structure Draws (calls : List DrawCall) (found : List Line) : Prop where
  dash : ∀ ctx : Context, ctx.style.dash = [] → (ctx.run calls).style.dash = []
  saved : ∀ ctx : Context, (ctx.run calls).saved = ctx.saved
  label? : ∀ (ctx : Context) (shapes : List Shape), Shape.label? shapes = none →
    Shape.label? (ctx.paint calls ++ shapes) = none
  lines : ∀ (ctx : Context) (shapes : List Shape), ctx.style.dash = [] →
    Shape.label? shapes = none →
      Shape.lines (ctx.paint calls ++ shapes) = found ++ Shape.lines shapes

namespace Draws

variable {calls more : List DrawCall} {found others : List Line}

theorem nil : Draws [] [] :=
  ⟨fun _ h => h, fun _ => rfl, fun _ _ h => h, fun _ _ _ _ => rfl⟩

theorem append (h : Draws calls found) (hmore : Draws more others) :
    Draws (calls ++ more) (found ++ others) where
  dash := by
    intro ctx hdash
    rw [Context.run_append]
    exact hmore.dash _ (h.dash ctx hdash)
  saved := by
    intro ctx
    rw [Context.run_append, hmore.saved, h.saved]
  label? := by
    intro ctx shapes hshapes
    rw [Context.paint_append, List.append_assoc]
    exact h.label? ctx _ (hmore.label? _ shapes hshapes)
  lines := by
    intro ctx shapes hdash hshapes
    rw [Context.paint_append, List.append_assoc,
      h.lines ctx _ hdash (hmore.label? _ shapes hshapes),
      hmore.lines _ shapes (h.dash ctx hdash) hshapes, List.append_assoc]

theorem flatMap {α : Type} {items : List α} {calls : α → List DrawCall} {found : α → List Line}
    (h : ∀ a ∈ items, Draws (calls a) (found a)) :
    Draws (items.flatMap calls) (items.flatMap found) := by
  induction items with
  | nil => exact nil
  | cons a items ih =>
    exact (h a List.mem_cons_self).append (ih fun b hb => h b (List.mem_cons_of_mem a hb))

theorem saveRestore (h : Draws calls found) : Draws (.save :: calls ++ [.restore]) found where
  dash := fun ctx hdash => by rw [Context.run_saveRestore h.saved]; exact hdash
  saved := fun ctx => by rw [Context.run_saveRestore h.saved]
  label? := by
    intro ctx shapes hshapes
    show Shape.label? ((ctx.step .save).paint (calls ++ [.restore]) ++ shapes) = none
    rw [Context.paint_append]
    exact (List.append_nil (Context.paint _ calls)).symm ▸ h.label? _ shapes hshapes
  lines := by
    intro ctx shapes hdash hshapes
    show Shape.lines ((ctx.step .save).paint (calls ++ [.restore]) ++ shapes) = _
    rw [Context.paint_append]
    exact (List.append_nil (Context.paint _ calls)).symm ▸ h.lines _ shapes hdash hshapes

end Draws

namespace Canvas

variable {c : Canvas} {g : Graph}

theorem nodeRadius_add_zero : nodeRadius + 0.0 = nodeRadius := by
  decide +kernel

theorem draws_edgeCalls (hdirected : c.directed = false) (l : Link) (p q : Float × Float) :
    Draws (c.edgeCalls l p.1 p.2 q.1 q.2)
      (c.lineBetween? (c.scene.edges.get l.id) l.weight p q).toList := by
  unfold edgeCalls lineBetween?
  show Draws (if apart p q < 0.001 then _ else _) _
  split
  · exact Draws.nil
  · unfold lineCalls arrowCalls weightCalls
    rw [hdirected]
    simp only [Bool.false_eq_true, if_false, nodeRadius_add_zero]
    -- Highlighted or not, with its weight or without: one stroke, and then the dash is taken off.
    cases (c.scene.edges.get l.id).highlight <;> cases c.weighted <;> constructor <;> intro ctx
    all_goals
      simp +contextual [Context.paint, Context.step, Context.shape?, Context.withStyle, Shape.lines,
        dashLengths, apart]

theorem draws_bodyCalls (c : Canvas) (b : Body) : Draws (c.bodyCalls b) [] := by
  unfold bodyCalls glowCalls
  dsimp only
  -- With a glow or without: no stroke from one point to another, and nothing is dashed.
  cases (c.scene.nodes.get b.id).visit <;> constructor <;> intro ctx
  all_goals
    simp +contextual [Context.paint, Context.step, Context.shape?, Context.withStyle, Shape.lines]

theorem draws_linkCalls (hshows : c.Shows g) (hdirected : g.directed = false) {e : Edge} {l : Link}
    (hlink : link? g.nodes e = some l) : Draws (c.linkCalls l) (c.line? e).toList := by
  obtain ⟨i, j, hi, hj, rfl⟩ := link?_eq_some_iff.mp hlink
  unfold linkCalls line?
  rw [hshows.pointOf?_eq_placeOf? hi, hshows.pointOf?_eq_placeOf? hj]
  cases c.placeOf? e.source with
  | none => exact Draws.nil
  | some p =>
    cases c.placeOf? e.target with
    | none => exact Draws.nil
    | some q => exact draws_edgeCalls (hshows.directed.trans hdirected) _ p q

/-! ## 3. The records of the drawn links -/

section

variable {l : Link} {ls : List Link} {seen : List String} {pair : String}

theorem firstOfPairs_cons_of_eq_none (hpair : l.pair = none) :
    firstOfPairs seen (l :: ls) = l :: firstOfPairs seen ls := by
  rw [firstOfPairs, hpair]

theorem firstOfPairs_cons_of_mem (hpair : l.pair = some pair) (hmem : pair ∈ seen) :
    firstOfPairs seen (l :: ls) = firstOfPairs seen ls := by
  rw [firstOfPairs, hpair]
  exact if_pos (List.contains_iff_mem.mpr hmem)

theorem firstOfPairs_cons_of_not_mem (hpair : l.pair = some pair) (hmem : pair ∉ seen) :
    firstOfPairs seen (l :: ls) = l :: firstOfPairs (pair :: seen) ls := by
  rw [firstOfPairs, hpair]
  exact if_neg fun h => hmem (List.contains_iff_mem.mp h)

end

/-- Of the records after some others those are drawn that no earlier one stands for. -/
theorem firstOfPairs_filterMap_link? (hg : g.Formed) {before after : List Edge}
    (hedges : g.edges = before ++ after) {seen : List String}
    (hseen : ∀ pair, pair ∈ seen ↔ ∃ e ∈ before, e.pair = some pair) :
    firstOfPairs seen (after.filterMap (link? g.nodes)) =
      (after.filter fun e => g.drawnFor e = e).filterMap (link? g.nodes) := by
  induction after generalizing before seen with
  | nil => rfl
  | cons e after ih =>
    have he : e ∈ g.edges := hedges ▸ List.mem_append_right before List.mem_cons_self
    obtain ⟨l, hlink, hsame⟩ := exists_link? hg he
    have hfirst := hg.drawnFor_eq_self_iff hedges
    have hnext : g.edges = (before ++ [e]) ++ after := by
      rw [hedges, List.append_assoc]
      rfl
    have hafter : ∀ pair, (∃ e' ∈ before ++ [e], e'.pair = some pair) ↔
        pair ∈ seen ∨ e.pair = some pair := by
      intro pair
      rw [hseen]
      simp only [List.mem_append, List.mem_singleton, or_and_right, exists_or, exists_eq_left]
    rw [List.filterMap_cons_some hlink]
    cases hpair : e.pair with
    | none =>
      have hself : g.drawnFor e = e := Graph.drawnFor_of_pair_eq_none hpair
      rw [firstOfPairs_cons_of_eq_none (hsame.trans hpair), List.filter_cons,
        if_pos (decide_eq_true hself), List.filterMap_cons_some hlink, ih hnext]
      intro other
      rw [hafter, hpair]
      exact ⟨Or.inl, fun h => h.elim id nofun⟩
    | some pair =>
      by_cases hmem : pair ∈ seen
      · have hother : g.drawnFor e ≠ e := by
          intro hself
          obtain ⟨e', he', hpair'⟩ := (hseen pair).mp hmem
          exact hfirst.mp hself pair hpair e' he' hpair'
        rw [firstOfPairs_cons_of_mem (hsame.trans hpair) hmem, List.filter_cons,
          decide_eq_false hother, if_neg Bool.false_ne_true, ih hnext]
        intro other
        rw [hafter, hpair, Option.some.injEq]
        exact ⟨Or.inl, fun h => h.elim id fun heq => heq ▸ hmem⟩
      · have hself : g.drawnFor e = e := by
          refine hfirst.mpr fun other hother e' he' hpair' => hmem ?_
          rw [hseen]
          exact ⟨e', he', hpair'.trans (hother.symm.trans hpair)⟩
        rw [firstOfPairs_cons_of_not_mem (hsame.trans hpair) hmem, List.filter_cons,
          if_pos (decide_eq_true hself), List.filterMap_cons_some hlink, ih hnext]
        intro other
        rw [hafter, hpair, Option.some.injEq, List.mem_cons, or_comm, eq_comm]

theorem draws_drawnLinks (hshows : c.Shows g) (hg : g.Formed) (hdirected : g.directed = false) :
    Draws (c.drawnLinks.flatMap c.linkCalls) (g.drawn.filterMap c.line?) := by
  have hlinks : c.drawnLinks = g.drawn.filterMap (link? g.nodes) := by
    unfold drawnLinks
    rw [hshows.directed, hdirected, if_neg Bool.false_ne_true, hshows.links]
    have hall : g.edges = [] ++ g.edges := rfl
    exact firstOfPairs_filterMap_link? hg hall fun pair => by simp
  rw [hlinks]
  have hrecords : ∀ e ∈ g.drawn, ∃ l, link? g.nodes e = some l := by
    intro e he
    obtain ⟨l, hlink, _⟩ := exists_link? hg (List.mem_filter.mp he).1
    exact ⟨l, hlink⟩
  generalize g.drawn = records at hrecords ⊢
  induction records with
  | nil => exact Draws.nil
  | cons e records ih =>
    obtain ⟨l, hl⟩ := hrecords e List.mem_cons_self
    have hrest := ih fun other hother => hrecords other (List.mem_cons_of_mem e hother)
    have hdraws := (draws_linkCalls hshows hdirected hl).append hrest
    rw [List.filterMap_cons_some hl, List.flatMap_cons]
    cases hline : c.line? e with
    | none =>
      rw [hline] at hdraws
      rw [List.filterMap_cons_none hline]
      exact hdraws
    | some line =>
      rw [hline] at hdraws
      rw [List.filterMap_cons_some hline]
      exact hdraws

/-- A picture of an undirected graph has the lines of its drawn records. -/
theorem draws_draw (hshows : c.Shows g) (hg : g.Formed) (hdirected : g.directed = false) :
    Draws c.draw (g.drawn.filterMap c.line?) := by
  have hbackground : Draws [.fillStyle "#1a1a2e", .fillRect 0.0 0.0 c.width c.height] [] :=
    ⟨fun _ h => h, fun _ => rfl, fun _ _ _ => rfl, fun _ _ _ _ => rfl⟩
  have hview : Draws [.translate c.view.x c.view.y, .scale c.view.k c.view.k] [] :=
    ⟨fun _ h => h, fun _ => rfl, fun _ _ h => h, fun _ _ _ _ => rfl⟩
  have hbodies : Draws (c.layout.bodies.flatMap c.bodyCalls) [] := by
    have hdraws := Draws.flatMap fun b (_ : b ∈ c.layout.bodies) => c.draws_bodyCalls b
    rw [List.flatMap_eq_nil_iff.mpr fun _ _ => rfl] at hdraws
    exact hdraws
  have hlinks := (draws_drawnLinks hshows hg hdirected).append hbodies
  have hcalls : c.draw = [.fillStyle "#1a1a2e", .fillRect 0.0 0.0 c.width c.height] ++
      (.save :: ([.translate c.view.x c.view.y, .scale c.view.k c.view.k] ++
        (c.drawnLinks.flatMap c.linkCalls ++ c.layout.bodies.flatMap c.bodyCalls)) ++
          [.restore]) := by
    simp only [draw, List.cons_append, List.nil_append, List.append_assoc]
  have hdraws := hbackground.append (hview.append hlinks).saveRestore
  rw [← hcalls, List.nil_append, List.nil_append, List.append_nil] at hdraws
  exact hdraws

/-! ## 4. Marks -/

theorem exists_places (hshows : c.Shows g) (hg : g.Formed) {e : Edge} (he : e ∈ g.edges) :
    ∃ p q, c.placeOf? e.source = some p ∧ c.placeOf? e.target = some q ∧
      (c.line? e = none ↔ apart p q < 0.001) := by
  have hformed := hg.records e he
  obtain ⟨p, hp⟩ := hshows.exists_placeOf? hformed.source
  obtain ⟨q, hq⟩ := hshows.exists_placeOf? hformed.target
  refine ⟨p, q, hp, hq, ?_⟩
  unfold line?
  rw [hp, hq]
  show (if apart p q < 0.001 then none else some _) = none ↔ _
  split
  · next hnear => exact iff_of_true rfl hnear
  · next hfar => exact iff_of_false nofun hfar

/-- What an instruction about a connection makes of its line. -/
def restyled (c : Canvas) (palette : Palette) : Instruction → Line → Line
  | .colorEdge _ _ color, line => { line with color := Color.drawable color }
  | .highlightEdge .., line =>
    { line with
      color := Color.drawable palette.highlight
      width := 3.0 / c.view.k
      dash := [8.0 / c.view.k, 4.0 / c.view.k] }
  | .unhighlightEdge .., line =>
    { line with color := "rgba(177, 177, 183, 0.8)", width := 1.5 / c.view.k, dash := [] }
  | .setEdgeWeight _ _ weight, line =>
    { line with label := if c.weighted then some (Decimal.text weight) else none }
  | _, line => line

theorem line?_onEdges {f : EdgeMarks → EdgeMarks} {F : Line → Line}
    (hf : ∀ marks, f (f marks) = f marks)
    (hline : ∀ marks weight p q,
      c.lineBetween? (f marks) weight p q = (c.lineBetween? marks weight p q).map F)
    (s : Scene) {ids : List String} {e : Edge} (hid : e.id ∈ ids) :
    (c.setScene (s.onEdges ids f)).line? e = ((c.setScene s).line? e).map F := by
  have hmarks : (s.onEdges ids f).edges.get e.id = f (s.edges.get e.id) := by
    rw [Marks.get, Scene.get?_edges_onEdges hf, if_pos hid]
    rfl
  unfold line?
  show (match c.placeOf? e.source, c.placeOf? e.target with
    | some p, some q => c.lineBetween? ((s.onEdges ids f).edges.get e.id) e.weight p q
    | _, _ => none) = Option.map F (match c.placeOf? e.source, c.placeOf? e.target with
    | some p, some q => c.lineBetween? (s.edges.get e.id) e.weight p q
    | _, _ => none)
  rw [hmarks]
  split
  · exact hline _ _ _ _
  · rfl

theorem line?_perform {instruction : Instruction} {s t : String} (habout : instruction.About s t)
    (palette : Palette) (scene : Scene) {e : Edge} (hid : e.id ∈ g.recordIds s t) :
    (c.setScene (scene.perform palette g instruction)).line? e =
      ((c.setScene scene).line? e).map (c.restyled palette instruction) := by
  cases habout
  all_goals
    refine line?_onEdges ?_ ?_ scene hid
    · exact fun _ => rfl
    · intro marks weight p q
      unfold lineBetween?
      split <;> rfl

/-- However an undirected graph came about, its picture has one line for each record without a pair
id and one for the first record with each pair id, in order, but for those whose ends are too
close.  The record that is drawn for a connection is one of those that an instruction about it
marks, so its line shows what the instruction says. -/
theorem drawn_lines_show_marks {start : Graph} {directed : Bool}
    (hstart : start = Graph.empty directed ∨ ∃ text, Graph.read text directed = .ok start)
    (edits : List Graph.Edit) (hdirected : (start.editAll edits).directed = false) :
    let g := start.editAll edits
    (∀ c, BuiltFrom g c →
      (∀ ctx : Context, ctx.style.dash = [] →
        Shape.lines (ctx.paint c.draw) = g.drawn.filterMap c.line? ∧
          (ctx.run c.draw).style.dash = []) ∧
      ∀ e ∈ g.edges, ∃ p q, c.placeOf? e.source = some p ∧ c.placeOf? e.target = some q ∧
        (c.line? e = none ↔ apart p q < 0.001)) ∧
    ∀ s t, g.recordIds s t ≠ [] → ∃ e, g.edge? s t = some e ∧ g.drawnFor e ∈ g.drawn ∧
      (g.drawnFor e).id ∈ g.recordIds s t ∧ (g.drawnFor e).joins s t = true ∧
      (∀ e', g.edge? t s = some e' → e.pair.isSome → e'.pair = e.pair →
        g.drawnFor e' = g.drawnFor e) ∧
      ∀ c, BuiltFrom g c → ∀ palette scene (instruction : Instruction), instruction.About s t →
        BuiltFrom g (c.setScene (scene.perform palette g instruction)) ∧
          (c.setScene (scene.perform palette g instruction)).line? (g.drawnFor e) =
            ((c.setScene scene).line? (g.drawnFor e)).map (c.restyled palette instruction) := by
  intro g
  have hg : g.Formed := by
    rcases hstart with rfl | ⟨text, hread⟩
    · exact (Graph.Formed.empty directed).editAll edits
    · exact (Graph.Formed.read hread).editAll edits
  constructor
  · intro c hc
    refine ⟨fun ctx hdash => ?_, fun e he => exists_places hc.shows hg he⟩
    have hdraws := draws_draw hc.shows hg hdirected
    have hlines := hdraws.lines ctx [] hdash rfl
    rw [List.append_nil] at hlines
    exact ⟨hlines.trans (List.append_nil _), hdraws.dash ctx hdash⟩
  · intro s t hids
    rw [ne_eq, Graph.recordIds_eq_nil_iff] at hids
    obtain ⟨e, hedge⟩ := Option.ne_none_iff_exists'.mp hids
    have he : e ∈ g.edges := (Graph.mem_of_edge?_eq_some hedge).1
    have hid := Graph.id_drawnFor_mem_recordIds hdirected hedge
    refine ⟨e, hedge, Graph.drawnFor_mem_drawn he, hid, hg.joins_drawnFor hedge,
      fun e' _ hpair hsame => Graph.drawnFor_eq_of_pair_eq he hpair hsame, ?_⟩
    intro c hc palette scene instruction habout
    exact ⟨.restyle _ c.weighted c.view c.width c.height c.flowTime hc,
      line?_perform habout palette scene hid⟩

/-- A connection lost the record one way while connections led one way, and was made again: the
record the other way was there before, so it is the one that is drawn for both. -/
theorem drawn_lines_show_marks_of_lost_half :
    let edits : List Graph.Edit := [.setDirected false, .connect "1" "2", .setDirected true,
      .disconnect "1" "2", .setDirected false, .connect "1" "2"]
    ∃ start, Graph.read "3 1\n0 1" true = .ok start ∧
      ∃ g, g = start.editAll edits ∧ g.directed = false ∧
      g.edges.map Edge.id = ["edge-0", "edge-2", "edge-1", "edge-3"] ∧
      g.recordIds "1" "2" = ["edge-1", "edge-2"] ∧
      ∃ one two, g.drawn = [one, two] ∧ one.id = "edge-0" ∧ two.id = "edge-2" ∧
        ∀ width height (ctx : Context), ctx.style.dash = [] →
          let c := Canvas.new g width height
          let red := c.setScene (Scene.empty.perform {} g (.colorEdge "1" "2" "red"))
          Shape.lines (ctx.paint red.draw) = [one, two].filterMap red.line? ∧
            red.line? two = (c.line? two).map fun line => { line with color := "red" } := by
  intro edits
  have hread : Graph.read "3 1\n0 1" true = .ok (Graph.ofEnds true 3 [(0, 1)]) := by
    decide +kernel
  refine ⟨_, hread, _, rfl, ?_⟩
  generalize hg : (Graph.ofEnds true 3 [(0, 1)]).editAll edits = g
  have hdirected : g.directed = false := by
    rw [← hg]
    decide +kernel
  have hids : g.recordIds "1" "2" = ["edge-1", "edge-2"] := by
    rw [← hg]
    decide +kernel
  have hdrawn : g.drawn =
      [⟨"edge-0", "0", "1", 0.0, none⟩, ⟨"edge-2", "2", "1", 0.0, some "1-2"⟩] := by
    rw [← hg]
    decide +kernel
  have hedge : g.edge? "1" "2" = some ⟨"edge-1", "1", "2", 0.0, some "1-2"⟩ := by
    rw [← hg]
    decide +kernel
  have hfirst : g.drawnFor ⟨"edge-1", "1", "2", 0.0, some "1-2"⟩ =
      ⟨"edge-2", "2", "1", 0.0, some "1-2"⟩ := by
    rw [← hg]
    decide +kernel
  have htheorem := drawn_lines_show_marks (Or.inr ⟨_, hread⟩) edits (hg ▸ hdirected)
  rw [hg] at htheorem
  obtain ⟨hpicture, hmarks⟩ := htheorem
  obtain ⟨e, he, _, _, _, _, hline⟩ := hmarks "1" "2" (hids ▸ nofun)
  rw [hedge] at he
  cases he
  refine ⟨hdirected, ?_, hids, _, _, hdrawn, rfl, rfl, ?_⟩
  · rw [← hg]
    decide +kernel
  · intro width height ctx hdash c red
    obtain ⟨hbuilt, hred⟩ :=
      hline c (.new width height) {} Scene.empty _ (.colorEdge "red")
    rw [hfirst] at hred
    exact ⟨hdrawn ▸ ((hpicture red hbuilt).1 ctx hdash).1, hred⟩

end Canvas

end GraphReplay
