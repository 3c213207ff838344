import GraphReplay.Proofs.Canvas.Lines

/-!
# Frames

A canvas is drawn again and again on the same context, so a picture must not depend on what the
picture before left behind.  Drawing saves the style and restores it, takes every dash off again,
and begins a path for whatever it strokes or fills (`draw_keeps_style`): of a picture nothing stays
but the color of fills, which the next picture sets before all else.
-/

namespace GraphReplay

/-! ## 1. Paths -/

namespace DrawCall

/-- The call adds a piece to the path. -/
@[simp]
def isPiece : DrawCall → Bool
  | moveTo .. | lineTo .. | closePath | arc .. => true
  | _ => false

/-- The call strokes or fills the path. -/
@[simp]
def isPainting : DrawCall → Bool
  | stroke | fill => true
  | _ => false

/-- The call saves or restores the style. -/
@[simp]
def isStacking : DrawCall → Bool
  | save | restore => true
  | _ => false

/-- The call leaves no stroke, and leaves dashes and the stack of styles alone. -/
@[simp]
def isQuiet : DrawCall → Bool
  | stroke | setLineDash .. | save | restore => false
  | _ => true

/-- When these calls have been made, `call` finds a path of its own: a path was begun, it got these
pieces, and since then nothing was done with it, unless it was filled and is stroked now. -/
structure FindsPath (call : DrawCall) (before pieces : List DrawCall) : Prop where
  ne_nil : pieces ≠ []
  isPiece : ∀ piece ∈ pieces, piece.isPiece = true
  begun : ∃ earlier others, before = earlier ++ .beginPath :: (pieces ++ others) ∧
    ∀ other ∈ others, other ≠ .beginPath ∧ other.isPiece = false ∧ other ≠ .stroke ∧
      (call = .fill → other ≠ .fill)

theorem FindsPath.append {call : DrawCall} {before pieces : List DrawCall}
    (h : call.FindsPath before pieces) (first : List DrawCall) :
    call.FindsPath (first ++ before) pieces where
  ne_nil := h.ne_nil
  isPiece := h.isPiece
  begun := by
    obtain ⟨earlier, others, rfl, hothers⟩ := h.begun
    exact ⟨first ++ earlier, others, (List.append_assoc _ _ _).symm, hothers⟩

end DrawCall

namespace Context

variable {ctx : Context} {calls : List DrawCall} {call : DrawCall}

theorem path_step_of_isPiece (h : call.isPiece = true) (ctx : Context) :
    (ctx.step call).path = ctx.path ++ [call] := by
  cases call <;> first | rfl | exact nomatch h

theorem path_step_of_not_isPiece (hbegin : call ≠ .beginPath) (h : call.isPiece = false)
    (ctx : Context) : (ctx.step call).path = ctx.path := by
  cases call with
  | beginPath => exact absurd rfl hbegin
  | restore =>
    obtain ⟨style, saved, path⟩ := ctx
    cases saved <;> rfl
  | _ => first | rfl | exact nomatch h

theorem saved_step_of_not_isStacking (h : call.isStacking = false) (ctx : Context) :
    (ctx.step call).saved = ctx.saved := by
  cases call <;> first | rfl | exact nomatch h

theorem dash_step_of_isQuiet (h : call.isQuiet = true) (ctx : Context) :
    (ctx.step call).style.dash = ctx.style.dash := by
  cases call <;> first | rfl | exact nomatch h

theorem path_run_pieces (h : ∀ piece ∈ calls, piece.isPiece = true) (ctx : Context) :
    (ctx.run calls).path = ctx.path ++ calls := by
  induction calls generalizing ctx with
  | nil => exact (List.append_nil _).symm
  | cons call calls ih =>
    rw [run_cons, ih fun piece hpiece => h piece (List.mem_cons_of_mem call hpiece),
      path_step_of_isPiece (h call List.mem_cons_self), List.append_assoc]
    rfl

theorem path_run_others (h : ∀ other ∈ calls, other ≠ .beginPath ∧ other.isPiece = false)
    (ctx : Context) : (ctx.run calls).path = ctx.path := by
  induction calls generalizing ctx with
  | nil => rfl
  | cons call calls ih =>
    obtain ⟨hbegin, hpiece⟩ := h call List.mem_cons_self
    rw [run_cons, ih fun other hother => h other (List.mem_cons_of_mem call hother),
      path_step_of_not_isPiece hbegin hpiece]

theorem saved_run (h : ∀ call ∈ calls, call.isStacking = false) (ctx : Context) :
    (ctx.run calls).saved = ctx.saved := by
  induction calls generalizing ctx with
  | nil => rfl
  | cons call calls ih =>
    rw [run_cons, ih fun other hother => h other (List.mem_cons_of_mem call hother),
      saved_step_of_not_isStacking (h call List.mem_cons_self)]

theorem dash_run (h : ∀ call ∈ calls, call.isQuiet = true) (ctx : Context) :
    (ctx.run calls).style.dash = ctx.style.dash := by
  induction calls generalizing ctx with
  | nil => rfl
  | cons call calls ih =>
    rw [run_cons, ih fun other hother => h other (List.mem_cons_of_mem call hother),
      dash_step_of_isQuiet (h call List.mem_cons_self)]

/-- Whatever the path was before, a call that finds a path of its own works on that. -/
theorem path_run_of_findsPath {before pieces : List DrawCall} (h : call.FindsPath before pieces)
    (ctx : Context) : (ctx.run before).path = pieces := by
  obtain ⟨earlier, others, rfl, hothers⟩ := h.begun
  rw [run_append, run_cons, run_append,
    path_run_others fun other hother => ⟨(hothers other hother).1, (hothers other hother).2.1⟩,
    path_run_pieces h.isPiece]
  rfl

theorem style_step_congr {ctx ctx' : Context} (h : call.isStacking = false)
    (hstyle : ctx.style = ctx'.style) : (ctx.step call).style = (ctx'.step call).style := by
  cases call with
  | save | restore => exact nomatch h
  | _ => simp only [step, withStyle, hstyle]

theorem shape?_congr {ctx ctx' : Context} (hstyle : ctx.style = ctx'.style)
    (hpath : call.isPainting = true → ctx.path = ctx'.path) :
    ctx.shape? call = ctx'.shape? call := by
  cases call with
  | stroke | fill => rw [shape?, shape?, hstyle, hpath rfl]
  | fillRect | fillText => rw [shape?, shape?, hstyle]
  | _ => rfl

end Context

/-! ## 2. Calls that leave a tidy context -/

/-- Every stroke and fill of these calls finds a path of its own, begun by one of these calls. -/
inductive Fresh : List DrawCall → Prop where
  | nil : Fresh []
  | concat {calls : List DrawCall} {call : DrawCall} (h : Fresh calls)
    (hcall : call.isPainting = true → ∃ pieces, call.FindsPath calls pieces) :
    Fresh (calls ++ [call])

namespace Fresh

variable {calls more : List DrawCall} {call : DrawCall}

theorem append (h : Fresh calls) (hmore : Fresh more) : Fresh (calls ++ more) := by
  induction hmore with
  | nil => exact (List.append_nil calls).symm ▸ h
  | concat _ hcall ih =>
    rw [← List.append_assoc]
    refine ih.concat fun hpainting => ?_
    obtain ⟨pieces, hpath⟩ := hcall hpainting
    exact ⟨pieces, hpath.append calls⟩

theorem append_unpainted (h : Fresh calls) (more : List DrawCall)
    (hmore : ∀ call ∈ more, call.isPainting = false) : Fresh (calls ++ more) := by
  induction more generalizing calls with
  | nil => exact (List.append_nil calls).symm ▸ h
  | cons call more ih =>
    have hcall := hmore call List.mem_cons_self
    have hconcat : Fresh (calls ++ [call]) := h.concat fun hpainting =>
      absurd hpainting (Bool.eq_false_iff.mp hcall)
    rw [List.append_cons]
    exact ih hconcat fun other hother => hmore other (List.mem_cons_of_mem call hother)

theorem of_unpainted (h : ∀ call ∈ calls, call.isPainting = false) : Fresh calls :=
  nil.append_unpainted calls h

/-- A path that is begun, gets these pieces and is painted, perhaps after other settings. -/
theorem figure (h : Fresh calls) (pieces others : List DrawCall) (call : DrawCall)
    (hne : pieces ≠ []) (hpieces : ∀ piece ∈ pieces, piece.isPiece = true)
    (hothers : ∀ other ∈ others,
      other ≠ .beginPath ∧ other.isPiece = false ∧ other.isPainting = false) :
    Fresh (calls ++ .beginPath :: (pieces ++ others) ++ [call]) := by
  have hunpainted : ∀ call ∈ .beginPath :: (pieces ++ others), call.isPainting = false := by
    intro call hcall
    rcases List.mem_cons.mp hcall with rfl | hcall
    · rfl
    · rcases List.mem_append.mp hcall with hpiece | hother
      · have hkind := hpieces call hpiece
        cases call <;> first | rfl | exact nomatch hkind
      · exact (hothers call hother).2.2
  refine (h.append_unpainted _ hunpainted).concat fun _ =>
    ⟨pieces, hne, hpieces, calls, others, rfl, ?_⟩
  intro other hother
  obtain ⟨hbegin, hpiece, hpainting⟩ := hothers other hother
  refine ⟨hbegin, hpiece, ?_, fun _ => ?_⟩
  · rintro rfl
    exact nomatch hpainting
  · rintro rfl
    exact nomatch hpainting

theorem findsPath (h : Fresh calls) {before after : List DrawCall}
    (hsplit : calls = before ++ call :: after) (hpainting : call.isPainting = true) :
    ∃ pieces, call.FindsPath before pieces := by
  induction h generalizing after with
  | nil => exact absurd hsplit (by simp)
  | concat _ hcall ih =>
    rcases List.eq_nil_or_concat after with rfl | ⟨rest, last, rfl⟩
    · obtain ⟨rfl, hlast⟩ := List.append_inj' hsplit rfl
      cases hlast
      exact hcall hpainting
    · rw [List.concat_eq_append, ← List.cons_append, ← List.append_assoc] at hsplit
      exact ih (List.append_inj' hsplit rfl).1

/-- Shapes whose paths are begun for them depend on the style alone. -/
theorem paint_congr (h : Fresh calls) (hunstacked : ∀ call ∈ calls, call.isStacking = false)
    {ctx ctx' : Context} (hstyle : ctx.style = ctx'.style) :
    ctx.paint calls = ctx'.paint calls ∧ (ctx.run calls).style = (ctx'.run calls).style := by
  induction h with
  | nil => exact ⟨rfl, hstyle⟩
  | @concat calls call _ hcall ih =>
    obtain ⟨hpaint, hrun⟩ := ih fun other hother => hunstacked other (List.mem_append_left _ hother)
    have hshape : (ctx.run calls).shape? call = (ctx'.run calls).shape? call := by
      refine Context.shape?_congr hrun fun hpainting => ?_
      obtain ⟨pieces, hpath⟩ := hcall hpainting
      rw [Context.path_run_of_findsPath hpath, Context.path_run_of_findsPath hpath]
    rw [Context.paint_append, Context.paint_append, hpaint, Context.run_append, Context.run_append]
    constructor
    · show _ ++ ((Context.shape? _ call).toList ++ []) = _ ++ ((Context.shape? _ call).toList ++ [])
      rw [hshape]
    · exact Context.style_step_congr (hunstacked call List.mem_concat_self) hrun

end Fresh

/-- What the strokes of these shapes look like: the dash and the path. -/
def Shape.stroke? : Shape → Option (List Float × List DrawCall)
  | .stroked style path => some (style.dash, path)
  | .filled .. | .rectangle .. | .text .. => none

theorem Context.strokes_paint {calls : List DrawCall} (h : ∀ call ∈ calls, call.isQuiet = true)
    (ctx : Context) : (ctx.paint calls).filterMap Shape.stroke? = [] := by
  induction calls generalizing ctx with
  | nil => rfl
  | cons call calls ih =>
    have hquiet := h call List.mem_cons_self
    have hnone : (ctx.shape? call).toList.filterMap Shape.stroke? = [] := by
      cases call <;> first | rfl | exact nomatch hquiet
    rw [paint, List.filterMap_append, hnone,
      ih fun other hother => h other (List.mem_cons_of_mem call hother)]
    rfl

/-- The calls leave the stack of styles alone, begin a path for whatever they stroke or fill and
take every dash off again; these are their strokes if there was no dash before. -/
structure Tidy (calls : List DrawCall) (strokes : List (List Float × List DrawCall)) : Prop where
  unstacked : ∀ call ∈ calls, call.isStacking = false
  fresh : Fresh calls
  dash : ∀ ctx : Context, ctx.style.dash = [] → (ctx.run calls).style.dash = []
  strokes : ∀ ctx : Context, ctx.style.dash = [] →
    (ctx.paint calls).filterMap Shape.stroke? = strokes

namespace Tidy

variable {calls more : List DrawCall} {strokes others : List (List Float × List DrawCall)}

theorem nil : Tidy [] [] :=
  ⟨nofun, .nil, fun _ h => h, fun _ _ => rfl⟩

theorem append (h : Tidy calls strokes) (hmore : Tidy more others) :
    Tidy (calls ++ more) (strokes ++ others) where
  unstacked := fun call hcall =>
    (List.mem_append.mp hcall).elim (h.unstacked call) (hmore.unstacked call)
  fresh := h.fresh.append hmore.fresh
  dash := by
    intro ctx hdash
    rw [Context.run_append]
    exact hmore.dash _ (h.dash ctx hdash)
  strokes := by
    intro ctx hdash
    rw [Context.paint_append, List.filterMap_append, h.strokes ctx hdash,
      hmore.strokes _ (h.dash ctx hdash)]

theorem of_quiet (hfresh : Fresh calls) (hquiet : ∀ call ∈ calls, call.isQuiet = true) :
    Tidy calls [] where
  unstacked := by
    intro call hcall
    have hkind := hquiet call hcall
    cases call <;> first | rfl | exact nomatch hkind
  fresh := hfresh
  dash := fun ctx hdash => (Context.dash_run hquiet ctx).trans hdash
  strokes := fun ctx _ => Context.strokes_paint hquiet ctx

theorem flatMap {α : Type} {items : List α} {calls : α → List DrawCall}
    {strokes : α → List (List Float × List DrawCall)}
    (h : ∀ a ∈ items, Tidy (calls a) (strokes a)) :
    Tidy (items.flatMap calls) (items.flatMap strokes) := by
  induction items with
  | nil => exact nil
  | cons a items ih =>
    exact (h a List.mem_cons_self).append (ih fun b hb => h b (List.mem_cons_of_mem a hb))

theorem saved (h : Tidy calls strokes) (ctx : Context) : (ctx.run calls).saved = ctx.saved :=
  Context.saved_run h.unstacked ctx

theorem paint_saveRestore (h : Tidy calls strokes) (ctx : Context) :
    ctx.paint (.save :: calls ++ [.restore]) = ctx.paint calls := by
  show (ctx.step .save).paint (calls ++ [.restore]) = _
  rw [Context.paint_append]
  show (ctx.step .save).paint calls ++ [] = _
  rw [List.append_nil]
  have hstyle : (ctx.step .save).style = ctx.style := rfl
  exact (h.fresh.paint_congr h.unstacked hstyle).1

/-- Between a save and its restore one style more is saved than before, and the restore takes that
one. -/
theorem saved_of_split (h : Tidy calls strokes) {first before after : List DrawCall}
    (hfirst : ∀ call ∈ first, call.isStacking = false)
    (hsplit : first ++ (.save :: calls ++ [.restore]) = before ++ after) (ctx : Context) :
    ∃ above, (ctx.run before).saved = above ++ ctx.saved ∧
      (after.head? = some .restore → above ≠ []) := by
  rcases List.append_eq_append_iff.mp hsplit with ⟨most, rfl, hrest⟩ | ⟨rest, rfl, rfl⟩
  · have hsaved : (ctx.run first).saved = ctx.saved := Context.saved_run hfirst ctx
    rw [Context.run_append]
    match most with
    | [] =>
      cases hrest
      exact ⟨[], hsaved, nofun⟩
    | head :: inner =>
      obtain ⟨rfl, htail⟩ := List.cons.inj hrest
      have hinner : calls ++ [.restore] = inner ++ after := htail
      rcases List.eq_nil_or_concat after with rfl | ⟨others, last, rfl⟩
      · rw [List.append_nil] at hinner
        subst hinner
        have hall := Context.run_saveRestore h.saved (ctx.run first)
        refine ⟨[], ?_, nofun⟩
        rw [← List.cons_append, hall]
        exact hsaved
      · -- The restore is still to come.
        rw [List.concat_eq_append, ← List.append_assoc] at hinner
        obtain ⟨rfl, _⟩ := List.append_inj' hinner rfl
        have hmade : ∀ call ∈ inner, call.isStacking = false := fun call hcall =>
          h.unstacked call (List.mem_append_left others hcall)
        refine ⟨[(ctx.run first).style], ?_, fun _ => List.cons_ne_nil _ _⟩
        rw [Context.run_cons, Context.saved_run hmade, List.singleton_append, ← hsaved]
        rfl
  · -- Nothing is saved yet, and the next call is no restore.
    have hbefore : ∀ call ∈ before, call.isStacking = false := fun call hcall =>
      hfirst call (List.mem_append_left rest hcall)
    refine ⟨[], Context.saved_run hbefore ctx, fun hnext => ?_⟩
    cases rest with
    | nil => exact nomatch hnext
    | cons call rest =>
      obtain rfl : call = .restore := Option.some.inj hnext
      exact nomatch hfirst .restore (List.mem_append_right before List.mem_cons_self)

end Tidy

/-! ## 3. Edges and nodes -/

namespace Canvas

variable {c : Canvas}

/-- The dash of an edge with these marks. -/
def dashOf (c : Canvas) (marks : EdgeMarks) : List Float :=
  if marks.highlight then [8.0 / c.view.k, 4.0 / c.view.k] else []

/-- The stroke of an edge, unless it has no ends or they are too close. -/
def edgeStroke? (c : Canvas) (l : Link) : Option (List Float × List DrawCall) :=
  match c.pointOf? l.source, c.pointOf? l.target with
  | some p, some q =>
    let ux := (q.1 - p.1) / apart p q
    let uy := (q.2 - p.2) / apart p q
    let head := if c.directed then 8.0 / c.view.k else 0.0
    if apart p q < 0.001 then none
    else
      some (c.dashOf (c.scene.edges.get l.id),
        [.moveTo (p.1 + ux * nodeRadius) (p.2 + uy * nodeRadius),
          .lineTo (q.1 - ux * (nodeRadius + head)) (q.2 - uy * (nodeRadius + head))])
  | _, _ => none

/-- The stroke of the ring of a node. -/
def ringStroke (b : Body) : List Float × List DrawCall :=
  ([], [.arc b.position.x.toFloat b.position.y.toFloat nodeRadius 0.0 fullCircle])

theorem dash_edgeStroke? {l : Link} {stroke : List Float × List DrawCall}
    (h : c.edgeStroke? l = some stroke) : stroke.1 = c.dashOf (c.scene.edges.get l.id) := by
  unfold edgeStroke? at h
  split at h
  · dsimp only at h
    split at h
    · exact nomatch h
    · cases h
      rfl
  · exact nomatch h

theorem tidy_lineCalls (c : Canvas) (marks : EdgeMarks) (x₁ y₁ x₂ y₂ ux uy : Float) :
    Tidy (c.lineCalls marks x₁ y₁ x₂ y₂ ux uy)
      [(c.dashOf marks, [.moveTo (x₁ + ux * nodeRadius) (y₁ + uy * nodeRadius),
        .lineTo (x₂ - ux * (nodeRadius + if c.directed then 8.0 / c.view.k else 0.0))
          (y₂ - uy * (nodeRadius + if c.directed then 8.0 / c.view.k else 0.0))])] := by
  unfold lineCalls
  dsimp only
  generalize (if c.directed then 8.0 / c.view.k else 0.0 : Float) = head
  constructor
  case unstacked =>
    cases marks.highlight <;> simp
  case fresh =>
    have hsettings : Fresh ([.strokeStyle (edgeColor marks),
        .lineWidth (if marks.highlight then 3.0 / c.view.k else 1.5 / c.view.k)] ++
        if marks.highlight then
          [.setLineDash [c.dashLengths.1, c.dashLengths.2], .lineDashOffset c.dashOffset]
        else []) := by
      apply Fresh.of_unpainted
      cases marks.highlight <;> simp
    have hstroke := hsettings.figure
      [.moveTo (x₁ + ux * nodeRadius) (y₁ + uy * nodeRadius),
        .lineTo (x₂ - ux * (nodeRadius + head)) (y₂ - uy * (nodeRadius + head))] [] .stroke
      (by simp) (by simp) (by simp)
    have hundashed := hstroke.append_unpainted [.setLineDash []] (by simp)
    simpa using hundashed
  case dash =>
    cases marks.highlight <;> simp [Context.step, Context.withStyle]
  case strokes =>
    intro ctx hdash
    unfold dashOf
    cases marks.highlight <;>
      simp [Context.paint, Context.step, Context.shape?, Context.withStyle, Shape.stroke?, hdash,
        dashLengths]

theorem tidy_arrowCalls (c : Canvas) (marks : EdgeMarks) (x₂ y₂ ux uy : Float) :
    Tidy (c.arrowCalls marks x₂ y₂ ux uy) [] := by
  unfold arrowCalls
  split
  · have hcolor : Fresh [.fillStyle (edgeColor marks)] := Fresh.of_unpainted (by simp)
    refine Tidy.of_quiet ?_ (by simp)
    exact hcolor.figure [.moveTo _ _, .lineTo _ _, .lineTo _ _, .closePath] [] .fill (by simp)
      (by simp) (by simp)
  · exact Tidy.nil

theorem tidy_weightCalls (c : Canvas) (marks : EdgeMarks) (weight x₁ y₁ x₂ y₂ : Float) :
    Tidy (c.weightCalls marks weight x₁ y₁ x₂ y₂) [] := by
  unfold weightCalls
  split
  · exact Tidy.of_quiet (Fresh.of_unpainted (by simp)) (by simp)
  · exact Tidy.nil

theorem tidy_glowCalls (marks : NodeMarks) (x y : Float) : Tidy (glowCalls marks x y) [] := by
  unfold glowCalls
  split
  · have hgradient : Fresh [.radialGradient x y (nodeRadius * 0.5) x y (nodeRadius * 2.2),
        .addColorStop 0.0 "rgba(255, 0, 114, 0.55)", .addColorStop 1.0 "rgba(255, 0, 114, 0)"] :=
      Fresh.of_unpainted (by simp)
    refine Tidy.of_quiet ?_ (by simp)
    exact hgradient.figure [.arc _ _ _ _ _] [.fillGradient] .fill (by simp) (by simp) (by simp)
  · exact Tidy.nil

theorem tidy_bodyCalls (c : Canvas) (b : Body) :
    Tidy (c.bodyCalls b) [ringStroke b] := by
  unfold bodyCalls
  dsimp only
  rw [← List.nil_append [ringStroke b]]
  refine (tidy_glowCalls _ _ _).append ?_
  constructor
  case unstacked => simp
  case fresh =>
    -- One path for the disc and its ring: it is filled and then stroked.
    let disc : DrawCall := .arc b.position.x.toFloat b.position.y.toFloat nodeRadius 0.0 fullCircle
    have hpieces : ∀ piece ∈ [disc], piece.isPiece = true := by simp [disc]
    have hring : ∀ fill color width, Fresh [.beginPath, disc, .fillStyle fill, .fill,
        .strokeStyle color, .lineWidth width, .stroke] := by
      intro fill color width
      have hdisc := Fresh.nil.figure [disc] [.fillStyle fill] .fill (by simp) hpieces (by simp)
      have hstyled := hdisc.append_unpainted [.strokeStyle color, .lineWidth width] (by simp)
      refine hstyled.concat fun _ => ⟨[disc], by simp, hpieces, [],
        [.fillStyle fill, .fill, .strokeStyle color, .lineWidth width], rfl, ?_⟩
      simp
    exact (hring _ _ _).append_unpainted
      [.fillStyle _, .font _, .textAlign _, .textBaseline _, .fillText _ _ _]
      (by simp)
  case dash => simp [Context.step, Context.withStyle]
  case strokes =>
    intro ctx hdash
    simp [Context.paint, Context.step, Context.shape?, Context.withStyle, Shape.stroke?,
      List.filterMap_cons, hdash, ringStroke]

theorem tidy_linkCalls (c : Canvas) (l : Link) : Tidy (c.linkCalls l) (c.edgeStroke? l).toList := by
  unfold linkCalls edgeStroke?
  cases c.pointOf? l.source with
  | none => exact Tidy.nil
  | some p =>
    cases c.pointOf? l.target with
    | none => exact Tidy.nil
    | some q =>
      show Tidy (c.edgeCalls l p.1 p.2 q.1 q.2) (if apart p q < 0.001 then none else _).toList
      unfold edgeCalls
      show Tidy (if apart p q < 0.001 then [] else _) _
      split
      · exact Tidy.nil
      · exact ((c.tidy_lineCalls _ _ _ _ _ _ _).append (c.tidy_arrowCalls _ _ _ _ _)).append
          (c.tidy_weightCalls _ _ _ _ _ _)

/-! ## 4. Pictures -/

/-- What is drawn in the coordinates of the view. -/
def worldCalls (c : Canvas) : List DrawCall :=
  [.translate c.view.x c.view.y, .scale c.view.k c.view.k] ++
    (c.drawnLinks.flatMap c.linkCalls ++ c.layout.bodies.flatMap c.bodyCalls)

theorem draw_eq (c : Canvas) :
    c.draw = [.fillStyle "#1a1a2e", .fillRect 0.0 0.0 c.width c.height] ++
      (.save :: c.worldCalls ++ [.restore]) := by
  simp only [draw, worldCalls, List.cons_append, List.nil_append, List.append_assoc]

/-- The strokes of a picture: one for each edge that is drawn, and then one for each node. -/
theorem tidy_worldCalls (c : Canvas) :
    Tidy c.worldCalls (c.drawnLinks.filterMap c.edgeStroke? ++ c.layout.bodies.map ringStroke) := by
  have hview : Tidy [.translate c.view.x c.view.y, .scale c.view.k c.view.k] [] :=
    Tidy.of_quiet (Fresh.of_unpainted (by simp)) (by simp)
  have hlinks := Tidy.flatMap fun l (_ : l ∈ c.drawnLinks) => c.tidy_linkCalls l
  have hbodies := Tidy.flatMap fun b (_ : b ∈ c.layout.bodies) => c.tidy_bodyCalls b
  rw [List.filterMap_eq_flatMap_toList, List.map_eq_flatMap]
  exact hview.append (hlinks.append hbodies)

theorem style_run_draw (c : Canvas) (ctx : Context) :
    (ctx.run c.draw).saved = ctx.saved ∧
      (ctx.run c.draw).style = { ctx.style with fill := some "#1a1a2e" } := by
  rw [c.draw_eq, Context.run_append, Context.run_saveRestore c.tidy_worldCalls.saved]
  exact ⟨rfl, rfl⟩

theorem style_run_frames (frames : List Canvas) (ctx : Context) :
    ∃ fill, (ctx.run (frames.flatMap draw)).style = { ctx.style with fill } := by
  induction frames generalizing ctx with
  | nil => exact ⟨ctx.style.fill, rfl⟩
  | cons c frames ih =>
    obtain ⟨fill, hfill⟩ := ih (ctx.run c.draw)
    rw [(c.style_run_draw ctx).2] at hfill
    rw [List.flatMap_cons, Context.run_append]
    exact ⟨fill, hfill⟩

theorem paint_draw (c : Canvas) (ctx : Context) :
    ctx.paint c.draw =
      .rectangle { ctx.style with fill := some "#1a1a2e" } 0.0 0.0 c.width c.height ::
        (ctx.step (.fillStyle "#1a1a2e")).paint c.worldCalls := by
  rw [c.draw_eq, Context.paint_append, c.tidy_worldCalls.paint_saveRestore]
  rfl

/-- Drawing leaves nothing behind that another picture could show.  Saves and restores are balanced,
and no restore reaches below the styles that were saved before; every stroke is that of an edge, in
dashes if it is highlighted and in one piece otherwise, or of the ring of a node, in one piece;
every stroke and fill is of a path that was begun for it; and in the end the saved styles and the
style are those from before, but for the color of fills, so after any pictures this one is painted
as it would have been at first. -/
theorem draw_keeps_style (c : Canvas) (ctx : Context) (hdash : ctx.style.dash = []) :
    (c.draw.count .save = c.draw.count .restore ∧
      ∀ before after, c.draw = before ++ after → ∃ above,
        (ctx.run before).saved = above ++ ctx.saved ∧
          (after.head? = some .restore → above ≠ [])) ∧
    (ctx.paint c.draw).filterMap Shape.stroke? =
      c.drawnLinks.filterMap c.edgeStroke? ++ c.layout.bodies.map ringStroke ∧
    (∀ before call after, c.draw = before ++ call :: after → call.isPainting = true →
      ∃ pieces, call.FindsPath before pieces ∧ (ctx.run before).path = pieces) ∧
    (ctx.run c.draw).saved = ctx.saved ∧
    (ctx.run c.draw).style = { ctx.style with fill := some "#1a1a2e" } ∧
    ∀ frames : List Canvas, (ctx.run (frames.flatMap draw)).paint c.draw = ctx.paint c.draw := by
  have hworld := c.tidy_worldCalls
  have hfresh : Fresh c.draw := by
    have hbackground : Fresh [.fillStyle "#1a1a2e", .fillRect 0.0 0.0 c.width c.height, .save] :=
      Fresh.of_unpainted (by simp)
    have hcalls := (hbackground.append hworld.fresh).append_unpainted [.restore] (by simp)
    rw [c.draw_eq]
    exact hcalls
  refine ⟨⟨?_, ?_⟩, ?_, ?_, (c.style_run_draw ctx).1, (c.style_run_draw ctx).2, ?_⟩
  · have hnone : ∀ call : DrawCall, call.isStacking = true → c.worldCalls.count call = 0 := by
      intro call hcall
      refine List.count_eq_zero.mpr fun hmem => ?_
      exact Bool.false_ne_true ((hworld.unstacked call hmem).symm.trans hcall)
    rw [c.draw_eq]
    simp [hnone .save rfl, hnone .restore rfl]
  · intro before after hsplit
    rw [c.draw_eq] at hsplit
    exact hworld.saved_of_split (by simp) hsplit ctx
  · rw [c.paint_draw, List.filterMap_cons]
    exact hworld.strokes _ hdash
  · intro before call after hsplit hpainting
    obtain ⟨pieces, hpath⟩ := hfresh.findsPath hsplit hpainting
    exact ⟨pieces, hpath, Context.path_run_of_findsPath hpath ctx⟩
  · intro frames
    obtain ⟨fill, hfill⟩ := style_run_frames frames ctx
    have hstyle : ((ctx.run (frames.flatMap draw)).step (.fillStyle "#1a1a2e")).style =
        (ctx.step (.fillStyle "#1a1a2e")).style := by
      show { (ctx.run (frames.flatMap draw)).style with fill := some "#1a1a2e" } = _
      rw [hfill]
      rfl
    rw [c.paint_draw, c.paint_draw, hfill,
      (hworld.fresh.paint_congr hworld.unstacked hstyle).1]

/-- A highlighted connection and a node with the visit pointer, on a context that was left with a
saved style and in the middle of a path. -/
theorem draw_keeps_style_of_highlighted_edge :
    let graph := Graph.ofEnds false 2 [(0, 1)]
    let trace := [Command.read "highlightEdge 1 0", Command.read "visit 1"]
    let c := (Canvas.new graph 800.0 600.0).setScene (Scene.replay {} graph trace)
    let link : Link := ⟨"edge-0", 0, 1, 0.0, some "0-1"⟩
    let style : Style :=
      ⟨(0.0, 0.0), (1.0, 1.0), none, "black", 1.0, [], 0.0, "10px sans-serif", "start",
        "alphabetic"⟩
    let ctx : Context := ⟨style, [style], [.lineTo 1.0 1.0]⟩
    (ctx.paint c.draw).filterMap Shape.stroke? =
      (c.edgeStroke? link).toList ++ c.layout.bodies.map ringStroke ∧
    (∀ stroke, c.edgeStroke? link = some stroke → stroke.1 = [8.0 / 1.0, 4.0 / 1.0]) ∧
    (ctx.run c.draw).saved = [style] ∧
    (ctx.run c.draw).style = { style with fill := some "#1a1a2e" } ∧
    (ctx.run (c.draw ++ c.draw)).paint c.draw = ctx.paint c.draw := by
  intro graph trace c link style ctx
  obtain ⟨_, hstrokes, _, hsaved, hstyle, hframes⟩ := draw_keeps_style c ctx rfl
  have hlinks : c.drawnLinks = [link] := by rfl
  have hone : [link].filterMap c.edgeStroke? = (c.edgeStroke? link).toList := by
    rw [List.filterMap_eq_flatMap_toList, List.flatMap_singleton]
  have hmarks : ((Scene.replay {} graph trace).edges.get "edge-0").highlight = true := by
    decide +kernel
  have htwice := hframes [c, c]
  rw [hlinks, hone] at hstrokes
  rw [List.flatMap_cons, List.flatMap_singleton] at htwice
  refine ⟨hstrokes, fun stroke hstroke => ?_, hsaved, hstyle, htwice⟩
  have hdash : stroke.1 = c.dashOf ((Scene.replay {} graph trace).edges.get "edge-0") :=
    dash_edgeStroke? hstroke
  rw [hdash, dashOf, hmarks]
  rfl

end Canvas

end GraphReplay
