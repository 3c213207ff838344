import GraphReplay.Canvas.Drawing

/-!
# Drawing contexts

What the calls on a drawing context come to.  A context has a style, the styles that were saved, and
the path that was begun last; strokes, fills and texts leave a shape in the style of their moment.
Every assignment counts here, also of a color that is none.
-/

namespace GraphReplay

/-- What is saved and restored. -/
structure Style where
  /-- The point of the surface that the origin is drawn at, and the scale along each axis. -/
  origin : Float × Float
  scale : Float × Float
  /-- The color of fills; none for a gradient. -/
  fill : Option String
  stroke : String
  lineWidth : Float
  dash : List Float
  dashOffset : Float
  font : String
  textAlign : String
  textBaseline : String

inductive Shape where
  | stroked (style : Style) (path : List DrawCall)
  | filled (style : Style) (path : List DrawCall)
  | rectangle (style : Style) (x y width height : Float)
  | text (style : Style) (text : String) (x y : Float)

structure Context where
  style : Style
  /-- The styles that were saved, the last one first. -/
  saved : List Style
  /-- The pieces of the present path, in order. -/
  path : List DrawCall

namespace Context

def withStyle (ctx : Context) (f : Style → Style) : Context :=
  { ctx with style := f ctx.style }

def step (ctx : Context) : DrawCall → Context
  | .save => { ctx with saved := ctx.style :: ctx.saved }
  | .restore =>
    match ctx.saved with
    | [] => ctx
    | style :: saved => { ctx with style, saved }
  | .translate x y => ctx.withStyle fun s =>
    { s with origin := (s.origin.1 + s.scale.1 * x, s.origin.2 + s.scale.2 * y) }
  | .scale x y => ctx.withStyle fun s => { s with scale := (s.scale.1 * x, s.scale.2 * y) }
  | .fillStyle color => ctx.withStyle fun s => { s with fill := some color }
  | .fillGradient => ctx.withStyle fun s => { s with fill := none }
  | .strokeStyle color => ctx.withStyle fun s => { s with stroke := color }
  | .lineWidth width => ctx.withStyle fun s => { s with lineWidth := width }
  | .setLineDash lengths => ctx.withStyle fun s => { s with dash := lengths }
  | .lineDashOffset offset => ctx.withStyle fun s => { s with dashOffset := offset }
  | .font font => ctx.withStyle fun s => { s with font }
  | .textAlign place => ctx.withStyle fun s => { s with textAlign := place }
  | .textBaseline place => ctx.withStyle fun s => { s with textBaseline := place }
  | .beginPath => { ctx with path := [] }
  | .moveTo x y => { ctx with path := ctx.path ++ [.moveTo x y] }
  | .lineTo x y => { ctx with path := ctx.path ++ [.lineTo x y] }
  | .closePath => { ctx with path := ctx.path ++ [.closePath] }
  | .arc x y radius start stop => { ctx with path := ctx.path ++ [.arc x y radius start stop] }
  | .fillRect .. | .stroke | .fill | .fillText .. | .radialGradient .. | .addColorStop .. => ctx

/-- The shape that a call leaves. -/
def shape? (ctx : Context) : DrawCall → Option Shape
  | .stroke => some (.stroked ctx.style ctx.path)
  | .fill => some (.filled ctx.style ctx.path)
  | .fillRect x y width height => some (.rectangle ctx.style x y width height)
  | .fillText text x y => some (.text ctx.style text x y)
  | _ => none

/-- The context after these calls. -/
def run (ctx : Context) (calls : List DrawCall) : Context :=
  calls.foldl step ctx

/-- The shapes that these calls leave, in order. -/
def paint (ctx : Context) : List DrawCall → List Shape
  | [] => []
  | call :: calls => (ctx.shape? call).toList ++ (ctx.step call).paint calls

@[simp] theorem run_nil (ctx : Context) : ctx.run [] = ctx := rfl

@[simp] theorem run_cons (ctx : Context) (call : DrawCall) (calls : List DrawCall) :
    ctx.run (call :: calls) = (ctx.step call).run calls := rfl

@[simp] theorem run_append (ctx : Context) (calls more : List DrawCall) :
    ctx.run (calls ++ more) = (ctx.run calls).run more :=
  List.foldl_append

/-- Calls between a save and its restore that leave what was saved change nothing but the path. -/
theorem run_saveRestore {calls : List DrawCall}
    (hsaved : ∀ ctx : Context, (ctx.run calls).saved = ctx.saved) (ctx : Context) :
    ctx.run (.save :: calls ++ [.restore]) =
      { ctx with path := ((ctx.step .save).run calls).path } := by
  have hinner : ((ctx.step .save).run calls).saved = ctx.style :: ctx.saved := hsaved _
  rw [List.cons_append, run_cons, run_append, run_cons, run_nil, step.eq_def]
  simp only [hinner]

theorem paint_append (ctx : Context) (calls more : List DrawCall) :
    ctx.paint (calls ++ more) = ctx.paint calls ++ (ctx.run calls).paint more := by
  induction calls generalizing ctx with
  | nil => rfl
  | cons call calls ih =>
    rw [List.cons_append, paint, ih, paint, List.append_assoc]
    rfl

end Context

end GraphReplay
