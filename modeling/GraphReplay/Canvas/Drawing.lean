import GraphReplay.Canvas.Basic
import GraphReplay.Canvas.Color
import GraphReplay.Decimal.Positional
import GraphReplay.Decimal.Remainder

/-!
# Drawing a canvas

A canvas is drawn by a list of calls on a two-dimensional drawing context: the background, then the
edges and then the nodes, both in order and in the coordinates of the view.  An undirected
connection is drawn once, by the first of its records.
-/

namespace GraphReplay

inductive DrawCall where
  | save
  | restore
  | translate (x y : Float)
  | scale (x y : Float)
  | fillStyle (color : String)
  /-- Fill with the gradient that was made last. -/
  | fillGradient
  | strokeStyle (color : String)
  | lineWidth (width : Float)
  | setLineDash (lengths : List Float)
  | lineDashOffset (offset : Float)
  | font (font : String)
  | textAlign (place : String)
  | textBaseline (place : String)
  | fillRect (x y width height : Float)
  | beginPath
  | moveTo (x y : Float)
  | lineTo (x y : Float)
  | closePath
  | arc (x y radius start stop : Float)
  | stroke
  | fill
  | fillText (text : String) (x y : Float)
  | radialGradient (x₀ y₀ r₀ x₁ y₁ r₁ : Float)
  | addColorStop (offset : Float) (color : String)
deriving DecidableEq

namespace Canvas

def nodeRadius : Float := 14.0

/-- The scale of text and rings, which do not grow below half scale. -/
def textScale (c : Canvas) : Float :=
  if 0.5 < c.view.k then c.view.k else 0.5

def fontText (c : Canvas) (size : Float) : String :=
  Decimal.text (size / c.textScale) ++ "px sans-serif"

/-! ## 1. Edges -/

/-- The links without those whose pair id occurred before. -/
def firstOfPairs (seen : List String) : List Link → List Link
  | [] => []
  | l :: ls =>
    match l.pair with
    | none => l :: firstOfPairs seen ls
    | some pair =>
      if seen.contains pair then firstOfPairs seen ls else l :: firstOfPairs (pair :: seen) ls

/-- The links that are drawn: all of a directed graph, one for each pair of an undirected one. -/
def drawnLinks (c : Canvas) : List Link :=
  if c.directed then c.links else firstOfPairs [] c.links

/-- Where body `i` is drawn. -/
def pointOf? (c : Canvas) (i : Nat) : Option (Float × Float) :=
  c.layout.bodies[i]?.map fun b => (b.position.x.toFloat, b.position.y.toFloat)

/-- The dash and the gap of a highlighted edge. -/
def dashLengths (c : Canvas) : Float × Float :=
  (8.0 / c.view.k, 4.0 / c.view.k)

/-- How far the dashes have run. -/
def dashOffset (c : Canvas) : Float :=
  Decimal.remainder (-(c.flowTime * 30.0)) (c.dashLengths.1 + c.dashLengths.2)

def edgeColor (marks : EdgeMarks) : String :=
  match marks.color with
  | some color => Color.drawable color
  | none => "rgba(177, 177, 183, 0.8)"

/-- The line of an edge along the direction `(ux, uy)`, from rim to rim, short of the arrow head of
a directed one. -/
def lineCalls (c : Canvas) (marks : EdgeMarks) (x₁ y₁ x₂ y₂ ux uy : Float) : List DrawCall :=
  let k := c.view.k
  let head := if c.directed then 8.0 / k else 0.0
  let dashes :=
    if marks.highlight then
      [.setLineDash [c.dashLengths.1, c.dashLengths.2], .lineDashOffset c.dashOffset]
    else []
  [.strokeStyle (edgeColor marks), .lineWidth (if marks.highlight then 3.0 / k else 1.5 / k)] ++
    dashes ++
    [.beginPath, .moveTo (x₁ + ux * nodeRadius) (y₁ + uy * nodeRadius),
      .lineTo (x₂ - ux * (nodeRadius + head)) (y₂ - uy * (nodeRadius + head)), .stroke,
      .setLineDash []]

/-- The arrow head of a directed edge, its tip on the rim of the target. -/
def arrowCalls (c : Canvas) (marks : EdgeMarks) (x₂ y₂ ux uy : Float) : List DrawCall :=
  if c.directed then
    let size := 8.0 / c.view.k
    let tipX := x₂ - ux * nodeRadius
    let tipY := y₂ - uy * nodeRadius
    let backX := tipX - ux * size
    let backY := tipY - uy * size
    let sideX := -uy * size * 0.5
    let sideY := ux * size * 0.5
    [.fillStyle (edgeColor marks), .beginPath, .moveTo tipX tipY,
      .lineTo (backX + sideX) (backY + sideY), .lineTo (backX - sideX) (backY - sideY), .closePath,
      .fill]
  else []

def weightCalls (c : Canvas) (marks : EdgeMarks) (weight x₁ y₁ x₂ y₂ : Float) : List DrawCall :=
  if c.weighted then
    [.fillStyle "white", .font (c.fontText 11.0),
      .fillText (Decimal.text (marks.weight.getD weight)) ((x₁ + x₂) / 2.0 + 4.0)
        ((y₁ + y₂) / 2.0 - 4.0)]
  else []

/-- An edge between two points, unless they are too close to give it a direction. -/
def edgeCalls (c : Canvas) (l : Link) (x₁ y₁ x₂ y₂ : Float) : List DrawCall :=
  let dx := x₂ - x₁
  let dy := y₂ - y₁
  let dist := (dx * dx + dy * dy).sqrt
  if dist < 0.001 then []
  else
    let marks := c.scene.edges.get l.id
    let ux := dx / dist
    let uy := dy / dist
    c.lineCalls marks x₁ y₁ x₂ y₂ ux uy ++ c.arrowCalls marks x₂ y₂ ux uy ++
      c.weightCalls marks l.weight x₁ y₁ x₂ y₂

def linkCalls (c : Canvas) (l : Link) : List DrawCall :=
  match c.pointOf? l.source, c.pointOf? l.target with
  | some (x₁, y₁), some (x₂, y₂) => c.edgeCalls l x₁ y₁ x₂ y₂
  | _, _ => []

/-! ## 2. Nodes -/

def fullCircle : Float := 2.0 * 3.14159265358979323846

/-- The glow around the node with the visit pointer. -/
def glowCalls (marks : NodeMarks) (x y : Float) : List DrawCall :=
  if marks.visit then
    let glow := nodeRadius * 2.2
    [.radialGradient x y (nodeRadius * 0.5) x y glow,
      .addColorStop 0.0 "rgba(255, 0, 114, 0.55)", .addColorStop 1.0 "rgba(255, 0, 114, 0)",
      .beginPath, .arc x y glow 0.0 fullCircle, .fillGradient, .fill]
  else []

/-- The color and the width of the ring around a node. -/
def ring (marks : NodeMarks) : String × Float :=
  if marks.highlight then (Color.primary, 3.0)
  else if marks.visit then (Color.primary, 2.0)
  else ("#b1b1b7", 1.0)

/-- A disc with a ring and a label. -/
def bodyCalls (c : Canvas) (b : Body) : List DrawCall :=
  let marks := c.scene.nodes.get b.id
  let x := b.position.x.toFloat
  let y := b.position.y.toFloat
  let fill := match marks.live.color with
    | some color => Color.drawable color
    | none => "#f4f4f8"
  glowCalls marks x y ++
    [.beginPath, .arc x y nodeRadius 0.0 fullCircle, .fillStyle fill, .fill,
      .strokeStyle (ring marks).1, .lineWidth ((ring marks).2 / c.textScale), .stroke,
      .fillStyle (Color.labelOn fill), .font (c.fontText 12.0), .textAlign "center",
      .textBaseline "middle", .fillText (marks.label.getD b.id) x y]

/-! ## 3. The whole picture -/

def draw (c : Canvas) : List DrawCall :=
  [.fillStyle "#1a1a2e", .fillRect 0.0 0.0 c.width c.height, .save,
    .translate c.view.x c.view.y, .scale c.view.k c.view.k] ++
    c.drawnLinks.flatMap c.linkCalls ++ c.layout.bodies.flatMap c.bodyCalls ++ [.restore]

end Canvas

end GraphReplay
