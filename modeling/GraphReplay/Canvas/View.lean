/-!
# The view of a canvas

How the world of the layout is shown on the canvas, and how the pointer drags and zooms it.  The
arithmetic is that of any type with the four operations and decimal literals, so that the rules can
be run on doubles and reasoned about on rational numbers.
-/

namespace GraphReplay

/-- Where the pointer and the shown world were when a drag began. -/
structure Grab (K : Type) where
  pointerX : K
  pointerY : K
  x : K
  y : K
deriving DecidableEq

/-- The world point `(u, v)` is shown at `(x + k * u, y + k * v)`. -/
structure View (K : Type) where
  x : K
  y : K
  k : K
  /-- The drag that goes on, if any. -/
  grab : Option (Grab K)
deriving DecidableEq

inductive PointerEvent (K : Type) where
  | press (px py : K)
  | move (px py : K)
  | release
  | leave
  /-- The wheel turns: down by `delta`, so up if that is below zero. -/
  | wheel (px py delta : K)
deriving DecidableEq

/-- An event as seen from the point `(left, top)`. -/
def PointerEvent.seenFrom {K : Type} [Sub K] (left top : K) : PointerEvent K → PointerEvent K
  | press px py => press (px - left) (py - top)
  | move px py => move (px - left) (py - top)
  | release => release
  | leave => leave
  | wheel px py delta => wheel (px - left) (py - top) delta

namespace View

variable {K : Type} [Add K] [Sub K] [Mul K] [Div K] [LT K] [DecidableLT K] [OfScientific K]

/-- The world as it is, with no drag. -/
def initial : View K :=
  ⟨0.0, 0.0, 1.0, none⟩

/-- The scale is held between a tenth and ten. -/
def boundedScale (k : K) : K :=
  if k < 0.1 then 0.1 else if 10.0 < k then 10.0 else k

def wheelScale (k delta : K) : K :=
  boundedScale (if 0.0 < delta then k * 0.9 else k * 1.1)

/-- The view after a pointer event: a drag moves the world with the pointer, and the wheel scales it
about the pointer. -/
def handle (v : View K) : PointerEvent K → View K
  | .press px py => { v with grab := some ⟨px, py, v.x, v.y⟩ }
  | .move px py =>
    match v.grab with
    | none => v
    | some g => { v with x := g.x + (px - g.pointerX), y := g.y + (py - g.pointerY) }
  | .release => { v with grab := none }
  | .leave => { v with grab := none }
  | .wheel px py delta =>
    let k := wheelScale v.k delta
    let ratio := k / v.k
    { v with x := px - (px - v.x) * ratio, y := py - (py - v.y) * ratio, k }

end View

end GraphReplay
