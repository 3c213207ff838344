import GraphReplay.Canvas.Layout
import GraphReplay.Canvas.View
import GraphReplay.Graph.Basic
import GraphReplay.Scene.Basic

/-!
# Canvases

A canvas shows a graph: it lays out the nodes, resolves the edge records to indices of the layout,
and keeps the scene that marks them.  A new graph is laid out anew, but a node whose id was there
before stays in its place.
-/

namespace GraphReplay

structure Link where
  id : String
  source : Nat
  target : Nat
  weight : Float
  pair : Option String
deriving DecidableEq

/-- A graph laid out on a drawing surface, with its marks. -/
structure Canvas where
  layout : Layout
  links : List Link
  scene : Scene
  directed : Bool
  /-- Whether weights are shown. -/
  weighted : Bool
  view : View Float
  width : Float
  height : Float
  /-- The time that the dashes of highlighted edges have been running. -/
  flowTime : Float
deriving DecidableEq

namespace Canvas

/-- The index of the last node with this id. -/
def lastIndex? (id : String) : List String → Option Nat
  | [] => none
  | n :: ns =>
    match lastIndex? id ns with
    | some i => some (i + 1)
    | none => if n = id then some 0 else none

/-- Where the last body with this id is. -/
def positionOf? (bodies : List Body) (id : String) : Option Vec :=
  (bodies.reverse.find? (·.id == id)).map Body.position

/-- The place of node `i` of `count` on a circle about the middle of the surface. -/
def circlePosition (width height : Float) (count i : Nat) : Vec :=
  let n := Float.ofNat (max count 1)
  let radius := 40.0 + 12.0 * n
  let angle := Float.ofNat i * 2.0 * 3.14159265358979323846 / n
  ⟨(width / 2.0 + radius * angle.cos).toFloat32, (height / 2.0 + radius * angle.sin).toFloat32⟩

/-- The record with the indices of its ends, if both are nodes. -/
def link? (nodes : List String) (e : Edge) : Option Link :=
  match lastIndex? e.source nodes, lastIndex? e.target nodes with
  | some source, some target => some ⟨e.id, source, target, e.weight, e.pair⟩
  | _, _ => none

/-- The bodies of these nodes: in their places if they were there before, at rest in any case. -/
def place (c : Canvas) (nodes : List String) : List Body :=
  nodes.mapIdx fun i id =>
    { id, position := (positionOf? c.layout.bodies id).getD
        (circlePosition c.width c.height nodes.length i) }

def setGraph (c : Canvas) (g : Graph) : Canvas :=
  let links := g.edges.filterMap (link? g.nodes)
  let springs := links.foldl (fun springs l => Layout.tie springs l.source l.target) []
  { c with layout := ⟨c.place g.nodes, springs⟩, links, directed := g.directed }

def setScene (c : Canvas) (scene : Scene) : Canvas :=
  { c with scene }

def new (g : Graph) (width height : Float) : Canvas :=
  setGraph
    { layout := Layout.empty
      links := []
      scene := Scene.empty
      directed := g.directed
      weighted := false
      view := View.initial
      width, height
      flowTime := 0.0 } g

/-- The canvas after the time `dt`, if its layout can move. -/
def tick? (dt : Float32) (c : Canvas) : Option Canvas :=
  (c.layout.tick? dt).map fun layout =>
    { c with layout, flowTime := c.flowTime + dt.toFloat }

@[simp] theorem length_place (c : Canvas) (nodes : List String) :
    (c.place nodes).length = nodes.length := by
  simp [place]

end Canvas

end GraphReplay
