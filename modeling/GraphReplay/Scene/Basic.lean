import GraphReplay.Marks

/-!
# Scenes

A scene is what a trace has made visible so far: the marks of nodes and of edges, and the messages.
It does not hold the graph.

One node at most carries the visit pointer of a trace.  Under the pointer a node shows a blank
`Face`, and its own face is kept aside until the pointer moves on; `NodeMarks.lasting` is the face
that a node has apart from the pointer.
-/

namespace GraphReplay

/-- The fill color and the two progress marks of a node. -/
structure Face where
  color : Option String := none
  visited : Bool := false
  inQueue : Bool := false
deriving DecidableEq, Inhabited, BEq

def Face.blank : Face := {}

structure NodeMarks where
  /-- The node carries the visit pointer. -/
  visit : Bool := false
  /-- The node is outlined. -/
  highlight : Bool := false
  /-- The face that is shown. -/
  live : Face := Face.blank
  /-- The face that comes back when the pointer moves on. -/
  saved : Face := Face.blank
  /-- The label in the place of the id. -/
  label : Option String := none
deriving DecidableEq, BEq

instance : Inhabited NodeMarks := ⟨{}⟩

structure EdgeMarks where
  highlight : Bool := false
  color : Option String := none
  /-- The weight in the place of that of the record. -/
  weight : Option Float := none
deriving DecidableEq, BEq

instance : Inhabited EdgeMarks := ⟨{}⟩

/-- Where a message comes from: a `log` line, or a line that cannot be followed. -/
inductive Severity where
  | info
  | error
deriving DecidableEq, BEq

/-- The style class of a message in the message panel. -/
def Severity.styleClass : Severity → String
  | .info => "log-info"
  | .error => "log-error"

structure Message where
  severity : Severity
  text : String
deriving DecidableEq, BEq

/-- Marks by node id, marks by edge id, and the messages, oldest first. -/
structure Scene where
  nodes : Marks NodeMarks := ∅
  edges : Marks EdgeMarks := ∅
  messages : List Message := []
deriving DecidableEq, BEq

instance : Inhabited Scene := ⟨{}⟩

def Scene.empty : Scene := {}

namespace NodeMarks

/-- The face of the node apart from the visit pointer. -/
def lasting (n : NodeMarks) : Face :=
  if n.visit then n.saved else n.live

def release (n : NodeMarks) : NodeMarks :=
  if n.visit then { n with visit := false, live := n.saved, saved := Face.blank } else n

def receive (n : NodeMarks) : NodeMarks :=
  { n with visit := true, live := Face.blank, saved := n.live }

/-- The node is filled; its progress marks stay and the pointer goes. -/
def paint (color : String) (n : NodeMarks) : NodeMarks :=
  { n with
    visit := false
    live := { n.lasting with color := some color }
    saved := { n.lasting with color := none } }

/-- The node is marked visited in the color for it; the pointer goes. -/
def markVisited (color : String) (n : NodeMarks) : NodeMarks :=
  let face := { n.lasting with color := some color, visited := true }
  { n with visit := false, live := face, saved := face }

/-- The node is marked as waiting in the color for it; the pointer goes. -/
def markInQueue (color : String) (n : NodeMarks) : NodeMarks :=
  let face := { n.lasting with color := some color, inQueue := true }
  { n with visit := false, live := face, saved := face }

/-- The node keeps its label only. -/
def clear (n : NodeMarks) : NodeMarks :=
  { label := n.label }

@[simp] theorem lasting_release (n : NodeMarks) : n.release.lasting = n.lasting := by
  unfold release lasting
  split <;> simp_all

@[simp] theorem lasting_receive_release (n : NodeMarks) :
    n.release.receive.lasting = n.lasting := by
  unfold release receive lasting
  split <;> simp_all

@[simp] theorem lasting_paint (color : String) (n : NodeMarks) :
    (n.paint color).lasting = { n.lasting with color := some color } := rfl

@[simp] theorem lasting_markVisited (color : String) (n : NodeMarks) :
    (n.markVisited color).lasting = { n.lasting with color := some color, visited := true } := rfl

@[simp] theorem lasting_markInQueue (color : String) (n : NodeMarks) :
    (n.markInQueue color).lasting = { n.lasting with color := some color, inQueue := true } := rfl

@[simp] theorem lasting_clear (n : NodeMarks) : n.clear.lasting = Face.blank := rfl

end NodeMarks

namespace EdgeMarks

/-- The edge keeps its weight only. -/
def clear (e : EdgeMarks) : EdgeMarks :=
  { weight := e.weight }

end EdgeMarks

end GraphReplay
