import GraphReplay.Canvas.Drawing
import GraphReplay.Page.Widget
import GraphReplay.Playback.Operation

/-!
# The player page

The state behind the page and what the user's actions do to it.  Whenever the player changes, three
things follow it: the timer, which is armed anew exactly when another tick is due; the canvas, which
shows the graph and the scene of the player; and the boxes and the slider, which are written when
the value behind them changes.  A text field is written whenever its text is set.
-/

namespace GraphReplay

structure Timer where
  id : Nat
  tick : Tick
deriving DecidableEq

structure Desk where
  player : Player
  /-- Whether weights are shown. -/
  weighted : Bool
  graphText : String
  traceText : String
  /-- Why the graph text was refused. -/
  graphError : Option String
  /-- Nothing if there is no context to draw on. -/
  canvas : Option Canvas
  /-- The timeouts that have not gone off, oldest first. -/
  timers : List Timer
  /-- The timeout that was armed last, unless it was taken back. -/
  armed : Option Nat
  /-- How many timeouts were armed so far. -/
  timersMade : Nat
  fields : Fields

/-- What a user does on the player page, apart from the canvas. -/
inductive Action where
  | submitGraph
  | submitTrace
  | clear
  | restart
  | back
  | runOrStop
  | forward
  | setDirected (checked : Bool)
  | setWeighted (checked : Bool)
  | typeGraph (text : String)
  | typeTrace (text : String)
  | typeSpeed (text : String)
deriving DecidableEq

namespace Desk

/-- The tick that the timer should be armed for. -/
def dueTick (p : Player) : Option Tick :=
  p.dueTick.toOption.getD none

/-- Whether the playback controls are on the page. -/
def hasControls (p : Player) : Bool :=
  p.phase != .idle

/-! ## 1. Following the player -/

/-- Take back the armed timeout and arm one for the tick, if any. -/
def arm (h : Desk) (tick : Option Tick) : Desk :=
  let kept := h.timers.filter fun t => h.armed != some t.id
  match tick with
  | none => { h with timers := kept, armed := none }
  | some tick =>
    { h with
      timers := kept ++ [⟨h.timersMade, tick⟩]
      armed := some h.timersMade
      timersMade := h.timersMade + 1 }

def showScene (h : Desk) : Desk :=
  { h with canvas := h.canvas.map fun c =>
      { c.setScene h.player.scene with weighted := h.weighted } }

def showGraph (h : Desk) : Desk :=
  { h with canvas := h.canvas.map fun c => c.setGraph h.player.graph }

/-- The box shows whether the graph is directed. -/
def writeDirected (h : Desk) : Desk :=
  { h with fields := h.fields.putChecked .directedBox h.player.graph.directed }

def writeSpeed (h : Desk) : Desk :=
  { h with fields := h.fields.putValue .speedSlider (Decimal.text h.player.speed) }

/-- The page after the player has become `next`.  Scenes and speeds are compared as numbers are, so
that a zero that changes its sign is no change. -/
def follow (h : Desk) (next : Player) : Desk :=
  let old := h.player
  let h := { h with player := next }
  -- What follows a value is written only when the value changed: an armed timeout goes on, and an
  -- entry of the user stays in its field.
  let h := if dueTick next = dueTick old then h else h.arm (dueTick next)
  let h := if next.graph == old.graph then h else h.showGraph
  let h := if next.scene == old.scene then h else h.showScene
  let h := if next.graph.directed = old.graph.directed then h else h.writeDirected
  if hasControls next && (!hasControls old || next.speed != old.speed) then h.writeSpeed else h

def operate (h : Desk) (op : Operation) : Desk × List Notice :=
  (h.follow (h.player.after op), h.player.notices op)

/-! ## 2. Actions -/

def writeGraphText (h : Desk) (text : String) : Desk :=
  { h with graphText := text, fields := h.fields.putValue .graphField text }

def writeTraceText (h : Desk) (text : String) : Desk :=
  { h with traceText := text, fields := h.fields.putValue .traceField text }

/-- The wording of the defect of the graph text, if it has one. -/
def defect (h : Desk) : Option String :=
  match h.player.readGraph h.graphText with
  | .ok _ => none
  | .error e => some e.message

/-- What an action does, and the lines it writes to the journal. -/
def act (h : Desk) : Action → Desk × List Notice
  | .submitGraph =>
    let (next, notices) := h.operate (.readGraph h.graphText)
    ({ next with graphError := h.defect }, notices)
  | .submitTrace => h.operate (.loadTrace h.traceText)
  | .clear =>
    let (next, notices) := h.operate .clear
    (({ next with graphError := none }.writeGraphText "").writeTraceText "", notices)
  | .restart => h.operate .reset
  | .back => h.operate .backward
  | .runOrStop => h.operate .toggle
  | .forward => h.operate .forward
  | .setDirected checked => h.operate (.edit (.setDirected checked))
  | .setWeighted checked =>
    let next := { h with weighted := checked }.showScene
    ({ next with fields := next.fields.putChecked .weightedBox checked }, [])
  | .typeGraph text => (h.writeGraphText text, [])
  | .typeTrace text => (h.writeTraceText text, [])
  | .typeSpeed text =>
    match Decimal.read? text with
    | none => (h, [])
    | some speed => h.operate (.setSpeed speed)

/-- The oldest timeout goes off, if there is one. -/
def fire (h : Desk) : Option (Desk × List Notice) :=
  match h.timers with
  | [] => none
  | timer :: rest => some ({ h with timers := rest }.operate (.tick timer.tick.token))

/-! ## 3. The beginning and the end -/

/-- The page with a new player.  Without a canvas the page works all the same. -/
def start (canvas : Option Canvas) : Desk :=
  let h : Desk :=
    { player := Player.new Settings.standard
      weighted := Settings.standard.weighted
      graphText := ""
      traceText := ""
      graphError := none
      canvas
      timers := []
      armed := none
      timersMade := 0
      fields := [] }
  let h := (({ h with fields := h.fields.putChecked .weightedBox h.weighted }.writeDirected
    ).writeGraphText "").writeTraceText ""
  h.showGraph.showScene

/-- The page is left: the armed timeout is taken back. -/
def leave (h : Desk) : Desk :=
  h.arm none

end Desk

end GraphReplay
