import GraphReplay.Decimal.Positional
import GraphReplay.Graph.Format
import GraphReplay.Playback.Delay
import GraphReplay.Scene.Interpret
import GraphReplay.Trace.Reader

/-!
# The player

A player steps through a trace over a graph, by hand or by a clock.  It owns no clock: while it
runs, `Player.dueTick` says how long to wait, and the tick is handed back with `Player.accept`.
Every change of the trace, the cursor, the speed or the pause issues a new token, so that a tick
that was armed before the change is refused.
-/

namespace GraphReplay

inductive Phase where
  /-- There is no trace. -/
  | idle
  | paused
  | playing
  /-- Every command was followed. -/
  | finished
deriving DecidableEq

def Phase.label : Phase → String
  | .idle => "idle"
  | .paused => "paused"
  | .playing => "playing"
  | .finished => "finished"

inductive StepResult where
  | advanced
  /-- There was no command left. -/
  | atEnd
  /-- The command was faulty, and the trace was dropped. -/
  | aborted
deriving DecidableEq

/-- A wait that a running player asks for. -/
structure Tick where
  /-- Handed back when the wait is over. -/
  token : UInt64
  delay : Delay
deriving DecidableEq

/-- Why a player cannot be asked for its next tick: at this speed the wait is no delay. -/
inductive TickError where
  | noDelay (speed : Float)
deriving DecidableEq

/-- Why a player does not take a speed. -/
inductive SpeedError where
  /-- A speed is finite and above zero. -/
  | invalid (speed : Float)
  /-- The settings leave no speed to take: the least is not below or at the greatest. -/
  | emptyRange (least greatest : Float)
deriving DecidableEq

def SpeedError.message : SpeedError → String
  | .invalid speed => "playback speed must be a positive number, got " ++ Decimal.text speed
  | .emptyRange least greatest =>
    "no speed lies between " ++ Decimal.text least ++ " and " ++ Decimal.text greatest

/-- A trace, a graph, and how far the trace has been followed. -/
structure Player where
  settings : Settings
  graph : Graph
  commands : List Command
  /-- The number of commands that were followed. -/
  cursor : Nat
  paused : Bool
  /-- Steps per second. -/
  speed : Float
  scene : Scene
  /-- The tick that is accepted. -/
  token : UInt64

namespace Player

/-- A player with an empty graph and no trace. -/
def new (settings : Settings) : Player where
  settings := settings
  graph := Graph.empty settings.directed
  commands := []
  cursor := 0
  paused := true
  speed := settings.defaultSpeed
  scene := Scene.empty
  token := 0

/-! ## 1. Questions -/

def phase (p : Player) : Phase :=
  if p.commands.isEmpty then .idle
  else if !p.paused then .playing
  else if p.cursor = p.commands.length then .finished
  else .paused

/-- The trace as text, without blanks at the ends of lines. -/
def traceText (p : Player) : String :=
  String.intercalate "\n" (p.commands.map Command.raw)

/-- The scene after the first `count` commands over the present graph. -/
def replay (p : Player) (count : Nat) : Scene :=
  Scene.replay p.settings p.graph (p.commands.take count)

/-- The wait to arm now, if the player runs. -/
def dueTick (p : Player) : Except TickError (Option Tick) :=
  if p.paused || p.commands.length ≤ p.cursor then .ok none
  else
    match Delay.atSpeed? p.speed with
    | some delay => .ok (some ⟨p.token, delay⟩)
    | none => .error (.noDelay p.speed)

/-! ## 2. Graph and trace -/

/-- The player with a new token, so that every tick armed so far is refused. -/
def renew (p : Player) : Player :=
  { p with token := p.token + 1 }

def rewind (p : Player) : Player :=
  { p with cursor := 0, scene := Scene.empty }

/-- Take another trace and start over, paused. -/
def loadTrace (p : Player) (text : String) : Player :=
  ({ p with commands := readTrace text, paused := true }).rewind.renew

/-- Take another graph; cursor and scene stay. -/
def setGraph (p : Player) (graph : Graph) : Player :=
  { p with graph }

/-- Take the graph that a text gives, in the present mode. -/
def readGraph (p : Player) (text : String) : Except FormatError Player :=
  match Graph.read text p.graph.directed with
  | .ok graph => .ok (p.setGraph graph)
  | .error e => .error e

def reset (p : Player) : Player :=
  ({ p with paused := true }).rewind.renew

def clear (p : Player) : Player :=
  ({ p with
      commands := []
      graph := Graph.empty p.settings.directed
      paused := true }).rewind.renew

/-! ## 3. Steps -/

/-- Follow the command at the cursor.  The last command pauses the player.  A faulty one drops the
trace, and of the scene only the message about the fault is left. -/
def forward (p : Player) : Player × StepResult :=
  match p.commands[p.cursor]? with
  | none => (p, .atEnd)
  | some command =>
    match p.scene.step p.settings p.graph command with
    | .followed scene =>
      -- Only the last command pauses a player that runs.
      let cursor := p.cursor + 1
      let paused := p.paused || cursor == p.commands.length
      (({ p with scene, cursor, paused }).renew, .advanced)
    | .refused scene _ =>
      let scene : Scene := { messages := scene.messages.getLast?.toList }
      (({ p with commands := [], cursor := 0, paused := true, scene }).renew, .aborted)

/-- Go back by one command, replaying the commands before it; not possible at the start. -/
def backward (p : Player) : Player × Bool :=
  if p.cursor = 0 then (p, false)
  else
    let cursor := p.cursor - 1
    (({ p with scene := p.replay cursor, cursor }).renew, true)

/-! ## 4. The clock -/

/-- Run, from the start if the trace was followed to its end. -/
def play (p : Player) : Player :=
  if p.commands.isEmpty then p
  else
    let p := if p.commands.length ≤ p.cursor then p.rewind else p
    ({ p with paused := false }).renew

def pause (p : Player) : Player :=
  ({ p with paused := true }).renew

def toggle (p : Player) : Player :=
  if p.paused then p.play else p.pause

/-- Take another speed, or the nearest in the range of the settings. -/
def setSpeed (p : Player) (speed : Float) : Except SpeedError Player :=
  let least := p.settings.minSpeed
  let greatest := p.settings.maxSpeed
  if !speed.isFinite || speed ≤ 0.0 then .error (.invalid speed)
  else if !(least ≤ greatest) then .error (.emptyRange least greatest)
  else
    -- The sign and the digits of a speed within the range stay as they are.
    let raised := if speed < least then least else speed
    let speed := if greatest < raised then greatest else raised
    .ok ({ p with speed }).renew

/-- A wait is over: step forward, unless the tick is not the one that is waited for. -/
def accept (p : Player) (token : UInt64) : Player × Option StepResult :=
  if token != p.token || p.paused then (p, none)
  else
    let (next, outcome) := p.forward
    (next, some outcome)

end Player

end GraphReplay
