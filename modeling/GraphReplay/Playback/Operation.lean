import GraphReplay.Playback.Player

/-!
# Operations on a player

Everything that can be done to a player, as data, and the lines that it writes to the journal of
the host while doing it.  The journal is computed from the player as it was before the operation.
-/

namespace GraphReplay

inductive Operation where
  | loadTrace (text : String)
  | readGraph (text : String)
  | setGraph (graph : Graph)
  | edit (edit : Graph.Edit)
  | forward
  | backward
  | play
  | pause
  | toggle
  | reset
  | clear
  | setSpeed (speed : Float)
  | tick (token : UInt64)
deriving DecidableEq

inductive Level where
  | debug
  | info
  | warn
  | error
deriving DecidableEq

def Level.name : Level → String
  | .debug => "debug"
  | .info => "info"
  | .warn => "warn"
  | .error => "error"

structure Notice where
  level : Level
  text : String
deriving DecidableEq

namespace Player

/-- The player after an operation; a refused operation changes nothing. -/
def after (p : Player) : Operation → Player
  | .loadTrace text => p.loadTrace text
  | .readGraph text => (p.readGraph text).toOption.getD p
  | .setGraph graph => p.setGraph graph
  | .edit edit => p.setGraph (p.graph.edit edit)
  | .forward => p.forward.1
  | .backward => p.backward.1
  | .play => p.play
  | .pause => p.pause
  | .toggle => p.toggle
  | .reset => p.reset
  | .clear => p.clear
  | .setSpeed speed => (p.setSpeed speed).toOption.getD p
  | .tick token => (p.accept token).1

/-! ## The journal -/

def graphNotice (graph : Graph) : Notice :=
  ⟨.info, "graph loaded: " ++ Text.numeral graph.nodes.length ++ " nodes, " ++
    Text.numeral graph.edges.length ++ " edge records (" ++
    (if graph.directed then "directed" else "undirected") ++ ")"⟩

def stepNotices (p : Player) : List Notice :=
  match p.commands[p.cursor]? with
  | none => []
  | some command =>
    match command.action with
    | .ok _ => [⟨.debug, "step " ++ Text.numeral p.cursor ++ ": " ++ command.raw⟩]
    | .error fault =>
      [⟨.warn, "playback aborted at step " ++ Text.numeral p.cursor ++ ": " ++ fault.message⟩]

def playNotices (p : Player) : List Notice :=
  if p.commands.isEmpty then []
  else
    [⟨.info, "playing from step " ++ Text.numeral p.play.cursor ++ " at " ++ Decimal.text p.speed ++
      "x"⟩]

/-- What an operation writes to the journal. -/
def notices (p : Player) : Operation → List Notice
  | .loadTrace text =>
    [⟨.info, "log loaded: " ++ Text.numeral (readTrace text).length ++ " commands"⟩]
  | .readGraph text =>
    match Graph.read text p.graph.directed with
    | .ok graph => [graphNotice graph]
    | .error _ => []
  | .setGraph _ | .edit _ | .pause => []
  | .forward => p.stepNotices
  | .backward =>
    if p.cursor = 0 then []
    else
      let target := Text.numeral (p.cursor - 1)
      [⟨.debug, "stepped back to " ++ target ++ " (replayed " ++ target ++ " commands)"⟩]
  | .play => p.playNotices
  | .toggle => if p.paused then p.playNotices else []
  | .reset => [⟨.info, "playback reset"⟩]
  | .clear => [⟨.info, "cleared graph and log"⟩]
  | .setSpeed speed =>
    match p.setSpeed speed with
    | .ok _ => []
    | .error e => [⟨.warn, e.message⟩]
  | .tick token =>
    if token != p.token || p.paused then
      [⟨.debug, "ignoring stale tick " ++ Text.numeral token.toNat ++ " (current " ++
        Text.numeral p.token.toNat ++ ")"⟩]
    else p.stepNotices

end Player

end GraphReplay
