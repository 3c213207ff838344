import GraphReplay.Graph.Basic
import GraphReplay.Playback.Settings
import GraphReplay.Scene.Basic
import GraphReplay.Trace.Command

/-!
# Following a trace

What each instruction does to a scene.  Node instructions name a node by any id, whether the graph
has it or not; edge instructions reach the records that the graph holds for the connection, both
directions of an undirected one.  A faulty line changes nothing but for a message.
-/

namespace GraphReplay

namespace Scene

def onNode (s : Scene) (id : String) (f : NodeMarks → NodeMarks) : Scene :=
  { s with nodes := s.nodes.update id f }

def onEdges (s : Scene) (ids : List String) (f : EdgeMarks → EdgeMarks) : Scene :=
  { s with edges := ids.foldl (fun edges id => edges.update id f) s.edges }

def say (s : Scene) (message : Message) : Scene :=
  { s with messages := s.messages ++ [message] }

def perform (palette : Palette) (graph : Graph) (s : Scene) : Instruction → Scene
  | .visit node => { s with nodes := (s.nodes.map NodeMarks.release).update node NodeMarks.receive }
  | .colorNode node color => s.onNode node (·.paint color)
  | .colorEdge source target color =>
    s.onEdges (graph.recordIds source target) fun e => { e with color := some color }
  | .highlightNode node => s.onNode node fun n => { n with highlight := true }
  | .unhighlightNode node => s.onNode node NodeMarks.clear
  | .highlightEdge source target =>
    s.onEdges (graph.recordIds source target) fun e =>
      { e with highlight := true, color := some palette.highlight }
  | .unhighlightEdge source target => s.onEdges (graph.recordIds source target) EdgeMarks.clear
  | .clearHighlights =>
    { s with nodes := s.nodes.map NodeMarks.clear, edges := s.edges.map EdgeMarks.clear }
  | .markVisited node => s.onNode node (·.markVisited palette.visited)
  | .markInQueue node => s.onNode node (·.markInQueue palette.queued)
  | .setNodeId node label => s.onNode node fun n => { n with label := some label }
  | .setEdgeWeight source target weight =>
    s.onEdges (graph.recordIds source target) fun e => { e with weight := some weight }
  | .log text => s.say ⟨.info, text⟩
  | .clearLog => { s with messages := [] }

end Scene

/-- The message about a line that cannot be followed. -/
def Fault.report (settings : Settings) (raw : String) : Fault → Message
  | .unrecognized line =>
    ⟨.error, settings.errorHeading ++ ": " ++ (Fault.unrecognized line).message⟩
  | .missingArgument command position =>
    ⟨.error, settings.errorHeading ++ ": " ++ (Fault.missingArgument command position).message ++
      " in \"" ++ raw ++ "\""⟩

inductive LineResult where
  | followed (scene : Scene)
  /-- The line is faulty: the scene as it was, with a message about the fault. -/
  | refused (scene : Scene) (fault : Fault)
deriving DecidableEq

def LineResult.scene : LineResult → Scene
  | .followed scene => scene
  | .refused scene _ => scene

/-- Follow one line of a trace. -/
def Scene.step (settings : Settings) (graph : Graph) (s : Scene) (command : Command) : LineResult :=
  match command.action with
  | .ok instruction => .followed (s.perform settings.palette graph instruction)
  | .error fault => .refused (s.say (fault.report settings command.raw)) fault

/-- The scene that the lines of a trace lead to from an empty one. -/
def Scene.replay (settings : Settings) (graph : Graph) (commands : List Command) : Scene :=
  commands.foldl (fun s command => (s.step settings graph command).scene) Scene.empty

end GraphReplay
