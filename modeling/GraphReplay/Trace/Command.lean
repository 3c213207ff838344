import GraphReplay.Text.Numeral

/-!
# Trace commands

The instructions that a trace may give, the faults of lines that give none, and the command that a
line is read as.  A faulty line is kept as a command: it fails when playback reaches it.
-/

namespace GraphReplay

/-- What a line of a trace asks for.  Nodes are named by their ids, edges by those of their ends. -/
inductive Instruction where
  /-- Move the visit pointer to a node. -/
  | visit (node : String)
  | colorNode (node color : String)
  | colorEdge (source target color : String)
  | highlightNode (node : String)
  /-- Remove the outline and every other marker of a node but its label. -/
  | unhighlightNode (node : String)
  | highlightEdge (source target : String)
  | unhighlightEdge (source target : String)
  /-- Remove the markers of all nodes and edges, but not labels and weights. -/
  | clearHighlights
  | markVisited (node : String)
  | markInQueue (node : String)
  /-- Show a label in the place of the id of a node. -/
  | setNodeId (node label : String)
  | setEdgeWeight (source target : String) (weight : Float)
  /-- Show a message. -/
  | log (text : String)
  /-- Remove all messages. -/
  | clearLog
deriving DecidableEq

inductive Fault where
  /-- The first token is not the name of an instruction, or there is none. -/
  | unrecognized (raw : String)
  /-- Arguments are counted from one; `position` is the first that is not there. -/
  | missingArgument (command : String) (position : Nat)
deriving DecidableEq

def Fault.message : Fault → String
  | .unrecognized raw => "unrecognized command \"" ++ raw ++ "\""
  | .missingArgument command position =>
    "`" ++ command ++ "` is missing argument #" ++ Text.numeral position

structure Command where
  /-- The first token, or nothing if the line is blank. -/
  name : String
  /-- The other tokens. -/
  args : List String
  /-- The line without the blanks at its ends. -/
  raw : String
  action : Except Fault Instruction

end GraphReplay
