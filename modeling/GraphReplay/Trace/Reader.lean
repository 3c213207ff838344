import GraphReplay.Decimal.Literal
import GraphReplay.Text.Blank
import GraphReplay.Trace.Command

/-!
# Reading a trace

A trace is read line by line: the first token of a line names a `Verb`, and the tokens after it are
its arguments.  `Verb.instruction?_isSome_iff` says that a verb takes any number of arguments from
its arity up.
-/

namespace GraphReplay

inductive Verb where
  | visit
  | colorNode
  | colorEdge
  | highlightNode
  | unhighlightNode
  | highlightEdge
  | unhighlightEdge
  | clearHighlights
  | markVisited
  | markInQueue
  | setNodeId
  | setEdgeWeight
  | log
  | clearLog
deriving DecidableEq

namespace Verb

def all : List Verb :=
  [visit, colorNode, colorEdge, highlightNode, unhighlightNode, highlightEdge, unhighlightEdge,
    clearHighlights, markVisited, markInQueue, setNodeId, setEdgeWeight, log, clearLog]

theorem mem_all (v : Verb) : v ∈ all := by
  cases v <;> decide

def name : Verb → String
  | visit => "visit"
  | colorNode => "colorNode"
  | colorEdge => "colorEdge"
  | highlightNode => "highlightNode"
  | unhighlightNode => "unhighlightNode"
  | highlightEdge => "highlightEdge"
  | unhighlightEdge => "unhighlightEdge"
  | clearHighlights => "clearHighlights"
  | markVisited => "markVisited"
  | markInQueue => "markInQueue"
  | setNodeId => "setNodeId"
  | setEdgeWeight => "setEdgeWeight"
  | log => "log"
  | clearLog => "clearLog"

def ofName? (token : String) : Option Verb :=
  all.find? (·.name == token)

theorem ofName?_name (v : Verb) : ofName? v.name = some v := by
  cases v <;> decide

def arity : Verb → Nat
  | clearHighlights | log | clearLog => 0
  | visit | highlightNode | unhighlightNode | markVisited | markInQueue => 1
  | colorNode | highlightEdge | unhighlightEdge | setNodeId => 2
  | colorEdge | setEdgeWeight => 3

/-- The tokens with one space between each two. -/
def spaced (tokens : List String) : String :=
  String.intercalate " " tokens

/-- The instruction that a verb gives with these arguments, unless there are too few.  Arguments
past the arity count for labels and messages only. -/
def instruction? : Verb → List String → Option Instruction
  | visit, node :: _ => some (.visit node)
  | colorNode, node :: color :: _ => some (.colorNode node color)
  | colorEdge, source :: target :: color :: _ => some (.colorEdge source target color)
  | highlightNode, node :: _ => some (.highlightNode node)
  | unhighlightNode, node :: _ => some (.unhighlightNode node)
  | highlightEdge, source :: target :: _ => some (.highlightEdge source target)
  | unhighlightEdge, source :: target :: _ => some (.unhighlightEdge source target)
  | clearHighlights, _ => some .clearHighlights
  | markVisited, node :: _ => some (.markVisited node)
  | markInQueue, node :: _ => some (.markInQueue node)
  | setNodeId, node :: word :: words => some (.setNodeId node (spaced (word :: words)))
  | setEdgeWeight, source :: target :: weight :: _ =>
    some (.setEdgeWeight source target (Decimal.readLeading weight))
  | log, words => some (.log (spaced words))
  | clearLog, _ => some .clearLog
  | _, _ => none

theorem instruction?_isSome_iff (v : Verb) (args : List String) :
    (v.instruction? args).isSome ↔ v.arity ≤ args.length := by
  rcases args with _ | ⟨a, _ | ⟨b, _ | ⟨c, rest⟩⟩⟩ <;> cases v <;> grind [instruction?, arity]

end Verb

namespace Command

def decode (name : String) (args : List String) (raw : String) : Except Fault Instruction :=
  match Verb.ofName? name with
  | none => .error (.unrecognized raw)
  | some verb =>
    match verb.instruction? args with
    | none => .error (.missingArgument name (args.length + 1))
    | some instruction => .ok instruction

def read (line : String) : Command :=
  let raw := Text.trim line
  match Text.tokens raw with
  | [] => ⟨"", [], raw, decode "" [] raw⟩
  | name :: args => ⟨name, args, raw, decode name args raw⟩

end Command

/-- The commands of a trace, one for each of its lines. -/
def readTrace (text : String) : List Command :=
  (Text.lines text).map Command.read

theorem readTrace_ne_nil (text : String) : readTrace text ≠ [] := by
  simp [readTrace, Text.lines_ne_nil]

end GraphReplay
