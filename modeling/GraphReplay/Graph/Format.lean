import GraphReplay.Graph.Edit
import GraphReplay.Text.Blank

/-!
# The text format of graphs

A graph is given by a header line with the numbers of nodes and of connections, and one line for
each connection with the numbers of its ends.  Blank space around the text, and whatever follows on
a line or after the last connection, is passed over.  The first defect in reading order is reported.

Numbers are those of a machine with words of 64 bits.  A machine gives up on more nodes than its memory
holds; here every number of nodes makes a graph.
-/

namespace GraphReplay

/-- Why a text is not a graph.  Lines are counted from the header, which is line 1. -/
inductive FormatError where
  | blank
  | badHeader (line : String)
  | badLine (lineNumber : Nat) (line : String)
  | nodeOutOfRange (lineNumber node count : Nat)
  | tooFewLines (expected found : Nat)
deriving DecidableEq

def FormatError.message : FormatError → String
  | .blank => "graph input is empty"
  | .badHeader line => "expected `<nodes> <edges>` header, found \"" ++ line ++ "\""
  | .badLine lineNumber line =>
    "line " ++ Text.numeral lineNumber ++ ": expected `<source> <target>`, found \"" ++ line ++ "\""
  | .nodeOutOfRange lineNumber node count =>
    "line " ++ Text.numeral lineNumber ++ ": node " ++ Text.numeral node ++
      " is out of range for " ++ Text.numeral count ++ " nodes"
  | .tooFewLines expected found =>
    "header announces " ++ Text.numeral expected ++ " edges but only " ++ Text.numeral found ++
      " were given"

namespace Graph

/-- The numbers that the first two tokens of a line stand for. -/
def numberPair? (line : String) : Option (Nat × Nat) :=
  match Text.tokens line with
  | a :: b :: _ =>
    match Text.numeral? a, Text.numeral? b with
    | some m, some n => some (m, n)
    | _, _ => none
  | _ => none

/-- The ends of the connections on `lines`, when `found` of `expected` were read before. -/
def readEnds (nodeCount expected : Nat) : Nat → List String → Except FormatError (List (Nat × Nat))
  | found, [] => if found < expected then .error (.tooFewLines expected found) else .ok []
  | found, line :: lines =>
    if found < expected then
      match numberPair? line with
      | none => .error (.badLine (found + 2) (Text.trim line))
      | some (source, target) =>
        -- The source is reported when both ends are out of range.
        if nodeCount ≤ source then .error (.nodeOutOfRange (found + 2) source nodeCount)
        else if nodeCount ≤ target then .error (.nodeOutOfRange (found + 2) target nodeCount)
        else
          match readEnds nodeCount expected (found + 1) lines with
          | .error e => .error e
          | .ok ends => .ok ((source, target) :: ends)
    else .ok []

/-- The graph of the nodes 0, 1, …, `nodeCount - 1` with these connections, made in order. -/
def ofEnds (directed : Bool) (nodeCount : Nat) (ends : List (Nat × Nat)) : Graph :=
  ends.foldl (fun g e => g.join (Text.numeral e.1) (Text.numeral e.2))
    { Graph.empty directed with nodes := (List.range nodeCount).map Text.numeral }

def read (text : String) (directed : Bool) : Except FormatError Graph :=
  let trimmed := Text.trim text
  if trimmed.isEmpty then .error .blank
  else
    match Text.lines trimmed with
    | [] => .error .blank
    | header :: lines =>
      match numberPair? header with
      | none => .error (.badHeader (Text.trim header))
      | some (nodeCount, edgeCount) =>
        match readEnds nodeCount edgeCount 0 lines with
        | .error e => .error e
        | .ok ends => .ok (ofEnds directed nodeCount ends)

end Graph

end GraphReplay
