import GraphReplay.Marks
import GraphReplay.Text.Blank
import GraphReplay.Text.Numeral
import GraphReplay.Decimal.Magnitude
import GraphReplay.Decimal.Shortest
import GraphReplay.Decimal.Positional
import GraphReplay.Decimal.Remainder
import GraphReplay.Decimal.Literal
import GraphReplay.Trace.Command
import GraphReplay.Trace.Reader
import GraphReplay.Graph.Basic
import GraphReplay.Graph.Edit
import GraphReplay.Graph.Format
import GraphReplay.Scene.Basic
import GraphReplay.Playback.Settings
import GraphReplay.Scene.Interpret
import GraphReplay.Playback.Delay
import GraphReplay.Playback.Player
import GraphReplay.Playback.Operation
import GraphReplay.Canvas.Color
import GraphReplay.Canvas.Layout
import GraphReplay.Canvas.View
import GraphReplay.Canvas.Basic
import GraphReplay.Canvas.Drawing
import GraphReplay.Page.Widget
import GraphReplay.Page.Desk
import GraphReplay.Page.Markup
import GraphReplay.Page.Window
import GraphReplay.Proofs.Graph.Ids
import GraphReplay.Proofs.Graph.Reading
import GraphReplay.Proofs.Graph.Couples
import GraphReplay.Proofs.Graph.Edits
import GraphReplay.Proofs.Scene.Pointer
import GraphReplay.Proofs.Playback.Run
import GraphReplay.Proofs.Playback.History
import GraphReplay.Proofs.Playback.Ticks
import GraphReplay.Proofs.Playback.Twins
import GraphReplay.Proofs.Playback.Phases
import GraphReplay.Proofs.Playback.Faults
import GraphReplay.Proofs.Playback.Drivers
import GraphReplay.Proofs.Text.Lines
import GraphReplay.Proofs.Graph.Numbering
import GraphReplay.Proofs.Graph.Defects
import GraphReplay.Proofs.Playback.Delays
import GraphReplay.Proofs.Playback.Pace
import GraphReplay.Proofs.Page.Clock
import GraphReplay.Proofs.Page.Timers
import GraphReplay.Proofs.Graph.Simple
import GraphReplay.Proofs.Canvas.Springs
import GraphReplay.Proofs.Playback.StepBack
import GraphReplay.Proofs.Scene.Parts
import GraphReplay.Proofs.Playback.Standing
import GraphReplay.Proofs.Graph.Formed
import GraphReplay.Proofs.Canvas.Shown
import GraphReplay.Proofs.Canvas.Context
import GraphReplay.Proofs.Canvas.Pointing
import GraphReplay.Proofs.Canvas.Lines
import GraphReplay.Proofs.Scene.Weights
import GraphReplay.Proofs.Scene.Comparison
import GraphReplay.Proofs.Page.Display
import GraphReplay.Proofs.Page.Document
import GraphReplay.Proofs.Page.Snapshot
import GraphReplay.Proofs.Text.Pieces
import GraphReplay.Proofs.Text.Tokens
import GraphReplay.Proofs.Decimal.Rounding
import GraphReplay.Proofs.Decimal.Packing
import GraphReplay.Proofs.Page.Picture
import GraphReplay.Proofs.Decimal.Order
import GraphReplay.Proofs.Decimal.Intervals
import GraphReplay.Proofs.Decimal.Nearest
import GraphReplay.Proofs.Decimal.ReadBack
import GraphReplay.Proofs.Graph.Positions
import GraphReplay.Proofs.Trace.RoundTrip
import GraphReplay.Proofs.Trace.Grammar
import GraphReplay.Proofs.Playback.Fresh
import GraphReplay.Proofs.Scene.Order
import GraphReplay.Proofs.Graph.Lookups
import GraphReplay.Proofs.Graph.Undo
import GraphReplay.Proofs.Scene.Entries
import GraphReplay.Proofs.Canvas.Rebuild
import GraphReplay.Proofs.Canvas.Frames
import GraphReplay.Proofs.Decimal.Values
import GraphReplay.Proofs.Decimal.Literals
import GraphReplay.Proofs.Decimal.Scan
import GraphReplay.Proofs.Trace.WeightTokens
