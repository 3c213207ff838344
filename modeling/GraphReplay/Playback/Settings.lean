/-!
# Playback settings

The colors of the built-in markers, the range of speeds, and the modes a player starts in.
-/

namespace GraphReplay

structure Palette where
  visited : String := "#00cc00"
  queued : String := "#ffd700"
  /-- The stroke of a highlighted edge. -/
  highlight : String := "var(--color-primary)"
deriving DecidableEq

/-- How a player behaves.  Speeds are in steps per second. -/
structure Settings where
  palette : Palette := {}
  defaultSpeed : Float := 1.0
  minSpeed : Float := 0.5
  maxSpeed : Float := 10.0
  /-- The distance between two positions of the speed slider. -/
  speedStep : Float := 0.5
  /-- What the message about a faulty line starts with. -/
  errorHeading : String := "Error"
  directed : Bool := false
  weighted : Bool := false
deriving DecidableEq

/-- The settings of a player that is given none. -/
def Settings.standard : Settings := {}

end GraphReplay
