import GraphReplay.Page.Desk

/-!
# What is on the page

The elements of the player page for every state of it, and the page for paths that lead nowhere.

Unlike the timers, the canvas, the boxes and the slider, which follow the player and may fall behind
it, elements with their attributes and texts are computed from the page as it is now.  Between a
player and its document stand values that are computed again only when they compare as changed, and
these are left out.  That is right if each of them is up to date whenever the document is looked at,
and if values that compare as equal are written alike, as texts, counts, truth values and speeds
above zero are.
-/

namespace GraphReplay

namespace Markup

/-- An element of a style class with a text in it. -/
def labelled (widget : Widget) (tag styleClass content : String) : Markup :=
  element widget tag [("class", styleClass)] [text content]

def button (widget : Widget) (styleClass content : String) : Markup :=
  labelled widget "button" styleClass content

def checkbox (label box : Widget) (content : String) : Markup :=
  element label "label" [] [element box "input" [("type", "checkbox")] [], text content]

def textField (widget : Widget) (styleClass placeholder : String) : Markup :=
  element widget "textarea" [("class", styleClass), ("placeholder", placeholder)] []

end Markup

namespace Desk

open Markup

def buttonClass : String := "xy-theme__button"

/-- The heading over the canvas. -/
def overlayMarkup : Markup :=
  element .overlay "div" [("class", "graph-overlay")]
    [element .title "h1" [] [text "Graph Trace Player"],
      labelled .subtitle "p" "subtitle"
        "Load a graph and a log, then step or run. Scroll to zoom. Drag to pan."]

/-- The two text fields with their buttons, and the boxes for the modes. -/
def inputMarkup (h : Desk) : Markup :=
  let errors := h.graphError.toList.map (labelled .graphError "p" "log-error")
  element .inputPanel "div" [("class", "input-panel")]
    ([checkbox .directedLabel .directedBox "Directed",
      checkbox .weightedLabel .weightedBox "Weighted",
      textField .graphField "graph-input" "3 2\n0 1\n1 2",
      button .graphButton buttonClass "Load graph"] ++
      errors ++
      [textField .traceField "log-input" "markInQueue 0\nvisit 0\nmarkVisited 0",
        button .traceButton buttonClass "Load log",
        button .clearButton buttonClass "Clear all"])

def statusText (p : Player) : String :=
  Text.numeral p.cursor ++ " / " ++ Text.numeral p.commands.length ++ " (" ++ p.phase.label ++ ")"

def controlsMarkup (p : Player) : Markup :=
  let s := p.settings
  let runClass := if p.paused then buttonClass else buttonClass ++ " active"
  let slider :=
    element .speedSlider "input"
      [("type", "range"), ("min", Decimal.text s.minSpeed), ("max", Decimal.text s.maxSpeed),
        ("step", Decimal.text s.speedStep)] []
  element .controls "div" [("class", "playback-controls")]
    [button .restartButton buttonClass "Restart",
      button .backButton (buttonClass ++ " step") "<",
      button .runButton runClass (if p.paused then "Run" else "Stop"),
      button .forwardButton (buttonClass ++ " step") ">",
      element .speedLabel "label" [("class", "speed")]
        [slider,
          element .speedText "span" [] [text ("Speed: " ++ Decimal.text p.speed ++ "x")]],
      labelled .status "span" "status" (statusText p)]

def messageMarkup (p : Player) : Markup :=
  element .messagePanel "div" [("class", "log-panel")]
    (p.scene.messages.mapIdx fun i m => labelled (.message i) "div" m.severity.styleClass m.text)

def markup (h : Desk) : Markup :=
  let controls := if hasControls h.player then [controlsMarkup h.player] else []
  element .frame "div" [("class", "fullscreen-graph")]
    ([element .canvas "canvas"
        [("class", "graph-canvas"), ("style", "display: block; cursor: grab;")] [],
      overlayMarkup, h.inputMarkup] ++ controls ++ [messageMarkup h.player])

end Desk

def notFoundMarkup : Markup :=
  .element .notFound "div" [("class", "not-found")]
    [.element .notFoundTitle "h1" [] [.text "Page not found"],
      .element .homeLink "a" [("href", "/")] [.text "Back to the player"]]

/-! ## The head of the document -/

/-- An entry of the head that describes the document. -/
structure MetaEntry where
  charset : Option String := none
  name : Option String := none
  content : Option String := none
deriving DecidableEq

/-- What the document says about itself, the same on every page. -/
structure Head where
  /-- The attributes of the root element. -/
  root : List (String × String)
  title : String
  entries : List MetaEntry
deriving DecidableEq

def documentHead : Head where
  root := [("lang", "en"), ("dir", "ltr"), ("data-theme", "light")]
  title := "Graph Trace Player"
  entries :=
    [{ charset := some "UTF-8" },
      { name := some "viewport", content := some "width=device-width, initial-scale=1.0" }]

end GraphReplay
