import GraphReplay.Page.Markup

/-!
# The browser window

A window shows the player page or, for any other path, a page that says so.  It takes the events of
the browser: clicks, entries into fields, pointer events on the canvas, timeouts and animation
frames.  An event of an element that has no use for it changes the properties of the element only.
The document is that of the page as it is when everything that follows from an event is over.
-/

namespace GraphReplay

inductive Page where
  | player (desk : Desk)
  /-- The path leads nowhere; what was entered into the page is kept. -/
  | notFound (fields : Fields)

namespace Page

def desk? : Page → Option Desk
  | player desk => some desk
  | notFound _ => none

def mapDesk (f : Desk → Desk) : Page → Page
  | player desk => player (f desk)
  | notFound fields => notFound fields

def fields : Page → Fields
  | player desk => desk.fields
  | notFound fields => fields

def mapFields (f : Fields → Fields) : Page → Page
  | player desk => player { desk with fields := f desk.fields }
  | notFound fields => notFound (f fields)

def markup : Page → Markup
  | player desk => desk.markup
  | notFound _ => notFoundMarkup

end Page

structure Window where
  page : Page
  /-- Whether the page is in the document; when it was left, frames go on. -/
  shown : Bool
  /-- Whether an animation frame was asked for. -/
  frameRequested : Bool
  /-- The corner of the canvas in the coordinates of the window. -/
  left : Float
  top : Float

structure Opening where
  path : String := "/"
  /-- The size of the element that holds the canvas. -/
  width : Int := 800
  height : Int := 600
  /-- Whether there is a context to draw on. -/
  hasContext : Bool := true
  /-- The corner of the canvas in the coordinates of the window. -/
  left : Float := 0.0
  top : Float := 0.0
deriving DecidableEq

inductive Event where
  | click (w : Widget)
  /-- A text was entered. -/
  | input (w : Widget) (value : String)
  /-- An entry was finished, perhaps with other properties. -/
  | change (w : Widget) (checked : Option Bool) (value : Option String)
  /-- The pointer is over the canvas; coordinates are those of the window. -/
  | pointer (event : PointerEvent Float)
  | frame
  | timeout
  | unmount

/-- The element that an event is about, if it is about one. -/
def Event.target? : Event → Option Widget
  | click w | input w _ | change w .. => some w
  | pointer _ => some .canvas
  | frame | timeout | unmount => none

/-- What an event comes to. -/
inductive Reply where
  | done
  /-- There is no such element. -/
  | missing
  /-- A pointer event was taken; whether the browser is kept from its own reaction to it. -/
  | taken (prevented : Bool)
  /-- Whether a timeout went off. -/
  | fired (any : Bool)
  | drawn (calls : List DrawCall)
  /-- The layout cannot move, and no further frame was asked for. -/
  | stuck

namespace Window

/-! ## 1. The document -/

def document (win : Window) : List Markup :=
  if win.shown then [win.page.markup] else []

/-- The elements in the document with their tags, in document order. -/
def elements (win : Window) : List (Widget × String) :=
  Markup.elementsOfList win.document

def widgets (win : Window) : List Widget :=
  win.elements.map (·.1)

/-- The element with this tag after `n` others with it. -/
def find? (win : Window) (tag : String) (n : Nat) : Option Widget :=
  ((win.elements.filter (·.2 == tag))[n]?).map (·.1)

def properties (win : Window) (w : Widget) : Properties :=
  win.page.fields.get w

/-- The timeouts that have not gone off, oldest first. -/
def timers (win : Window) : List Timer :=
  match win.page.desk? with
  | some desk => desk.timers
  | none => []

/-- The size that the drawing surface of the canvas is given, if there is a canvas. -/
def surfaceSize (o : Opening) : Nat × Nat :=
  if o.path = "/" then (o.width.toNat, o.height.toNat) else (0, 0)

def openCanvas (o : Opening) : Option Canvas :=
  if o.hasContext then
    some (Canvas.new (Graph.empty Settings.standard.directed) (Float.ofInt o.width)
      (Float.ofInt o.height))
  else none

/-- A window as it is opened, and the lines of the journal. -/
def launch (o : Opening) : Window × List Notice :=
  let started : Notice := ⟨.info, "Logging initialized"⟩
  if o.path = "/" then
    (⟨.player (Desk.start (openCanvas o)), true, o.hasContext, o.left, o.top⟩,
      started :: if o.hasContext then [] else [⟨.error, "2d canvas context unavailable"⟩])
  else (⟨.notFound [], true, false, o.left, o.top⟩, [started])

/-! ## 2. Events -/

def clickAction? : Widget → Option Action
  | .graphButton => some .submitGraph
  | .traceButton => some .submitTrace
  | .clearButton => some .clear
  | .restartButton => some .restart
  | .backButton => some .back
  | .runButton => some .runOrStop
  | .forwardButton => some .forward
  | _ => none

def inputAction? (w : Widget) (value : String) : Option Action :=
  match w with
  | .graphField => some (.typeGraph value)
  | .traceField => some (.typeTrace value)
  | .speedSlider => some (.typeSpeed value)
  | _ => none

/-- What a finished entry asks for, when the box is then checked or not. -/
def changeAction? (w : Widget) (checked : Bool) : Option Action :=
  match w with
  | .directedBox => some (.setDirected checked)
  | .weightedBox => some (.setWeighted checked)
  | _ => none

def enter (win : Window) (w : Widget) (p : Properties) : Window :=
  { win with page := win.page.mapFields (·.put w p) }

def act (win : Window) (action? : Option Action) : Window × List Notice :=
  match win.page, action? with
  | .player desk, some action =>
    let (desk, notices) := desk.act action
    ({ win with page := .player desk }, notices)
  | _, _ => (win, [])

/-- The page moves on by one frame of 16 milliseconds and is drawn. -/
def animate (win : Window) : Window × Reply :=
  match win.page.desk?.bind Desk.canvas with
  | none => (win, .drawn [])
  | some canvas =>
    match canvas.tick? 0.016 with
    -- The next frame is asked for when this one is done, and it never is.
    | none => ({ win with frameRequested := false }, .stuck)
    | some canvas =>
      ({ win with page := win.page.mapDesk fun h => { h with canvas := some canvas } },
        .drawn canvas.draw)

def point (win : Window) (event : PointerEvent Float) : Window :=
  let look (c : Canvas) : Canvas :=
    { c with view := c.view.handle (event.seenFrom win.left win.top) }
  { win with page := win.page.mapDesk fun h => { h with canvas := h.canvas.map look } }

/-- Whether the browser is kept from its own reaction to a pointer event. -/
def preventsDefault : PointerEvent Float → Bool
  | .wheel .. => true
  | _ => false

/-- The window after an event of an element in the document or of no element, what the event comes
to, and the lines of the journal. -/
def handle (win : Window) : Event → Window × Reply × List Notice
  | .click w =>
    let (win, notices) := win.act (clickAction? w)
    (win, .done, notices)
  | .input w value =>
    let entered := win.enter w { win.properties w with value := some value }
    let (win, notices) := entered.act (inputAction? w value)
    (win, .done, notices)
  | .change w checked value =>
    let old := win.properties w
    let p : Properties := ⟨checked <|> old.checked, value <|> old.value⟩
    let (win, notices) := (win.enter w p).act (changeAction? w (p.checked.getD false))
    (win, .done, notices)
  | .pointer event => (win.point event, .taken (preventsDefault event), [])
  | .frame =>
    if win.frameRequested then
      let (win, reply) := win.animate
      (win, reply, [])
    else (win, .drawn [], [])
  | .timeout =>
    match win.page.desk?.bind Desk.fire with
    | some (desk, notices) => ({ win with page := .player desk }, .fired true, notices)
    | none => (win, .fired false, [])
  | .unmount => ({ win with page := win.page.mapDesk Desk.leave, shown := false }, .done, [])

/-- The properties of elements that are gone are forgotten. -/
def forget (win : Window) : Window :=
  { win with page := win.page.mapFields (·.keep win.widgets) }

/-- The window when an event and everything that follows from it is over.  Nothing follows from an
event of an element that is not in the document. -/
def step (win : Window) (e : Event) : Window × Reply × List Notice :=
  if e.target?.all win.widgets.contains then
    let (win, reply, notices) := win.handle e
    (win.forget, reply, notices)
  else (win, .missing, [])

end Window

end GraphReplay
