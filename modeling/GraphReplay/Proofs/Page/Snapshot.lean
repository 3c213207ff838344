import GraphReplay.Proofs.Page.Display
import GraphReplay.Proofs.Page.Document

/-!
# The snapshot on the page

A window is settled if the page in it displays its player as it is now.  Every event keeps a window
settled, so what is on the page is never an older state of the player or a part of one, and every
animation frame draws what the player is when the frame comes.
-/

namespace GraphReplay

/-- Whether a frame could not be drawn. -/
def Reply.isStuck : Reply → Bool
  | .stuck => true
  | _ => false

namespace Window

variable {win : Window} {desk : Desk}

/-! ## 1. Entries -/

/-- The player page, and as long as it is in the document it displays its player as it is now. -/
def Settled (win : Window) : Prop :=
  ∃ desk, win.page = .player desk ∧ (win.shown = true → desk.Settled)

theorem properties_eq (hpage : win.page = .player desk) (w : Widget) :
    win.properties w = desk.fields.get w := by
  unfold properties
  rw [hpage]
  rfl

theorem act_some (hpage : win.page = .player desk) (action : Action) :
    (win.act (some action)).1 = { win with page := .player (desk.act action).1 } := by
  unfold act
  rw [hpage]

theorem act_none (win : Window) : (win.act none).1 = win := by
  unfold act
  cases win.page <;> rfl

theorem Settled.act (hs : win.Settled) (action? : Option Action) : (win.act action?).1.Settled := by
  obtain ⟨desk, hpage, hsettled⟩ := hs
  cases action? with
  | none =>
    rw [act_none]
    exact ⟨desk, hpage, hsettled⟩
  | some action =>
    rw [act_some hpage]
    exact ⟨_, rfl, fun hshown => (hsettled hshown).act action⟩

/-- A text that is entered leaves the boxes as they are. -/
theorem Settled.enterValue (hs : win.Settled) (w : Widget) (value : String) :
    (win.enter w { win.properties w with value := some value }).Settled := by
  obtain ⟨desk, hpage, hsettled⟩ := hs
  refine ⟨_, enter_page hpage w _, ?_⟩
  intro hshown
  apply (hsettled hshown).entered
  rw [properties_eq hpage]

theorem changeAction?_eq_none {w : Widget} (hdirected : w ≠ .directedBox)
    (hweighted : w ≠ .weightedBox) (checked : Bool) : changeAction? w checked = none := by
  unfold changeAction?
  split
  · exact absurd rfl hdirected
  · exact absurd rfl hweighted
  · rfl

/-- A box is ahead of the page when it was checked or not, and its action makes up for that. -/
theorem Settled.change (hs : win.Settled) (w : Widget) (entry : Properties)
    (hentry : (win.properties w).checked.isSome = true → entry.checked.isSome = true) :
    ((win.enter w entry).act (changeAction? w (entry.checked.getD false))).1.Settled := by
  obtain ⟨desk, hpage, hsettled⟩ := hs
  have hentered := enter_page hpage w entry
  rw [properties_eq hpage] at hentry
  by_cases hdirected : w = .directedBox
  · subst hdirected
    rw [changeAction?, act_some hentered]
    refine ⟨_, rfl, ?_⟩
    intro hshown
    have hwas := hsettled hshown
    -- The box had a state before, so it has one now, and the action is about that one.
    rw [hwas.displays.directedBox] at hentry
    obtain ⟨checked, hchecked⟩ := Option.isSome_iff_exists.mp (hentry rfl)
    have hahead : { desk with fields := desk.fields.put .directedBox entry }.Showing checked
        desk.weighted := ⟨hwas.comparable, hwas.displays.putDirected hchecked⟩
    rw [hchecked, Option.getD_some]
    exact hahead.act_setDirected
  · by_cases hweighted : w = .weightedBox
    · subst hweighted
      rw [changeAction?, act_some hentered]
      refine ⟨_, rfl, ?_⟩
      intro hshown
      have hwas := hsettled hshown
      rw [hwas.displays.weightedBox] at hentry
      obtain ⟨checked, hchecked⟩ := Option.isSome_iff_exists.mp (hentry rfl)
      have hahead : { desk with fields := desk.fields.put .weightedBox entry }.Showing
          desk.player.graph.directed checked :=
        ⟨hwas.comparable, hwas.displays.putWeighted hchecked⟩
      rw [hchecked, Option.getD_some]
      exact hahead.act_setWeighted checked
    · rw [changeAction?_eq_none hdirected hweighted, act_none]
      exact ⟨_, hentered, fun hshown => (hsettled hshown).put hdirected hweighted entry⟩

/-! ## 2. The canvas -/

/-- What a frame comes to if it was asked for. -/
theorem animate_cases (hpage : win.page = .player desk) {c : Canvas}
    (hcanvas : desk.canvas = some c) :
    (c.tick? 0.016 = none ∧ win.animate = ({ win with frameRequested := false }, .stuck)) ∨
      ∃ moved, c.tick? 0.016 = some moved ∧
        win.animate = ({ win with page := .player { desk with canvas := some moved } },
          .drawn moved.draw) := by
  unfold animate
  rw [desk?_canvas hpage, hcanvas]
  dsimp only
  cases c.tick? 0.016 with
  | none => exact Or.inl ⟨rfl, rfl⟩
  | some moved =>
    refine Or.inr ⟨moved, rfl, ?_⟩
    dsimp only
    rw [mapDesk_page hpage]

theorem Settled.animate (hs : win.Settled) : win.animate.1.Settled := by
  obtain ⟨desk, hpage, hsettled⟩ := hs
  cases hcanvas : desk.canvas with
  | none =>
    unfold Window.animate
    rw [desk?_canvas hpage, hcanvas]
    exact ⟨desk, hpage, hsettled⟩
  | some c =>
    rcases animate_cases hpage hcanvas with ⟨_, hstuck⟩ | ⟨moved, htick, hmoved⟩
    · rw [hstuck]
      exact ⟨desk, hpage, hsettled⟩
    · rw [hmoved]
      exact ⟨_, rfl, fun hshown => (hsettled hshown).tick hcanvas htick⟩

/-- Only the way the canvas is looked at becomes another one. -/
theorem Settled.point (hs : win.Settled) (event : PointerEvent Float) :
    (win.point event).Settled := by
  obtain ⟨desk, hpage, hsettled⟩ := hs
  refine ⟨_, mapDesk_page hpage _, ?_⟩
  intro hshown
  -- There is a canvas: a page without one is not settled.
  obtain ⟨c, hcanvas, _⟩ := (hsettled hshown).displays.canvas
  rw [hcanvas]
  apply (hsettled hshown).withCanvas
  intro old hold hshows
  rw [hcanvas, Option.some_inj] at hold
  subst hold
  exact ⟨⟨hshows.ids, hshows.links, hshows.directed⟩, rfl, rfl⟩

/-! ## 3. Events -/

theorem Settled.handle (hs : win.Settled) (event : Event) : (win.handle event).1.Settled := by
  cases event with
  | click w => exact hs.act (clickAction? w)
  | input w value => exact (hs.enterValue w value).act (inputAction? w value)
  | change w checked value =>
    apply hs.change w ⟨checked <|> (win.properties w).checked, value <|> (win.properties w).value⟩
    intro hold
    cases checked with
    | none => exact hold
    | some checked => rfl
  | pointer event => exact hs.point event
  | frame =>
    have hanimate := hs.animate
    unfold Window.handle
    dsimp only
    split
    · exact hanimate
    · exact hs
  | timeout =>
    obtain ⟨desk, hpage, hsettled⟩ := hs
    unfold Window.handle
    rw [desk?_fire hpage]
    cases hfire : desk.fire with
    | none => exact ⟨desk, hpage, hsettled⟩
    | some fired => exact ⟨fired.1, rfl, fun hshown => (hsettled hshown).fire hfire⟩
  | unmount =>
    obtain ⟨desk, hpage, _⟩ := hs
    exact ⟨desk.leave, mapDesk_page hpage _, nofun⟩

theorem document_of_shown (hpage : win.page = .player desk) (hshown : win.shown = true) :
    win.document = [desk.markup] := by
  unfold document
  rw [hshown, hpage]
  rfl

/-- The boxes are always there. -/
theorem boxes_mem_widgets (hpage : win.page = .player desk) (hshown : win.shown = true) :
    .directedBox ∈ win.widgets ∧ .weightedBox ∈ win.widgets := by
  have hwidgets : ∃ others, win.widgets =
      [.frame, .canvas, .overlay, .title, .subtitle, .inputPanel, .directedLabel, .directedBox,
        .weightedLabel, .weightedBox] ++ others := by
    unfold widgets elements
    rw [document_of_shown hpage hshown]
    exact ⟨_, rfl⟩
  obtain ⟨others, hwidgets⟩ := hwidgets
  rw [hwidgets]
  simp

theorem Settled.forget (hs : win.Settled) : win.forget.Settled := by
  obtain ⟨desk, hpage, hsettled⟩ := hs
  have hforget : win.forget.page =
      .player { desk with fields := desk.fields.keep win.widgets } := by
    unfold Window.forget
    rw [hpage]
    rfl
  refine ⟨_, hforget, ?_⟩
  intro hshown
  -- The boxes never go, so what they are is not forgotten.
  obtain ⟨hdirected, hweighted⟩ := boxes_mem_widgets hpage hshown
  obtain ⟨hcomparable, _, hcanvas, hdirectedBox, hweightedBox⟩ := hsettled hshown
  refine ⟨hcomparable, rfl, hcanvas, ?_, ?_⟩
  · rw [Fields.get_keep_of_mem hdirected]
    exact hdirectedBox
  · rw [Fields.get_keep_of_mem hweighted]
    exact hweightedBox

theorem Settled.step (hs : win.Settled) (event : Event) : (win.step event).1.Settled := by
  by_cases htarget : event.target?.all win.widgets.contains = true
  · rw [step_of_target htarget]
    exact (hs.handle event).forget
  · unfold Window.step
    rw [if_neg htarget]
    exact hs

theorem Settled.run (hs : win.Settled) (events : List Event) : (win.run events).Settled := by
  induction events generalizing win with
  | nil => exact hs
  | cons event events ih => exact ih (hs.step event)

theorem settled_launch {o : Opening} (hcontext : o.hasContext = true) :
    (launch { o with path := "/" }).1.Settled := by
  unfold launch openCanvas
  rw [if_pos rfl, if_pos hcontext]
  exact ⟨_, rfl, fun _ => Desk.settled_start _⟩

/-! ## 4. Frames -/

/-- The replies to some events, one after the other. -/
def replies (win : Window) : List Event → List Reply
  | [] => []
  | event :: events => (win.step event).2.1 :: (win.step event).1.replies events

theorem frameRequested_act (win : Window) (action? : Option Action) :
    (win.act action?).1.frameRequested = win.frameRequested := by
  unfold act
  split <;> rfl

theorem frameRequested_animate (hstuck : win.animate.2.isStuck = false) :
    win.animate.1.frameRequested = win.frameRequested := by
  unfold animate at hstuck ⊢
  cases hcanvas : win.page.desk?.bind Desk.canvas with
  | none => rfl
  | some c =>
    rw [hcanvas] at hstuck
    dsimp only at hstuck ⊢
    cases htick : c.tick? 0.016 with
    | none =>
      rw [htick] at hstuck
      exact nomatch hstuck
    | some moved => rfl

theorem frameRequested_handle {event : Event} (hstuck : (win.handle event).2.1.isStuck = false) :
    (win.handle event).1.frameRequested = win.frameRequested := by
  cases event with
  | click w => exact frameRequested_act win _
  | input w value => exact frameRequested_act (win.enter w _) _
  | change w checked value => exact frameRequested_act (win.enter w _) _
  | pointer event => rfl
  | frame =>
    unfold handle at hstuck ⊢
    dsimp only at hstuck ⊢
    split
    · next hrequested =>
      rw [if_pos hrequested] at hstuck
      exact frameRequested_animate hstuck
    · rfl
  | timeout =>
    unfold handle
    dsimp only
    split <;> rfl
  | unmount => rfl

/-- Only a frame that cannot be drawn is the last one. -/
theorem frameRequested_step {event : Event} (hstuck : (win.step event).2.1.isStuck = false) :
    (win.step event).1.frameRequested = win.frameRequested := by
  by_cases htarget : event.target?.all win.widgets.contains = true
  · rw [step_of_target htarget] at hstuck ⊢
    exact frameRequested_handle hstuck
  · unfold step
    rw [if_neg htarget]

theorem frameRequested_run {events : List Event}
    (hstuck : (win.replies events).any Reply.isStuck = false) :
    (win.run events).frameRequested = win.frameRequested := by
  induction events generalizing win with
  | nil => rfl
  | cons event events ih =>
    rw [replies, List.any_cons, Bool.or_eq_false_iff] at hstuck
    exact (ih hstuck.2).trans (frameRequested_step hstuck.1)

theorem frameRequested_launch {o : Opening} (hcontext : o.hasContext = true) :
    (launch { o with path := "/" }).1.frameRequested = true := by
  unfold launch
  rw [if_pos rfl]
  exact hcontext

/-- What the next frame comes to once a frame was asked for. -/
theorem step_frame (hpage : win.page = .player desk) (hrequested : win.frameRequested = true)
    {c : Canvas} (hcanvas : desk.canvas = some c) :
    (c.tick? 0.016 = none ∧ (win.step .frame).2.1 = .stuck) ∨
      ∃ moved, c.tick? 0.016 = some moved ∧ (win.step .frame).2.1 = .drawn moved.draw := by
  have hreply : (win.step .frame).2.1 = win.animate.2 := by
    rw [step_of_target rfl]
    unfold handle
    dsimp only
    rw [if_pos hrequested]
  rw [hreply]
  rcases animate_cases hpage hcanvas with ⟨htick, hstuck⟩ | ⟨moved, htick, hmoved⟩
  · rw [hstuck]
    exact Or.inl ⟨htick, rfl⟩
  · rw [hmoved]
    exact Or.inr ⟨moved, htick, rfl⟩

/-! ## 5. Every list of events -/

/-- What is on the page and drawn by the next frame is the page's player as it is now. -/
structure Presents (win : Window) (desk : Desk) : Prop where
  page : win.page = .player desk
  canvas : ∃ c, desk.canvas = some c ∧ desk.PresentedBy c
  weightedBox : (win.properties .weightedBox).checked = some desk.weighted
  directedBox : (win.properties .directedBox).checked = some desk.player.graph.directed
  document : ∃ document, win.document = [document] ∧ Desk.Tells document desk.player
  /-- The canvas that is drawn presents the player as well, or else nothing is drawn. -/
  frame : (win.step .frame).2.1 = .stuck ∨
    ∃ drawn, desk.PresentedBy drawn ∧ (win.step .frame).2.1 = .drawn drawn.draw

theorem Settled.presents (hs : win.Settled) (hshown : win.shown = true)
    (hrequested : win.frameRequested = true) : ∃ desk, win.Presents desk := by
  obtain ⟨desk, hpage, hsettled⟩ := hs
  have hnow := hsettled hshown
  obtain ⟨c, hcanvas, _⟩ := hnow.displays.canvas
  refine ⟨desk, hpage, ⟨c, hcanvas, hnow.presentedBy hcanvas⟩, ?_, ?_,
    ⟨_, document_of_shown hpage hshown, desk.tells_markup⟩, ?_⟩
  · rw [properties_eq hpage]
    exact hnow.displays.weightedBox
  · rw [properties_eq hpage]
    exact hnow.displays.directedBox
  · rcases step_frame hpage hrequested hcanvas with ⟨_, hstuck⟩ | ⟨moved, htick, hdrawn⟩
    · exact Or.inl hstuck
    · -- The canvas moves before it is drawn, which leaves the page settled.
      have hlater := (hnow.tick hcanvas htick).presentedBy rfl
      exact Or.inr ⟨moved, ⟨hlater.graph, hlater.scene, hlater.weighted⟩, hdrawn⟩

/-- After any events the page presents its player as it is then, as long as it is in the document
and no frame failed. -/
theorem page_presents_player (o : Opening) (hcontext : o.hasContext = true) (events : List Event)
    (hframes : ((launch { o with path := "/" }).1.replies events).any Reply.isStuck = false)
    (hshown : ((launch { o with path := "/" }).1.run events).shown = true) :
    ∃ desk, ((launch { o with path := "/" }).1.run events).Presents desk :=
  ((settled_launch hcontext).run events).presents hshown
    ((frameRequested_run hframes).trans (frameRequested_launch hcontext))

/-- A weight is set while the page is told to show weights and to draw arrows, with frames in
between, and the message that comes next is on the page. -/
theorem page_presents_player_of_weighted_arrows :
    ∃ events : List Event, events = [.frame, .input .graphField "2 1\n0 1", .click .graphButton,
      .input .traceField "setEdgeWeight 0 1 2\nlog ready", .click .traceButton, .frame,
      .click .forwardButton, .change .weightedBox (some true) none, .frame,
      .change .directedBox (some true) none, .click .forwardButton, .frame] ∧
    ((launch {}).1.replies events).any Reply.isStuck = false ∧
    ((launch {}).1.run events).shown = true ∧
    ∃ desk, ((launch {}).1.run events).Presents desk ∧ desk.weighted = true ∧
      desk.player.graph.directed = true ∧ desk.player.phase = .finished ∧
      desk.player.scene.messages = [⟨.info, "ready"⟩] := by
  refine ⟨_, rfl, by decide +kernel, by decide +kernel, ?_⟩
  refine (page_presents_player {} rfl _ (by decide +kernel) (by decide +kernel)).imp
    fun desk hpresents => ⟨hpresents, ?_⟩
  have hfacts : some (desk.weighted, desk.player.graph.directed, desk.player.phase,
      desk.player.scene.messages) = some (true, true, .finished, [⟨.info, "ready"⟩]) := by
    refine (congrArg (Option.map fun d => (d.weighted, d.player.graph.directed, d.player.phase,
      d.player.scene.messages)) (congrArg Page.desk? hpresents.page)).symm.trans ?_
    decide +kernel
  simpa only [Option.some_inj, Prod.mk.injEq] using hfacts

end Window

end GraphReplay
