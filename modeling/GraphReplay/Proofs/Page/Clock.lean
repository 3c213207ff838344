import GraphReplay.Page.Window

/-!
# The clock of the page

The clock is what a page has beside its fields and its canvas: the player and the timers that were
armed for it.  `Window.step_clock` says all that an event can do to it: nothing, an operation that
the player is asked for, or the oldest timeout going off.
-/

namespace GraphReplay

namespace Desk

variable {h k l : Desk}

/-- Two pages with the same player and the same timers. -/
structure SameClock (h k : Desk) : Prop where
  player : k.player = h.player
  timers : k.timers = h.timers
  armed : k.armed = h.armed
  timersMade : k.timersMade = h.timersMade

theorem SameClock.refl (h : Desk) : SameClock h h :=
  ⟨rfl, rfl, rfl, rfl⟩

theorem SameClock.trans (hhk : SameClock h k) (hkl : SameClock k l) : SameClock h l where
  player := hkl.player.trans hhk.player
  timers := hkl.timers.trans hhk.timers
  armed := hkl.armed.trans hhk.armed
  timersMade := hkl.timersMade.trans hhk.timersMade

theorem SameClock.ite {c : Prop} [Decidable c] (hk : SameClock h k) (hl : SameClock h l) :
    SameClock h (if c then k else l) := by
  split
  · exact hk
  · exact hl

/-! ## 1. Another player -/

/-- The page with another player, and with another timer if another tick is due. -/
def tune (h : Desk) (next : Player) : Desk :=
  if dueTick next = dueTick h.player then { h with player := next }
  else { h with player := next }.arm (dueTick next)

theorem player_arm (h : Desk) (tick : Option Tick) : (h.arm tick).player = h.player := by
  cases tick with
  | none => rfl
  | some tick => rfl

theorem player_tune (h : Desk) (next : Player) : (h.tune next).player = next := by
  unfold tune
  split
  · rfl
  · exact player_arm _ _

theorem SameClock.arm (hsame : SameClock h k) (tick : Option Tick) :
    SameClock (h.arm tick) (k.arm tick) := by
  unfold Desk.arm
  rw [hsame.timers, hsame.armed, hsame.timersMade]
  cases tick with
  | none => exact ⟨hsame.player, rfl, rfl, rfl⟩
  | some tick => exact ⟨hsame.player, rfl, rfl, rfl⟩

theorem SameClock.tune (hsame : SameClock h k) (next : Player) :
    SameClock (h.tune next) (k.tune next) := by
  have hnext : SameClock { h with player := next } { k with player := next } :=
    ⟨rfl, hsame.timers, hsame.armed, hsame.timersMade⟩
  unfold Desk.tune
  rw [hsame.player]
  split
  · exact hnext
  · exact hnext.arm (dueTick next)

/-- Scene, graph, box and slider are no part of the clock. -/
theorem tune_follow (h : Desk) (next : Player) : SameClock (h.tune next) (h.follow next) := by
  have htune : SameClock (h.tune next) (h.tune next) := SameClock.refl _
  have hgraph {k : Desk} (hk : SameClock (h.tune next) k) : SameClock (h.tune next) k.showGraph :=
    ⟨hk.player, hk.timers, hk.armed, hk.timersMade⟩
  have hscene {k : Desk} (hk : SameClock (h.tune next) k) : SameClock (h.tune next) k.showScene :=
    ⟨hk.player, hk.timers, hk.armed, hk.timersMade⟩
  have hbox {k : Desk} (hk : SameClock (h.tune next) k) : SameClock (h.tune next) k.writeDirected :=
    ⟨hk.player, hk.timers, hk.armed, hk.timersMade⟩
  have hslider {k : Desk} (hk : SameClock (h.tune next) k) : SameClock (h.tune next) k.writeSpeed :=
    ⟨hk.player, hk.timers, hk.armed, hk.timersMade⟩
  have hshown := htune.ite (hgraph htune) (c := (next.graph == h.player.graph) = true)
  have hpainted := hshown.ite (hscene hshown) (c := (next.scene == h.player.scene) = true)
  have hchecked := hpainted.ite (hbox hpainted)
    (c := next.graph.directed = h.player.graph.directed)
  exact (hslider hchecked).ite hchecked

/-! ## 2. Actions -/

/-- What an action asks of the player. -/
def operation? (h : Desk) : Action → Option Operation
  | .submitGraph => some (.readGraph h.graphText)
  | .submitTrace => some (.loadTrace h.traceText)
  | .clear => some .clear
  | .restart => some .reset
  | .back => some .backward
  | .runOrStop => some .toggle
  | .forward => some .forward
  | .setDirected checked => some (.edit (.setDirected checked))
  | .setWeighted _ | .typeGraph _ | .typeTrace _ => none
  | .typeSpeed text => (Decimal.read? text).map .setSpeed

/-- A text that is no number is left in the slider without an effect. -/
theorem act_typeSpeed_of_eq_none {h : Desk} {text : String} (hread : Decimal.read? text = none) :
    h.act (.typeSpeed text) = (h, []) := by
  simp only [act, hread]

theorem act_typeSpeed_of_eq_some {h : Desk} {text : String} {speed : Float}
    (hread : Decimal.read? text = some speed) :
    h.act (.typeSpeed text) = h.operate (.setSpeed speed) := by
  simp only [act, hread]

theorem act_clock (h : Desk) (action : Action) :
    (h.operation? action = none ∧ SameClock h (h.act action).1) ∨
      ∃ op, h.operation? action = some op ∧
        SameClock (h.tune (h.player.after op)) (h.act action).1 := by
  have hop : ∀ op, SameClock (h.tune (h.player.after op)) (h.operate op).1 :=
    fun op => h.tune_follow (h.player.after op)
  cases action with
  | submitGraph =>
    have herror (k : Desk) (e : Option String) : SameClock k { k with graphError := e } :=
      ⟨rfl, rfl, rfl, rfl⟩
    exact Or.inr ⟨.readGraph h.graphText, rfl, (hop _).trans (herror _ _)⟩
  | clear =>
    have htexts (k : Desk) :
        SameClock k (({ k with graphError := none }.writeGraphText "").writeTraceText "") :=
      ⟨rfl, rfl, rfl, rfl⟩
    exact Or.inr ⟨.clear, rfl, (hop .clear).trans (htexts _)⟩
  | submitTrace => exact Or.inr ⟨_, rfl, hop (.loadTrace h.traceText)⟩
  | restart => exact Or.inr ⟨_, rfl, hop .reset⟩
  | back => exact Or.inr ⟨_, rfl, hop .backward⟩
  | runOrStop => exact Or.inr ⟨_, rfl, hop .toggle⟩
  | forward => exact Or.inr ⟨_, rfl, hop .forward⟩
  | setDirected checked => exact Or.inr ⟨_, rfl, hop (.edit (.setDirected checked))⟩
  | setWeighted checked => exact Or.inl ⟨rfl, rfl, rfl, rfl, rfl⟩
  | typeGraph text => exact Or.inl ⟨rfl, rfl, rfl, rfl, rfl⟩
  | typeTrace text => exact Or.inl ⟨rfl, rfl, rfl, rfl, rfl⟩
  | typeSpeed text =>
    have hasked : h.operation? (.typeSpeed text) = (Decimal.read? text).map .setSpeed := rfl
    cases hread : Decimal.read? text with
    | none =>
      rw [hasked, hread, act_typeSpeed_of_eq_none hread]
      exact Or.inl ⟨rfl, SameClock.refl h⟩
    | some speed =>
      rw [hasked, hread, act_typeSpeed_of_eq_some hread]
      exact Or.inr ⟨.setSpeed speed, rfl, hop _⟩

end Desk

/-! ## 3. Events -/

namespace Window

variable {win : Window} {desk : Desk}

open Desk (SameClock)

/-- The window after some events. -/
def run (win : Window) (events : List Event) : Window :=
  events.foldl (fun win event => (win.step event).1) win

/-- What the user does with an event of an element. -/
def action? (win : Window) : Event → Option Action
  | .click w => clickAction? w
  | .input w value => inputAction? w value
  | .change w checked _ => changeAction? w ((checked <|> (win.properties w).checked).getD false)
  | _ => none

/-- All that an event can do to the clock. -/
inductive ClockStep (win : Window) (desk : Desk) (event : Event) (next : Desk) : Prop where
  | still (hsame : SameClock desk next)
  | operated {action : Action} {op : Operation} (hshown : win.shown = true)
      (haction : win.action? event = some action) (hop : desk.operation? action = some op)
      (hsame : SameClock (desk.tune (desk.player.after op)) next)
  | fired {timer : Timer} {rest : List Timer} (hevent : event = .timeout)
      (htimers : desk.timers = timer :: rest)
      (hsame : SameClock
        ({ desk with timers := rest }.tune (desk.player.after (.tick timer.tick.token))) next)

theorem ClockStep.of_act {event : Event} {next : Desk} (hshown : win.shown = true)
    (hcases : SameClock desk next ∨ ∃ action op, win.action? event = some action ∧
      desk.operation? action = some op ∧ SameClock (desk.tune (desk.player.after op)) next) :
    ClockStep win desk event next := by
  rcases hcases with hsame | ⟨action, op, haction, hop, hsame⟩
  · exact .still hsame
  · exact .operated hshown haction hop hsame

theorem act_cases (hpage : win.page = .player desk) (action? : Option Action) :
    ∃ next, (win.act action?).1.page = .player next ∧ (win.act action?).1.shown = win.shown ∧
      (SameClock desk next ∨ ∃ action op, action? = some action ∧
        desk.operation? action = some op ∧
          SameClock (desk.tune (desk.player.after op)) next) := by
  unfold act
  rw [hpage]
  cases action? with
  | none => exact ⟨desk, hpage, rfl, Or.inl (SameClock.refl desk)⟩
  | some action =>
    refine ⟨(desk.act action).1, rfl, rfl, ?_⟩
    rcases desk.act_clock action with ⟨_, hsame⟩ | ⟨op, hop, hsame⟩
    · exact Or.inl hsame
    · exact Or.inr ⟨action, op, rfl, hop, hsame⟩

theorem enter_page (hpage : win.page = .player desk) (w : Widget) (entry : Properties) :
    (win.enter w entry).page = .player { desk with fields := desk.fields.put w entry } := by
  unfold enter
  rw [hpage]
  rfl

/-- What the user entered is in the fields, and these are no part of the clock. -/
theorem act_enter_cases (hpage : win.page = .player desk) (w : Widget) (entered : Properties)
    (action? : Option Action) :
    ∃ next, ((win.enter w entered).act action?).1.page = .player next ∧
      ((win.enter w entered).act action?).1.shown = win.shown ∧
      (SameClock desk next ∨ ∃ action op, action? = some action ∧
        desk.operation? action = some op ∧
          SameClock (desk.tune (desk.player.after op)) next) := by
  have hfields : SameClock desk { desk with fields := desk.fields.put w entered } :=
    ⟨rfl, rfl, rfl, rfl⟩
  obtain ⟨next, hnext, hkept, hcases⟩ := act_cases (enter_page hpage w entered) action?
  refine ⟨next, hnext, hkept, ?_⟩
  rcases hcases with hsame | ⟨action, op, haction, hop, hsame⟩
  · exact Or.inl (hfields.trans hsame)
  · exact Or.inr ⟨action, op, haction, hop, (hfields.tune _).trans hsame⟩

theorem mapDesk_page (hpage : win.page = .player desk) (f : Desk → Desk) :
    win.page.mapDesk f = .player (f desk) := by
  rw [hpage]
  rfl

theorem desk?_canvas (hpage : win.page = .player desk) :
    win.page.desk?.bind Desk.canvas = desk.canvas := by
  rw [hpage]
  rfl

theorem animate_clock (hpage : win.page = .player desk) :
    ∃ next, win.animate.1.page = .player next ∧ win.animate.1.shown = win.shown ∧
      SameClock desk next := by
  unfold animate
  rw [desk?_canvas hpage]
  cases desk.canvas with
  | none => exact ⟨desk, hpage, rfl, SameClock.refl desk⟩
  | some canvas =>
    dsimp only
    cases canvas.tick? 0.016 with
    | none => exact ⟨desk, hpage, rfl, SameClock.refl desk⟩
    | some moved => exact ⟨_, mapDesk_page hpage _, rfl, rfl, rfl, rfl, rfl⟩

theorem desk?_fire (hpage : win.page = .player desk) : win.page.desk?.bind Desk.fire = desk.fire := by
  rw [hpage]
  rfl

theorem handle_timeout (hpage : win.page = .player desk) {timer : Timer} {rest : List Timer}
    (htimers : desk.timers = timer :: rest) :
    (win.handle .timeout).1.page = .player
        ({ desk with timers := rest }.follow (desk.player.after (.tick timer.tick.token))) ∧
      (win.handle .timeout).1.shown = win.shown ∧ (win.handle .timeout).2.1 = .fired true := by
  have hfire : desk.fire = some ({ desk with timers := rest }.operate (.tick timer.tick.token)) := by
    unfold Desk.fire
    rw [htimers]
  unfold handle
  rw [desk?_fire hpage, hfire]
  exact ⟨rfl, rfl, rfl⟩

/-- What a window does with an event that it takes. -/
theorem handle_clock (hpage : win.page = .player desk) {event : Event} (hunmount : event ≠ .unmount)
    (hshown : event.target?.isSome = true → win.shown = true) :
    ∃ next, (win.handle event).1.page = .player next ∧ (win.handle event).1.shown = win.shown ∧
      ClockStep win desk event next := by
  cases event with
  | click w =>
    obtain ⟨next, hnext, hkept, hcases⟩ := act_cases hpage (clickAction? w)
    exact ⟨next, hnext, hkept, .of_act (hshown rfl) hcases⟩
  | input w value =>
    obtain ⟨next, hnext, hkept, hcases⟩ := act_enter_cases hpage w
      { win.properties w with value := some value } (inputAction? w value)
    exact ⟨next, hnext, hkept, .of_act (hshown rfl) hcases⟩
  | change w checked value =>
    obtain ⟨next, hnext, hkept, hcases⟩ := act_enter_cases hpage w
      ⟨checked <|> (win.properties w).checked, value <|> (win.properties w).value⟩
      (changeAction? w ((checked <|> (win.properties w).checked).getD false))
    exact ⟨next, hnext, hkept, .of_act (hshown rfl) hcases⟩
  | pointer event =>
    exact ⟨_, mapDesk_page hpage _, rfl, .still ⟨rfl, rfl, rfl, rfl⟩⟩
  | frame =>
    obtain ⟨next, hnext, hkept, hsame⟩ := animate_clock hpage
    unfold handle
    dsimp only
    split
    · exact ⟨next, hnext, hkept, .still hsame⟩
    · exact ⟨desk, hpage, rfl, .still (SameClock.refl desk)⟩
  | timeout =>
    cases htimers : desk.timers with
    | nil =>
      have hfire : desk.fire = none := by
        unfold Desk.fire
        rw [htimers]
      unfold handle
      rw [desk?_fire hpage, hfire]
      exact ⟨desk, hpage, rfl, .still (SameClock.refl desk)⟩
    | cons timer rest =>
      obtain ⟨hnext, hkept, _⟩ := handle_timeout hpage htimers
      exact ⟨_, hnext, hkept, .fired rfl htimers (Desk.tune_follow _ _)⟩
  | unmount => exact absurd rfl hunmount

theorem step_of_target {event : Event} (h : event.target?.all win.widgets.contains = true) :
    win.step event =
      ((win.handle event).1.forget, (win.handle event).2.1, (win.handle event).2.2) := by
  unfold step
  rw [if_pos h]

theorem forget_clock (hpage : win.page = .player desk) :
    ∃ next, win.forget.page = .player next ∧ win.forget.shown = win.shown ∧
      SameClock desk next := by
  unfold forget
  rw [hpage]
  exact ⟨_, rfl, rfl, rfl, rfl, rfl, rfl⟩

theorem shown_of_mem_widgets {w : Widget} (h : w ∈ win.widgets) : win.shown = true := by
  cases hshown : win.shown with
  | true => rfl
  | false =>
    have hempty : win.widgets = [] := by
      unfold widgets elements document
      rw [hshown]
      rfl
    rw [hempty] at h
    exact nomatch h

theorem ClockStep.trans {event : Event} {k l : Desk} (h : ClockStep win desk event k)
    (hsame : SameClock k l) : ClockStep win desk event l := by
  cases h with
  | still hk => exact .still (hk.trans hsame)
  | operated hshown haction hop hk => exact .operated hshown haction hop (hk.trans hsame)
  | fired hevent htimers hk => exact .fired hevent htimers (hk.trans hsame)

theorem step_clock (hpage : win.page = .player desk) {event : Event} (hunmount : event ≠ .unmount) :
    ∃ next, (win.step event).1.page = .player next ∧ (win.step event).1.shown = win.shown ∧
      ClockStep win desk event next := by
  by_cases htarget : event.target?.all win.widgets.contains = true
  · have hshown : event.target?.isSome = true → win.shown = true := by
      intro hsome
      obtain ⟨w, hw⟩ := Option.isSome_iff_exists.mp hsome
      rw [hw, Option.all_some, List.contains_iff_mem] at htarget
      exact shown_of_mem_widgets htarget
    obtain ⟨handled, hhandled, hkept, hclock⟩ := handle_clock hpage hunmount hshown
    obtain ⟨next, hnext, hforgotten, hsame⟩ := forget_clock hhandled
    rw [step_of_target htarget]
    exact ⟨next, hnext, hforgotten.trans hkept, hclock.trans hsame⟩
  · unfold step
    rw [if_neg htarget]
    exact ⟨desk, hpage, rfl, .still (SameClock.refl desk)⟩

/-- A timeout hands the token of the oldest timer back to the player. -/
theorem step_timeout (hpage : win.page = .player desk) {timer : Timer} {rest : List Timer}
    (htimers : desk.timers = timer :: rest) :
    (win.step .timeout).2.1 = .fired true ∧
      ∃ next, (win.step .timeout).1.page = .player next ∧
        next.player = (desk.player.accept timer.tick.token).1 := by
  obtain ⟨hhandled, _, hreply⟩ := handle_timeout hpage htimers
  obtain ⟨next, hnext, _, hsame⟩ := forget_clock hhandled
  rw [step_of_target rfl]
  refine ⟨hreply, next, hnext, ?_⟩
  rw [hsame.player, (Desk.tune_follow _ _).player, Desk.player_tune]
  rfl

theorem step_unmount (hpage : win.page = .player desk) :
    ∃ next, (win.step .unmount).1.page = .player next ∧ (win.step .unmount).1.shown = false ∧
      SameClock desk.leave next := by
  rw [step_of_target rfl]
  have hhandled : (win.handle .unmount).1.page = .player desk.leave := mapDesk_page hpage Desk.leave
  obtain ⟨next, hnext, hforgotten, hsame⟩ := forget_clock hhandled
  exact ⟨next, hnext, hforgotten, hsame⟩

/-! ## 4. Opening -/

theorem launch_clock (o : Opening) :
    ∃ desk, (launch { o with path := "/" }).1.page = .player desk ∧
      (launch { o with path := "/" }).1.shown = true ∧
      desk.player = Player.new Settings.standard ∧ desk.timers = [] ∧ desk.armed = none := by
  unfold launch
  rw [if_pos rfl]
  exact ⟨_, rfl, rfl, rfl, rfl, rfl⟩

end Window

end GraphReplay
