import GraphReplay.Proofs.Page.Clock
import GraphReplay.Proofs.Playback.Pace
import GraphReplay.Proofs.Playback.Ticks

/-!
# One timer while the player runs

The page arms a timer when another tick is due, and takes the old one back.  So after every list of
events there is one timer if the player runs and none if it does not; when it goes off, the player
takes one step; and what leaves the due tick as it is leaves the timer as it is.
-/

namespace GraphReplay

/-! ## 1. The tick that is due -/

namespace Player

variable {p : Player}

/-- With this token the player follows the command at its cursor, or fails at it. -/
def StepsOnce (p : Player) (token : UInt64) : Prop :=
  ∃ command, p.commands[p.cursor]? = some command ∧
    ((∃ instruction, command.action = .ok instruction ∧
        p.accept token = (p.advance instruction, some .advanced)) ∨
      ∃ fault, command.action = .error fault ∧
        p.accept token = (p.abort (fault.report p.settings command.raw), some .aborted))

theorem stepsOnce_of_dueTick {tick : Tick} (h : p.dueTick = .ok (some tick)) :
    p.StepsOnce tick.token := by
  obtain ⟨hpaused, hcursor, htoken⟩ := dueTick_eq_some h
  have haccept := accept_token_of_running hpaused
  rw [← htoken] at haccept
  unfold StepsOnce
  rw [haccept]
  rcases p.forward_cases with ⟨hnone, _⟩ | ⟨command, instruction, hcommand, haction, hforward⟩ |
    ⟨command, fault, hcommand, haction, hforward⟩
  · have hpast := List.getElem?_eq_none_iff.mp hnone
    omega
  · rw [hforward]
    exact ⟨command, hcommand, Or.inl ⟨instruction, haction, rfl⟩⟩
  · rw [hforward]
    exact ⟨command, hcommand, Or.inr ⟨fault, haction, rfl⟩⟩

theorem token_accept_of_dueTick {tick : Tick} (h : p.dueTick = .ok (some tick)) :
    (p.accept tick.token).1.token = tick.token + 1 := by
  have htoken : tick.token = p.token := (dueTick_eq_some h).2.2
  obtain ⟨command, _, ⟨instruction, _, haccept⟩ | ⟨fault, _, haccept⟩⟩ := stepsOnce_of_dueTick h
  · rw [haccept, htoken]
    rfl
  · rw [haccept, htoken]
    rfl

/-- A tick that was accepted is not due again. -/
theorem dueTick_accept_ne {tick : Tick} (h : p.dueTick = .ok (some tick)) :
    (p.accept tick.token).1.dueTick ≠ .ok (some tick) := by
  intro hagain
  -- The step issued a new token, and a tick that is due has the token of the player.
  have htoken := (dueTick_eq_some hagain).2.2
  rw [token_accept_of_dueTick h] at htoken
  exact add_one_ne_self tick.token htoken.symm

end Player

/-! ## 2. The timer that waits -/

namespace Desk

variable {h k : Desk}

theorem dueTick_eq_some_iff {p : Player} {tick : Tick} :
    dueTick p = some tick ↔ p.dueTick = .ok (some tick) := by
  unfold dueTick
  cases p.dueTick with
  | error e => exact ⟨nofun, nofun⟩
  | ok due =>
    show due = some tick ↔ Except.ok due = Except.ok (some tick)
    rw [Except.ok.injEq]

/-- The only timer is the armed one, and it waits for the tick; without a tick there is none. -/
def Waits (h : Desk) : Option Tick → Prop
  | some tick => ∃ id, h.timers = [⟨id, tick⟩] ∧ h.armed = some id
  | none => h.timers = [] ∧ h.armed = none

theorem Waits.armed_of_mem {due : Option Tick} (hw : h.Waits due) :
    ∀ t ∈ h.timers, h.armed = some t.id := by
  cases due with
  | none =>
    rw [hw.1]
    exact nofun
  | some tick =>
    obtain ⟨id, htimers, harmed⟩ := hw
    intro t ht
    rw [htimers, List.mem_singleton] at ht
    rw [harmed, ht]

theorem Waits.congr {due : Option Tick} (hw : h.Waits due) (htimers : k.timers = h.timers)
    (harmed : k.armed = h.armed) : k.Waits due := by
  cases due with
  | none => exact ⟨htimers.trans hw.1, harmed.trans hw.2⟩
  | some tick =>
    obtain ⟨id, hone, hid⟩ := hw
    exact ⟨id, htimers.trans hone, harmed.trans hid⟩

/-- A new timer is armed after the old one was taken back. -/
theorem arm_waits (harmed : ∀ t ∈ h.timers, h.armed = some t.id) (due : Option Tick) :
    (h.arm due).Waits due := by
  have hkept : (h.timers.filter fun t => h.armed != some t.id) = [] := by
    rw [List.filter_eq_nil_iff]
    intro t ht
    rw [harmed t ht]
    simp
  unfold arm
  rw [hkept]
  cases due with
  | none => exact ⟨rfl, rfl⟩
  | some tick => exact ⟨_, rfl, rfl⟩

theorem tune_waits {next : Player} (harmed : ∀ t ∈ h.timers, h.armed = some t.id)
    (hsame : dueTick next = dueTick h.player → h.Waits (dueTick next)) :
    (h.tune next).Waits (dueTick next) := by
  unfold tune
  split
  · next hdue => exact (hsame hdue).congr rfl rfl
  · exact @arm_waits { h with player := next } harmed (dueTick next)

/-- The page has the timer for the tick that is due, and no other. -/
structure Timed (h : Desk) : Prop where
  paced : h.player.Paced
  waits : h.Waits (dueTick h.player)

theorem Timed.congr (ht : h.Timed) (hsame : SameClock h k) : k.Timed where
  paced := hsame.player ▸ ht.paced
  waits := by
    rw [hsame.player]
    exact ht.waits.congr hsame.timers hsame.armed

theorem Timed.operated (ht : h.Timed) (op : Operation) : (h.tune (h.player.after op)).Timed where
  paced := by
    rw [player_tune]
    exact ht.paced.after op
  waits := by
    rw [player_tune]
    apply tune_waits ht.waits.armed_of_mem
    intro hdue
    rw [hdue]
    exact ht.waits

/-- When the timer goes off there is none left, but another tick is due than before. -/
theorem Timed.fired (ht : h.Timed) {timer : Timer} {rest : List Timer}
    (htimers : h.timers = timer :: rest) :
    dueTick (h.player.after (.tick timer.tick.token)) ≠ dueTick h.player ∧
      ({ h with timers := rest }.tune (h.player.after (.tick timer.tick.token))).Timed := by
  cases hdue : dueTick h.player with
  | none =>
    have hwaits := ht.waits
    rw [hdue] at hwaits
    rw [hwaits.1] at htimers
    exact nomatch htimers
  | some tick =>
    have hwaits := ht.waits
    rw [hdue] at hwaits
    obtain ⟨id, hone, _⟩ := hwaits
    rw [hone] at htimers
    cases htimers
    have hchanged : dueTick (h.player.after (.tick tick.token)) ≠ some tick := by
      intro hagain
      exact Player.dueTick_accept_ne (dueTick_eq_some_iff.mp hdue) (dueTick_eq_some_iff.mp hagain)
    refine ⟨hchanged, ?_, ?_⟩
    · rw [player_tune]
      exact ht.paced.after _
    · rw [player_tune]
      apply tune_waits
      · exact nofun
      · intro hsame
        exact absurd (hsame.trans hdue) hchanged

end Desk

/-! ## 3. Events -/

/-- Events that have no part in the playback: typing, a mode, a graph, and a speed that cannot be
read or is refused. -/
inductive Event.Quiet (p : Player) : Event → Prop where
  | typed {w : Widget} (value : String) (hw : w = .graphField ∨ w = .traceField) :
      Quiet p (.input w value)
  | switched {w : Widget} (checked : Option Bool) (value : Option String)
      (hw : w = .directedBox ∨ w = .weightedBox) : Quiet p (.change w checked value)
  | graphButton : Quiet p (.click .graphButton)
  | notSpeed {value : String} (hread : Decimal.read? value = none) :
      Quiet p (.input .speedSlider value)
  | speedRefused {value : String} {speed : Float} {e : SpeedError}
      (hread : Decimal.read? value = some speed) (hrefused : p.setSpeed speed = .error e) :
      Quiet p (.input .speedSlider value)

namespace Window

variable {win : Window} {desk next : Desk} {event : Event}

open Desk (SameClock)

theorem ClockStep.timed (hstep : ClockStep win desk event next) (ht : desk.Timed) : next.Timed := by
  cases hstep with
  | still hsame => exact ht.congr hsame
  | operated _ _ _ hsame => exact (ht.operated _).congr hsame
  | fired _ htimers hsame => exact (ht.fired htimers).2.congr hsame

/-- An event after which the same tick is due leaves the timer alone. -/
theorem ClockStep.timers_eq (hstep : ClockStep win desk event next) (ht : desk.Timed)
    (hdue : next.player.dueTick = desk.player.dueTick) :
    next.timers = desk.timers ∧ next.timersMade = desk.timersMade := by
  have hdue' : Desk.dueTick next.player = Desk.dueTick desk.player := by
    unfold Desk.dueTick
    rw [hdue]
  cases hstep with
  | still hsame => exact ⟨hsame.timers, hsame.timersMade⟩
  | operated _ _ _ hsame =>
    rw [hsame.player, Desk.player_tune] at hdue'
    rw [hsame.timers, hsame.timersMade]
    unfold Desk.tune
    rw [if_pos hdue']
    exact ⟨rfl, rfl⟩
  | fired _ htimers hsame =>
    rw [hsame.player, Desk.player_tune] at hdue'
    exact absurd hdue' (ht.fired htimers).1

theorem ClockStep.dueTick_of_quiet (hstep : ClockStep win desk event next)
    (hquiet : event.Quiet desk.player) : next.player.dueTick = desk.player.dueTick := by
  cases hstep with
  | still hsame => rw [hsame.player]
  | fired hevent =>
    rw [hevent] at hquiet
    exact nomatch hquiet
  | @operated action op _ haction hop hsame =>
    rw [hsame.player, Desk.player_tune]
    cases hquiet with
    | typed value hw =>
      rcases hw with rfl | rfl
      · cases haction
        exact nomatch hop
      · cases haction
        exact nomatch hop
    | switched checked value hw =>
      rcases hw with rfl | rfl
      · cases haction
        cases hop
        rfl
      · cases haction
        exact nomatch hop
    | graphButton =>
      cases haction
      cases hop
      rcases desk.player.after_readGraph_cases desk.graphText with hkept | ⟨graph, _, htaken⟩
      · rw [hkept]
      · rw [htaken]
        rfl
    | notSpeed hread =>
      cases haction
      change (Decimal.read? _).map _ = some op at hop
      rw [hread] at hop
      exact nomatch hop
    | speedRefused hread hrefused =>
      cases haction
      change (Decimal.read? _).map _ = some op at hop
      rw [hread] at hop
      cases hop
      rw [Player.after_setSpeed_of_error hrefused]

/-- The window shows the player page with its timer, or it has been left and there is none. -/
def Timed (win : Window) : Prop :=
  ∃ desk, win.page = .player desk ∧ (win.shown = true → desk.Timed) ∧
    (win.shown = false → desk.timers = [])

theorem Timed.step (h : win.Timed) (event : Event) : (win.step event).1.Timed := by
  obtain ⟨desk, hpage, htimed, hleft⟩ := h
  by_cases hunmount : event = .unmount
  · rw [hunmount]
    obtain ⟨next, hnext, hshown, hsame⟩ := step_unmount hpage
    have harmed : ∀ t ∈ desk.timers, desk.armed = some t.id := by
      cases hwas : win.shown with
      | true => exact (htimed hwas).waits.armed_of_mem
      | false =>
        rw [hleft hwas]
        exact nofun
    refine ⟨next, hnext, ?_, ?_⟩
    · rw [hshown]
      exact nofun
    · intro _
      rw [hsame.timers]
      exact (Desk.arm_waits harmed none).1
  · obtain ⟨next, hnext, hkept, hstep⟩ := step_clock hpage hunmount
    refine ⟨next, hnext, ?_, ?_⟩
    · intro hshown
      exact hstep.timed (htimed (hkept ▸ hshown))
    · -- An element that takes an event is in the document, so only the clock is left to look at.
      intro hshown
      have hwas : win.shown = false := hkept ▸ hshown
      cases hstep with
      | still hsame => rw [hsame.timers, hleft hwas]
      | operated hpresent =>
        rw [hwas] at hpresent
        exact nomatch hpresent
      | fired _ htimers =>
        rw [hleft hwas] at htimers
        exact nomatch htimers

theorem Timed.run (h : win.Timed) (events : List Event) : (win.run events).Timed := by
  induction events generalizing win with
  | nil => exact h
  | cons event events ih => exact ih (h.step event)

theorem timed_launch (o : Opening) : (launch { o with path := "/" }).1.Timed := by
  obtain ⟨desk, hpage, hshown, hplayer, htimers, harmed⟩ := launch_clock o
  refine ⟨desk, hpage, fun _ => ⟨?_, ?_⟩, fun _ => htimers⟩
  · rw [hplayer]
    exact Player.paced_new
  · rw [hplayer]
    exact ⟨htimers, harmed⟩

/-! ## 4. Every list of events -/

/-- After any events there is one timer while the player runs and none while it does not.  When it
goes off the player takes one step, and events that leave the due tick as it is leave it alone. -/
theorem one_timer_while_playing (o : Opening) (events : List Event) :
    let win := (launch { o with path := "/" }).1.run events
    ∃ desk, win.page = .player desk ∧ (win.shown = false → desk.timers = []) ∧
      (win.shown = true →
        (desk.player.phase ≠ .playing → desk.timers = [] ∧ desk.player.dueTick = .ok none) ∧
        (desk.player.phase = .playing → ∃ timer, desk.timers = [timer] ∧
          timer.tick.token = desk.player.token ∧
          Delay.atSpeed? desk.player.speed = some timer.tick.delay ∧
          desk.player.dueTick = .ok (some timer.tick) ∧
          desk.player.StepsOnce timer.tick.token ∧ (win.step .timeout).2.1 = .fired true ∧
          ∃ next, (win.step .timeout).1.page = .player next ∧
            next.player = (desk.player.accept timer.tick.token).1) ∧
        ∀ event, event ≠ .unmount → ∃ next, (win.step event).1.page = .player next ∧
          (event.Quiet desk.player → next.player.dueTick = desk.player.dueTick) ∧
          (next.player.dueTick = desk.player.dueTick →
            next.timers = desk.timers ∧ next.timersMade = desk.timersMade)) := by
  intro win
  obtain ⟨desk, hpage, htimed, hleft⟩ : win.Timed := (timed_launch o).run events
  refine ⟨desk, hpage, hleft, ?_⟩
  intro hshown
  obtain ⟨hpaced, hwaits⟩ := htimed hshown
  refine ⟨?_, ?_, ?_⟩
  · intro hphase
    rcases hpaced.dueTick_cases with ⟨_, hnone⟩ | ⟨_, hplaying, _⟩
    · have hdue : Desk.dueTick desk.player = none := by
        unfold Desk.dueTick
        rw [hnone]
        rfl
      rw [hdue] at hwaits
      exact ⟨hwaits.1, hnone⟩
    · exact absurd hplaying hphase
  · intro hphase
    rcases hpaced.dueTick_cases with ⟨hstopped, _⟩ | ⟨delay, _, hdelay, htick⟩
    · exact absurd hphase hstopped
    · have hdue := Desk.dueTick_eq_some_iff.mpr htick
      rw [hdue] at hwaits
      obtain ⟨id, htimers, _⟩ := hwaits
      exact ⟨⟨id, desk.player.token, delay⟩, htimers, rfl, hdelay, htick,
        Player.stepsOnce_of_dueTick htick, step_timeout hpage htimers⟩
  · intro event hunmount
    obtain ⟨next, hnext, _, hstep⟩ := step_clock hpage hunmount
    exact ⟨next, hnext, hstep.dueTick_of_quiet, hstep.timers_eq (htimed hshown)⟩

/-- A trace of two commands was loaded and runs, and then the empty graph text is refused. -/
theorem one_timer_while_playing_of_refused_graph :
    let win := (launch { path := "/", hasContext := false }).1.run
      [.input .traceField "visit 0\nvisit 1", .click .traceButton, .click .runButton]
    ∃ desk timer, win.page = .player desk ∧ desk.player.phase = .playing ∧
      desk.timers = [timer] ∧ timer.tick.delay = { secs := 1 } ∧
      ∃ next, (win.step (.click .graphButton)).1.page = .player next ∧ next.timers = [timer] := by
  have htheorem := one_timer_while_playing { hasContext := false }
    [.input .traceField "visit 0\nvisit 1", .click .traceButton, .click .runButton]
  dsimp only at htheorem
  intro win
  obtain ⟨desk, hpage, _, hshown⟩ := htheorem
  obtain ⟨_, hplaying, hevents⟩ := hshown (by decide +kernel)
  have hplayer : win.page.desk?.map (fun d => (d.player.phase, d.player.speed)) =
      some (.playing, 1.0) := by decide +kernel
  have hdesk : win.page.desk? = some desk := congrArg Page.desk? hpage
  rw [hdesk, Option.map_some, Option.some_inj, Prod.mk.injEq] at hplayer
  obtain ⟨timer, htimers, _, hdelay, _⟩ := hplaying hplayer.1
  obtain ⟨next, hnext, hquiet, hkept⟩ := hevents (.click .graphButton) nofun
  refine ⟨desk, timer, hpage, hplayer.1, htimers, ?_, next, hnext, ?_⟩
  · have hsecond : Delay.atSpeed? 1.0 = some { secs := 1 } := by decide +kernel
    rw [hplayer.2, hsecond, Option.some_inj] at hdelay
    exact hdelay.symm
  · rw [(hkept (hquiet .graphButton)).1]
    exact htimers

end Window

end GraphReplay
