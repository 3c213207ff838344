import GraphReplay.Proofs.Playback.History
import GraphReplay.Proofs.Playback.Phases

/-!
# Where a player stands

The phase, the due tick, the start of a player and its steps each look at another combination of
pause, cursor and length of the trace.  They agree because of how a player can stand: its cursor is
in the trace, and if it runs there is a command left.  `phase_tells_what_is_due` says what follows
at every moment of every run.
-/

namespace GraphReplay

namespace Player

variable {p : Player}

structure InTrace (p : Player) : Prop where
  cursor_le : p.cursor ≤ p.commands.length
  canGoOn : p.CanGoOn

theorem inTrace_run (settings : Settings) (ops : List Operation) :
    InTrace ((new settings).run ops) where
  cursor_le :=
    have hnew : Faithful (new settings) [] := Faithful.atStart rfl rfl
    (hnew.run ops).cursor_le
  canGoOn := canGoOn_run (canGoOn_new settings) ops

/-! ## 1. Phases -/

theorem phase_eq_idle_iff : p.phase = .idle ↔ p.commands = [] := by
  unfold phase
  rw [← List.isEmpty_iff]
  cases p.commands.isEmpty with
  | true => exact iff_of_true rfl rfl
  | false =>
    refine iff_of_false ?_ Bool.false_ne_true
    rw [if_neg Bool.false_ne_true]
    split
    · exact nofun
    · split <;> exact nofun

theorem phase_of_running (hpaused : p.paused = false) (hcommands : p.commands ≠ []) :
    p.phase = .playing := by
  have hempty : p.commands.isEmpty = false := List.isEmpty_eq_false_iff.mpr hcommands
  unfold phase
  rw [hempty, hpaused]
  rfl

namespace InTrace

theorem at_rest (h : InTrace p) (hcommands : p.commands = []) :
    p.cursor = 0 ∧ p.paused = true := by
  have hlength : p.commands.length = 0 := List.length_eq_zero_iff.mpr hcommands
  constructor
  · have hle := h.cursor_le
    omega
  · cases hpaused : p.paused with
    | true => rfl
    | false =>
      have hlt := h.canGoOn hpaused
      omega

theorem phase_eq_finished_iff (h : InTrace p) :
    p.phase = .finished ↔ p.commands ≠ [] ∧ p.cursor = p.commands.length := by
  constructor
  · intro hfinished
    have hcommands : p.commands ≠ [] := by
      intro hnil
      rw [phase_eq_idle_iff.mpr hnil] at hfinished
      exact nomatch hfinished
    refine ⟨hcommands, ?_⟩
    have hempty : p.commands.isEmpty = false := List.isEmpty_eq_false_iff.mpr hcommands
    unfold phase at hfinished
    rw [hempty, if_neg Bool.false_ne_true] at hfinished
    split at hfinished
    · exact nomatch hfinished
    · split at hfinished
      · assumption
      · exact nomatch hfinished
  · rintro ⟨hcommands, hcursor⟩
    cases hpaused : p.paused with
    | true => exact phase_eq_finished hpaused hcommands hcursor
    | false =>
      -- A player that runs is not at the end.
      have hlt := h.canGoOn hpaused
      omega

/-! ## 2. What is due -/

theorem dueTick_of_playing (h : InTrace p) (hplaying : p.phase = .playing) :
    p.dueTick =
      match Delay.atSpeed? p.speed with
      | some delay => .ok (some ⟨p.token, delay⟩)
      | none => .error (.noDelay p.speed) := by
  have hpaused : p.paused = false := (phase_eq_playing_iff h.canGoOn).mp hplaying
  exact dueTick_of_running hpaused (h.canGoOn hpaused)

theorem dueTick_eq_none_iff (h : InTrace p) : p.dueTick = .ok none ↔ p.phase ≠ .playing := by
  constructor
  · intro hnone hplaying
    rw [h.dueTick_of_playing hplaying] at hnone
    split at hnone <;> exact nomatch hnone
  · intro hphase
    rw [ne_eq, phase_eq_playing_iff h.canGoOn, Bool.not_eq_false] at hphase
    exact dueTick_of_stopped hphase

/-- If there is a delay at the present speed, a tick is due just in the phase for it. -/
theorem dueTick_eq_some_iff_playing (h : InTrace p) {delay : Delay}
    (hdelay : Delay.atSpeed? p.speed = some delay) :
    p.dueTick = .ok (some ⟨p.token, delay⟩) ↔ p.phase = .playing := by
  constructor
  · intro hdue
    apply Classical.byContradiction
    intro hphase
    rw [h.dueTick_eq_none_iff.mpr hphase] at hdue
    exact nomatch hdue
  · intro hplaying
    rw [h.dueTick_of_playing hplaying, hdelay]

theorem accept_ne_atEnd (h : InTrace p) (token : UInt64) : (p.accept token).2 ≠ some .atEnd := by
  rcases p.accept_cases token with ⟨_, haccept⟩ | ⟨_, hpaused, haccept⟩
  · rw [haccept]
    exact nofun
  · have hlt : p.cursor < p.commands.length := h.canGoOn hpaused
    rw [haccept]
    rcases p.forward_cases with ⟨hnone, _⟩ | ⟨_, _, _, _, hforward⟩ | ⟨_, _, _, _, hforward⟩
    · have hle := List.getElem?_eq_none_iff.mp hnone
      omega
    · rw [hforward]
      exact nofun
    · rw [hforward]
      exact nofun

end InTrace

/-! ## 3. Starts -/

theorem phase_loadTrace (p : Player) (text : String) : (p.loadTrace text).phase = .paused := by
  have hcommands : readTrace text ≠ [] := readTrace_ne_nil text
  have hempty : (readTrace text).isEmpty = false := List.isEmpty_eq_false_iff.mpr hcommands
  have hstart : 0 ≠ (readTrace text).length := Nat.ne_of_lt (List.length_pos_iff.mpr hcommands)
  show (if (readTrace text).isEmpty then Phase.idle
    else if !true then .playing else if 0 = (readTrace text).length then .finished else .paused) = _
  rw [hempty, if_neg Bool.false_ne_true, if_neg (by decide), if_neg hstart]

/-- At every moment of every run the cursor is in the trace, a player without a trace is at rest and
one that runs has a command left.  So the phase says whether a tick is due, a start with a trace
always runs, a trace that is loaded has a command to begin with, and a tick that is taken finds a
command. -/
theorem phase_tells_what_is_due (settings : Settings) (ops : List Operation) :
    let p := (new settings).run ops
    p.cursor ≤ p.commands.length ∧
    (p.commands = [] → p.cursor = 0 ∧ p.paused = true) ∧
    (p.paused = false → p.cursor < p.commands.length) ∧
    (p.phase = .idle ↔ p.commands = []) ∧
    (p.phase = .finished ↔ p.commands ≠ [] ∧ p.cursor = p.commands.length) ∧
    (p.dueTick = .ok none ↔ p.phase ≠ .playing) ∧
    (∀ delay, Delay.atSpeed? p.speed = some delay →
      (p.dueTick = .ok (some ⟨p.token, delay⟩) ↔ p.phase = .playing)) ∧
    (p.commands ≠ [] → p.play.phase = .playing ∧
      ∀ delay, Delay.atSpeed? p.speed = some delay →
        p.play.dueTick = .ok (some ⟨p.token + 1, delay⟩)) ∧
    (∀ text, (p.loadTrace text).phase = .paused ∧ (p.loadTrace text).cursor = 0 ∧
      1 ≤ (p.loadTrace text).commands.length) ∧
    ∀ token, (p.accept token).2 ≠ some .atEnd := by
  intro p
  have h : InTrace p := inTrace_run settings ops
  refine ⟨h.cursor_le, h.at_rest, h.canGoOn, phase_eq_idle_iff, h.phase_eq_finished_iff,
    h.dueTick_eq_none_iff, fun delay hdelay => h.dueTick_eq_some_iff_playing hdelay, ?_, ?_,
    h.accept_ne_atEnd⟩
  · intro hcommands
    obtain ⟨hpaused, hsame, hspeed, htoken⟩ := play_of_ne_nil hcommands
    have hplaying : p.play.phase = .playing := phase_of_running hpaused (hsame ▸ hcommands)
    refine ⟨hplaying, ?_⟩
    intro delay hdelay
    -- A player that was started is one of another run.
    have hplay : InTrace p.play := by
      have hrun := inTrace_run settings (ops ++ [.play])
      rw [run_append] at hrun
      exact hrun
    rw [← htoken]
    exact (hplay.dueTick_eq_some_iff_playing (hspeed ▸ hdelay)).mpr hplaying
  · intro text
    exact ⟨p.phase_loadTrace text, rfl, List.length_pos_iff.mpr (readTrace_ne_nil text)⟩

/-- A player that ran through a trace of two commands, the second time by the clock, and one that
aborted at a blank line. -/
theorem phase_tells_what_is_due_of_two_rounds :
    let ops : List Operation := [.loadTrace "visit 0\nlog", .forward, .forward, .play, .tick 4]
    let faulty : List Operation := [.loadTrace "visit 0\n", .play, .tick 2, .tick 3]
    ∃ p q, p = (new Settings.standard).run ops ∧ q = (new Settings.standard).run faulty ∧
      p.paused = false ∧ p.cursor < p.commands.length ∧ p.commands ≠ [] ∧
      Delay.atSpeed? p.speed = some { secs := 1 } ∧ p.dueTick = .ok (some ⟨p.token, { secs := 1 }⟩) ∧
      p.play.dueTick = .ok (some ⟨p.token + 1, { secs := 1 }⟩) ∧ q.commands = [] ∧ q.cursor = 0 ∧
      q.paused = true := by
  intro ops faulty
  obtain ⟨_, _, hrunning, _, _, _, hdue, hstart, _⟩ :=
    phase_tells_what_is_due Settings.standard ops
  obtain ⟨_, hrest, _⟩ := phase_tells_what_is_due Settings.standard faulty
  have hpaused : ((new Settings.standard).run ops).paused = false := by decide +kernel
  have hplaying : ((new Settings.standard).run ops).phase = .playing := by decide +kernel
  have hloaded : ((new Settings.standard).run ops).commands ≠ [] := by decide +kernel
  have hdelay : Delay.atSpeed? ((new Settings.standard).run ops).speed = some { secs := 1 } := by
    decide +kernel
  have hdropped : ((new Settings.standard).run faulty).commands = [] := by decide +kernel
  exact ⟨_, _, rfl, rfl, hpaused, hrunning hpaused, hloaded, hdelay,
    (hdue { secs := 1 } hdelay).mpr hplaying, (hstart hloaded).2 { secs := 1 } hdelay, hdropped, hrest hdropped⟩

end Player

end GraphReplay
