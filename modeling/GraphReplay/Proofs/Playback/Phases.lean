import GraphReplay.Proofs.Playback.Run

/-!
# Running players

A player that runs has a command left to follow: the last command pauses it, and starting at the end
goes back to the start.  So a tick is due exactly while a player runs.
-/

namespace GraphReplay

namespace Player

variable {p q : Player}

/-- If the player runs, there is a command for the next tick. -/
def CanGoOn (p : Player) : Prop :=
  p.paused = false → p.cursor < p.commands.length

theorem Change.canGoOn {op : Operation} (h : Change p op q) (hp : CanGoOn p) : CanGoOn q := by
  cases h with
  | nothing => exact hp
  | graphRead => exact hp
  | graphSet => exact hp
  | graphEdited => exact hp
  | @advanced _ command instruction hcommand _ =>
    have hlt : p.cursor < p.commands.length := (List.getElem?_eq_some_iff.mp hcommand).1
    intro hrunning
    change (p.paused || p.cursor + 1 == p.commands.length) = false at hrunning
    rw [Bool.or_eq_false_iff, beq_eq_false_iff_ne] at hrunning
    show p.cursor + 1 < p.commands.length
    omega
  | aborted => exact nofun
  | steppedBack =>
    intro hrunning
    have hlt := hp hrunning
    show p.cursor - 1 < p.commands.length
    omega
  | started _ hcursor => exact fun _ => hcursor
  | startedOver _ hcommands => exact fun _ => List.length_pos_iff.mpr hcommands
  | stopped => exact nofun
  | speedSet => exact hp
  | traceLoaded => exact nofun
  | wasReset => exact nofun
  | cleared => exact nofun

theorem canGoOn_run (h : CanGoOn p) (ops : List Operation) : CanGoOn (p.run ops) := by
  induction ops generalizing p with
  | nil => exact h
  | cons op ops ih => exact ih ((p.after_change op).canGoOn h)

theorem canGoOn_new (settings : Settings) : CanGoOn (new settings) :=
  nofun

/-! ## 1. Due ticks -/

theorem dueTick_of_stopped (h : p.paused = true) : p.dueTick = .ok none := by
  unfold dueTick
  rw [h]
  rfl

theorem dueTick_of_running (hpaused : p.paused = false) (hcursor : p.cursor < p.commands.length) :
    p.dueTick =
      match Delay.atSpeed? p.speed with
      | some delay => .ok (some ⟨p.token, delay⟩)
      | none => .error (.noDelay p.speed) := by
  have hdue : ¬ (p.paused || decide (p.commands.length ≤ p.cursor)) = true := by
    rw [hpaused, Bool.false_or, decide_eq_true_eq]
    omega
  unfold dueTick
  refine (if_neg hdue).trans ?_
  cases Delay.atSpeed? p.speed with
  | none => rfl
  | some delay => rfl

theorem dueTick_eq_some {tick : Tick} (h : p.dueTick = .ok (some tick)) :
    p.paused = false ∧ p.cursor < p.commands.length ∧ tick.token = p.token := by
  unfold dueTick at h
  split at h
  · exact nomatch h
  · next hdue =>
    rw [Bool.or_eq_true, decide_eq_true_eq, not_or] at hdue
    split at h
    · injection h with h
      injection h with h
      exact ⟨Bool.eq_false_iff.mpr hdue.1, by omega, by rw [← h]⟩
    · exact nomatch h

theorem accept_token_of_running (hpaused : p.paused = false) :
    p.accept p.token = (p.forward.1, some p.forward.2) := by
  rcases p.accept_cases p.token with ⟨hstale | hstopped, _⟩ | ⟨_, _, haccept⟩
  · exact absurd rfl hstale
  · rw [hpaused] at hstopped
    exact nomatch hstopped
  · exact haccept

theorem play_of_ne_nil (h : p.commands ≠ []) :
    p.play.paused = false ∧ p.play.commands = p.commands ∧ p.play.speed = p.speed ∧
      p.play.token = p.token + 1 := by
  rcases p.play_cases with ⟨hnil, _⟩ | ⟨_, hplay⟩ | ⟨_, _, hplay⟩
  · exact absurd hnil h
  · rw [hplay]
    exact ⟨rfl, rfl, rfl, rfl⟩
  · rw [hplay]
    exact ⟨rfl, rfl, rfl, rfl⟩

theorem phase_eq_playing_iff (h : CanGoOn p) : p.phase = .playing ↔ p.paused = false := by
  unfold phase
  by_cases hcommands : p.commands = []
  · -- Without a trace there is nothing to run through.
    have hpaused : p.paused ≠ false := by
      intro hrunning
      have hlt := h hrunning
      rw [hcommands, List.length_nil] at hlt
      omega
    rw [hcommands]
    simp [hpaused]
  · have hempty : p.commands.isEmpty = false := List.isEmpty_eq_false_iff.mpr hcommands
    rw [hempty]
    cases p.paused with
    | false => simp
    | true =>
      simp only [Bool.not_true, Bool.false_eq_true, if_false]
      split <;> simp

theorem phase_eq_finished (hpaused : p.paused = true) (hcommands : p.commands ≠ [])
    (hcursor : p.cursor = p.commands.length) : p.phase = .finished := by
  have hempty : p.commands.isEmpty = false := List.isEmpty_eq_false_iff.mpr hcommands
  unfold phase
  rw [hempty, hpaused, if_neg Bool.false_ne_true]
  exact if_pos hcursor

end Player

end GraphReplay
