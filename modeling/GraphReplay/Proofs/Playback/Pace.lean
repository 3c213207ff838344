import GraphReplay.Proofs.Playback.Delays
import GraphReplay.Proofs.Playback.Standing

/-!
# The speed of a player

A player keeps its speed in the range of its settings, and takes every speed that is finite and above
zero.  Whether it can always say which tick is due is a matter of the range alone: it can if the least
speed is more than one step in `2 ^ 64` seconds, and otherwise some run leads to a tick without a
delay (`taken_speeds_play_iff`).
-/

namespace GraphReplay

/-- The speeds of the settings are a range above zero, with the first speed in it. -/
structure Settings.Ranged (s : Settings) : Prop where
  least_isFinite : s.minSpeed.isFinite = true
  most_isFinite : s.maxSpeed.isFinite = true
  least_pos : 0.0 < s.minSpeed
  least_le : s.minSpeed ≤ s.defaultSpeed
  le_most : s.defaultSpeed ≤ s.maxSpeed

namespace Settings

theorem Ranged.least_le_most {s : Settings} (h : s.Ranged) : s.minSpeed ≤ s.maxSpeed := by
  have hdefault := Decimal.isFinite_of_le_of_le h.least_isFinite h.most_isFinite h.least_le h.le_most
  have hlow := (Decimal.le_iff_value_le h.least_isFinite hdefault).mp h.least_le
  have hhigh := (Decimal.le_iff_value_le hdefault h.most_isFinite).mp h.le_most
  exact (Decimal.le_iff_value_le h.least_isFinite h.most_isFinite).mpr (hlow.trans hhigh)

theorem ranged_standard : standard.Ranged :=
  ⟨by decide +kernel, by decide +kernel, by decide +kernel, by decide +kernel, by decide +kernel⟩

end Settings

namespace Player

variable {p q : Player}

/-! ## 1. Speeds that are taken -/

theorem setSpeed_eq_error {speed : Float} (h : ¬(speed.isFinite = true ∧ 0.0 < speed)) :
    p.setSpeed speed = .error (.invalid speed) := by
  have hrefused : (!speed.isFinite || decide (speed ≤ 0.0)) = true := by
    cases hfinite : speed.isFinite with
    | false => rfl
    | true =>
      have hle := Decimal.le_of_not_lt_of_isFinite rfl hfinite fun hpos => h ⟨hfinite, hpos⟩
      exact decide_eq_true hle
  unfold setSpeed
  exact if_pos hrefused

/-- A speed that is taken is put into the range, and within the range it stays as it is. -/
theorem exists_setSpeed_eq_ok (hrange : p.settings.Ranged) {speed : Float}
    (hfinite : speed.isFinite = true) (hpos : 0.0 < speed) :
    ∃ taken, p.setSpeed speed = .ok ({ p with speed := taken }).renew ∧
      p.settings.minSpeed ≤ taken ∧ taken ≤ p.settings.maxSpeed ∧
      (p.settings.minSpeed ≤ speed → speed ≤ p.settings.maxSpeed → taken = speed) := by
  have hleast := hrange.least_isFinite
  have hmost := hrange.most_isFinite
  have hends := hrange.least_le_most
  have hvalid : ¬(!speed.isFinite || decide (speed ≤ 0.0)) = true := by
    rw [hfinite, Bool.not_true, Bool.false_or, decide_eq_true_eq]
    exact fun hle => Decimal.not_lt_of_le_of_isFinite hfinite rfl hle hpos
  unfold setSpeed
  dsimp only
  rw [if_neg hvalid, if_neg (by rw [decide_eq_true hends]; decide)]
  refine ⟨_, rfl, ?_⟩
  -- A speed below the range is raised first, and is finite before and after.
  split
  · next hbelow =>
    rw [if_neg (Decimal.not_lt_of_le_of_isFinite hleast hmost hends)]
    refine ⟨Decimal.le_self_of_isFinite hleast, hends, fun hle => ?_⟩
    exact absurd hbelow (Decimal.not_lt_of_le_of_isFinite hleast hfinite hle)
  · next hnotbelow =>
    split
    · next habove =>
      refine ⟨hends, Decimal.le_self_of_isFinite hmost, fun _ hle => ?_⟩
      exact absurd habove (Decimal.not_lt_of_le_of_isFinite hfinite hmost hle)
    · next hnotabove =>
      exact ⟨Decimal.le_of_not_lt_of_isFinite hfinite hleast hnotbelow,
        Decimal.le_of_not_lt_of_isFinite hmost hfinite hnotabove, fun _ _ => rfl⟩

theorem after_setSpeed_of_error {speed : Float} {e : SpeedError} (h : p.setSpeed speed = .error e) :
    p.after (.setSpeed speed) = p := by
  show (p.setSpeed speed).toOption.getD p = p
  rw [h]
  rfl

theorem after_setSpeed_of_ok {speed : Float} (h : p.setSpeed speed = .ok q) :
    p.after (.setSpeed speed) = q := by
  show (p.setSpeed speed).toOption.getD p = q
  rw [h]
  rfl

theorem Change.speed_eq {op : Operation} (h : Change p op q)
    (hop : ∀ speed, op ≠ .setSpeed speed) : q.speed = p.speed := by
  cases h with
  | speedSet speed taken => exact absurd rfl (hop speed)
  | _ => rfl

/-! ## 2. The range -/

/-- A player whose speed is in the range of its settings. -/
structure InRange (p : Player) : Prop where
  ranged : p.settings.Ranged
  least : p.settings.minSpeed ≤ p.speed
  most : p.speed ≤ p.settings.maxSpeed

theorem inRange_new {settings : Settings} (h : settings.Ranged) : InRange (new settings) :=
  ⟨h, h.least_le, h.le_most⟩

namespace InRange

theorem isFinite (h : InRange p) : p.speed.isFinite = true :=
  Decimal.isFinite_of_le_of_le h.ranged.least_isFinite h.ranged.most_isFinite h.least h.most

/-- What is below the range is below the speed. -/
theorem lt_speed (h : InRange p) {x : Float} (hx : x.isFinite = true)
    (hlt : x < p.settings.minSpeed) : x < p.speed :=
  Decimal.lt_of_lt_of_le_of_isFinite hx h.ranged.least_isFinite h.isFinite hlt h.least

theorem after (h : InRange p) (op : Operation) : InRange (p.after op) := by
  have hchange := p.after_change op
  by_cases hop : ∃ speed, op = .setSpeed speed
  · obtain ⟨speed, rfl⟩ := hop
    by_cases hvalid : speed.isFinite = true ∧ 0.0 < speed
    · obtain ⟨taken, hset, hleast, hmost, _⟩ := exists_setSpeed_eq_ok h.ranged hvalid.1 hvalid.2
      rw [after_setSpeed_of_ok hset]
      exact ⟨h.ranged, hleast, hmost⟩
    · rw [after_setSpeed_of_error (setSpeed_eq_error hvalid)]
      exact h
  · have hspeed : (p.after op).speed = p.speed :=
      hchange.speed_eq fun speed heq => hop ⟨speed, heq⟩
    have hsettings := hchange.settings_eq
    constructor
    · exact hsettings ▸ h.ranged
    · rw [hsettings, hspeed]
      exact h.least
    · rw [hsettings, hspeed]
      exact h.most

theorem run (h : InRange p) (ops : List Operation) : InRange (p.run ops) := by
  induction ops generalizing p with
  | nil => exact h
  | cons op ops ih => exact ih (h.after op)

/-- A tick has no delay just while a player runs that is too slow. -/
theorem dueTick_eq_error_iff (h : InRange p) (hstands : InTrace p) {e : TickError} :
    p.dueTick = .error e ↔
      p.phase = .playing ∧ ¬Delay.slowest < p.speed ∧ e = .noDelay p.speed := by
  have hdelay := Delay.atSpeed?_isSome_iff h.isFinite (h.lt_speed rfl h.ranged.least_pos)
  by_cases hplaying : p.phase = .playing
  · rw [hstands.dueTick_of_playing hplaying]
    cases hspeed : Delay.atSpeed? p.speed with
    | some delay =>
      rw [hspeed] at hdelay
      exact iff_of_false nofun fun hslow => hslow.2.1 (hdelay.mp rfl)
    | none =>
      rw [hspeed] at hdelay
      have hslow : ¬Delay.slowest < p.speed := fun hfast => nomatch hdelay.mpr hfast
      rw [Except.error.injEq, eq_comm]
      exact ⟨fun heq => ⟨hplaying, hslow, heq⟩, fun hall => hall.2.2⟩
  · rw [hstands.dueTick_eq_none_iff.mpr hplaying]
    exact iff_of_false nofun fun hslow => hplaying hslow.1

end InRange

/-! ## 3. Standard settings -/

/-- A player with the standard settings, whose speed always has a delay. -/
structure Paced (p : Player) : Prop where
  settings : p.settings = Settings.standard
  least : 0.5 ≤ p.speed
  most : p.speed ≤ 10.0
  canGoOn : CanGoOn p

theorem paced_new : Paced (new Settings.standard) :=
  ⟨rfl, by decide +kernel, by decide +kernel, canGoOn_new _⟩

namespace Paced

theorem inRange (h : Paced p) : InRange p := by
  constructor <;> rw [h.settings]
  · exact Settings.ranged_standard
  · exact h.least
  · exact h.most

theorem after (h : Paced p) (op : Operation) : Paced (p.after op) := by
  have hchange := p.after_change op
  have hsettings : (p.after op).settings = Settings.standard := hchange.settings_eq.trans h.settings
  obtain ⟨_, hleast, hmost⟩ := h.inRange.after op
  rw [hsettings] at hleast hmost
  exact ⟨hsettings, hleast, hmost, hchange.canGoOn h.canGoOn⟩

theorem atSpeed?_isSome (h : Paced p) : (Delay.atSpeed? p.speed).isSome = true := by
  have hstandard : Delay.slowest < p.settings.minSpeed := by
    rw [h.settings]
    decide +kernel
  rw [Delay.atSpeed?_isSome_iff h.inRange.isFinite (h.inRange.lt_speed rfl h.inRange.ranged.least_pos)]
  exact h.inRange.lt_speed rfl hstandard

theorem dueTick_cases (h : Paced p) :
    (p.phase ≠ .playing ∧ p.dueTick = .ok none) ∨
      ∃ delay, p.phase = .playing ∧ Delay.atSpeed? p.speed = some delay ∧
        p.dueTick = .ok (some ⟨p.token, delay⟩) := by
  have hphase := phase_eq_playing_iff h.canGoOn
  cases hpaused : p.paused with
  | true =>
    left
    rw [ne_eq, hphase, hpaused]
    exact ⟨nofun, dueTick_of_stopped hpaused⟩
  | false =>
    right
    obtain ⟨delay, hdelay⟩ := Option.isSome_iff_exists.mp h.atSpeed?_isSome
    refine ⟨delay, hphase.mpr hpaused, hdelay, ?_⟩
    rw [dueTick_of_running hpaused (h.canGoOn hpaused), hdelay]

end Paced

/-! ## 4. Every speed that is taken -/

/-- A run that starts a trace and then asks for the least speed. -/
theorem exists_run_at_least {settings : Settings} (h : settings.Ranged) :
    ∃ ops, ((new settings).run ops).phase = .playing ∧
      ((new settings).run ops).speed = settings.minSpeed := by
  have hstarted : ((new settings).run [.loadTrace "", .play]).phase = .playing := by
    obtain ⟨hpaused, hcommands, _⟩ :=
      play_of_ne_nil (p := (new settings).loadTrace "") (readTrace_ne_nil "")
    exact phase_of_running hpaused (hcommands ▸ readTrace_ne_nil "")
  have hsettings : ((new settings).run [.loadTrace "", .play]).settings = settings :=
    settings_run _ _
  refine ⟨[.loadTrace "", .play] ++ [.setSpeed settings.minSpeed], ?_⟩
  rw [run_append]
  generalize (new settings).run [.loadTrace "", .play] = p at *
  obtain rfl := hsettings
  obtain ⟨taken, hset, _, _, hsame⟩ := exists_setSpeed_eq_ok h h.least_isFinite h.least_pos
  have htaken := hsame (Decimal.le_self_of_isFinite h.least_isFinite) h.least_le_most
  have hlast : p.run [.setSpeed p.settings.minSpeed] = _ := after_setSpeed_of_ok hset
  rw [hlast]
  exact ⟨hstarted, htaken⟩

/-- With a range of finite speeds above zero the speed is in it at every moment of every run.  A
speed is refused just if it is not finite or not above zero, and nothing changes then; otherwise it
is put into the range.  A tick has no delay just while a player runs at one step in `2 ^ 64` seconds
or less, and no run leads to that just if the least speed is more. -/
theorem taken_speeds_play_iff (settings : Settings) (h : settings.Ranged) :
    (∀ ops : List Operation,
      let p := (new settings).run ops
      (settings.minSpeed ≤ p.speed ∧ p.speed ≤ settings.maxSpeed) ∧
      (∀ speed, ¬(speed.isFinite = true ∧ 0.0 < speed) →
        p.setSpeed speed = .error (.invalid speed) ∧ p.after (.setSpeed speed) = p) ∧
      (∀ speed, speed.isFinite = true → 0.0 < speed →
        ∃ taken, p.setSpeed speed = .ok ({ p with speed := taken }).renew ∧
          settings.minSpeed ≤ taken ∧ taken ≤ settings.maxSpeed ∧
          (settings.minSpeed ≤ speed → speed ≤ settings.maxSpeed → taken = speed)) ∧
      ∀ e, p.dueTick = .error e ↔
        p.phase = .playing ∧ ¬Delay.slowest < p.speed ∧ e = .noDelay p.speed) ∧
    ((∀ (ops : List Operation) (e : TickError), ((new settings).run ops).dueTick ≠ .error e) ↔
      Delay.slowest < settings.minSpeed) := by
  have hrun : ∀ ops, InRange ((new settings).run ops) := (inRange_new h).run
  have hsettings : ∀ ops, ((new settings).run ops).settings = settings := settings_run _
  have hstands := inTrace_run settings
  refine ⟨?_, ?_⟩
  · intro ops p
    have hp := hrun ops
    have hsame : p.settings = settings := hsettings ops
    refine ⟨⟨hsame ▸ hp.least, hsame ▸ hp.most⟩, ?_, ?_, fun e => hp.dueTick_eq_error_iff (hstands ops)⟩
    · intro speed hinvalid
      have hrefused : p.setSpeed speed = .error (.invalid speed) := setSpeed_eq_error hinvalid
      exact ⟨hrefused, after_setSpeed_of_error hrefused⟩
    · intro speed hfinite hpos
      obtain ⟨taken, hset, hrange⟩ := exists_setSpeed_eq_ok hp.ranged hfinite hpos
      rw [show ((new settings).run ops).settings = settings from hsame] at hrange
      exact ⟨taken, hset, hrange⟩
  · constructor
    · intro hdue
      -- A least speed without a delay can be asked for while a trace is played.
      by_contra hslow
      obtain ⟨ops, hplaying, hspeed⟩ := exists_run_at_least h
      exact hdue ops _ (((hrun ops).dueTick_eq_error_iff (hstands ops)).mpr
        ⟨hplaying, hspeed ▸ hslow, rfl⟩)
    · intro hfast ops e hdue
      have hslow := (((hrun ops).dueTick_eq_error_iff (hstands ops)).mp hdue).2.1
      have hleast : Delay.slowest < ((new settings).run ops).settings.minSpeed :=
        (hsettings ops).symm ▸ hfast
      exact hslow ((hrun ops).lt_speed rfl hleast)

/-- The least speed is the first one above one step in `2 ^ 64` seconds, and a slower one is asked
for. -/
theorem taken_speeds_play_iff_of_slow_range :
    let settings : Settings := { Settings.standard with minSpeed := 5.4210108624275234e-20 }
    let ops : List Operation := [.loadTrace "log", .play, .setSpeed 5e-324]
    let p := (new settings).run ops
    settings.Ranged ∧ p.speed = settings.minSpeed ∧ settings.minSpeed ≤ p.speed ∧
      p.dueTick = .ok (some ⟨3, { secs := 18446744073709547520 }⟩) ∧ p.after (.setSpeed (0.0 / 0.0)) = p ∧
      (∃ taken, p.setSpeed 1e300 = .ok ({ p with speed := taken }).renew ∧
        taken ≤ settings.maxSpeed) ∧
      ∀ (ops : List Operation) (e : TickError), ((new settings).run ops).dueTick ≠ .error e := by
  intro settings ops p
  have hranged : settings.Ranged :=
    ⟨by decide +kernel, by decide +kernel, by decide +kernel, by decide +kernel, by decide +kernel⟩
  obtain ⟨hruns, hdue⟩ := taken_speeds_play_iff settings hranged
  obtain ⟨⟨hleast, _⟩, hrefused, htaken, _⟩ := hruns ops
  obtain ⟨taken, hset, _, hmost, _⟩ := htaken 1e300 (by decide +kernel) (by decide +kernel)
  exact ⟨hranged, by decide +kernel, hleast, by decide +kernel,
    (hrefused (0.0 / 0.0) (by decide +kernel)).2, ⟨taken, hset, hmost⟩, hdue.mpr (by decide +kernel)⟩

/-- The least speed is one step in `2 ^ 64` seconds.  It is finite, above zero and taken, and then no
tick can be told. -/
theorem not_playable_at_slowest :
    let settings : Settings := { Settings.standard with minSpeed := Delay.slowest }
    let p := (new settings).run [.loadTrace "log", .play, .setSpeed Delay.slowest]
    settings.Ranged ∧ Delay.slowest.isFinite = true ∧ 0.0 < Delay.slowest ∧
      p.speed = Delay.slowest ∧ p.phase = .playing ∧ p.dueTick = .error (.noDelay Delay.slowest) :=
  ⟨⟨by decide +kernel, by decide +kernel, by decide +kernel, by decide +kernel, by decide +kernel⟩,
    by decide +kernel, by decide +kernel, by decide +kernel, by decide +kernel, by decide +kernel⟩

end Player

end GraphReplay
