import GraphReplay.Proofs.Playback.Phases

/-!
# Armed ticks

A host arms the wait that a player asks for and hands its token back when the wait is over, however
late and however often, while the player is operated in between.  The token is a counter of the
changes that matter to a wait, so a wait takes effect exactly if there was none since it was armed.
-/

namespace GraphReplay

/-- A counter of 64 bits comes back to a value after `2 ^ 64` steps, not earlier. -/
theorem add_ofNat_eq_self_iff (token : UInt64) {n : Nat} (hn : n < UInt64.size) :
    token + UInt64.ofNat n = token ↔ n = 0 := by
  constructor
  · intro h
    have htoNat : (token + UInt64.ofNat n).toNat = token.toNat := by rw [h]
    have hlt := token.toNat_lt
    rw [UInt64.toNat_add, UInt64.toNat_ofNat_of_lt' hn] at htoNat
    unfold UInt64.size at hn
    omega
  · intro h
    rw [h]
    exact UInt64.add_zero token

theorem add_one_ne_self (token : UInt64) : token + 1 ≠ token :=
  fun h => Nat.one_ne_zero ((add_ofNat_eq_self_iff token (by decide)).mp h)

namespace Player

/-- Two players that a wait cannot tell apart. -/
structure SamePlayback (p q : Player) : Prop where
  commands : q.commands = p.commands
  cursor : q.cursor = p.cursor
  paused : q.paused = p.paused
  speed : q.speed = p.speed
  scene : q.scene = p.scene
  token : q.token = p.token

theorem SamePlayback.refl (p : Player) : SamePlayback p p :=
  ⟨rfl, rfl, rfl, rfl, rfl, rfl⟩

theorem SamePlayback.trans {p q r : Player} (hpq : SamePlayback p q) (hqr : SamePlayback q r) :
    SamePlayback p r where
  commands := hqr.commands.trans hpq.commands
  cursor := hqr.cursor.trans hpq.cursor
  paused := hqr.paused.trans hpq.paused
  speed := hqr.speed.trans hpq.speed
  scene := hqr.scene.trans hpq.scene
  token := hqr.token.trans hpq.token

/-- Whatever changes the playback issues a new token. -/
theorem Change.renewed_or_same {p q : Player} {op : Operation} (h : Change p op q) :
    q.token = p.token + 1 ∨ SamePlayback p q := by
  cases h with
  | nothing => exact Or.inr (SamePlayback.refl p)
  | graphRead => exact Or.inr ⟨rfl, rfl, rfl, rfl, rfl, rfl⟩
  | graphSet => exact Or.inr ⟨rfl, rfl, rfl, rfl, rfl, rfl⟩
  | graphEdited => exact Or.inr ⟨rfl, rfl, rfl, rfl, rfl, rfl⟩
  | advanced => exact Or.inl rfl
  | aborted => exact Or.inl rfl
  | steppedBack => exact Or.inl rfl
  | started => exact Or.inl rfl
  | startedOver => exact Or.inl rfl
  | stopped => exact Or.inl rfl
  | speedSet => exact Or.inl rfl
  | traceLoaded => exact Or.inl rfl
  | wasReset => exact Or.inl rfl
  | cleared => exact Or.inl rfl

end Player

/-- What happens around a player: it is operated, its host arms the wait that it asks for, or a wait
that was armed is over. -/
inductive HostEvent where
  | operate (op : Operation)
  | arm
  | fire (slot : Nat)
deriving DecidableEq

/-- A player and the ticks that were armed for it so far, oldest first. -/
structure Host where
  player : Player
  armed : List Tick

namespace Host

def new (settings : Settings) : Host :=
  ⟨Player.new settings, []⟩

def answer (h : Host) (slot : Nat) : Option StepResult :=
  h.armed[slot]?.bind fun tick => (h.player.accept tick.token).2

/-- The host after an event.  A wait that is over stays armed, as it may be over again. -/
def step (h : Host) : HostEvent → Host
  | .operate op => { h with player := h.player.after op }
  | .arm =>
    match h.player.dueTick with
    | .ok (some tick) => { h with armed := h.armed ++ [tick] }
    | _ => h
  | .fire slot =>
    match h.armed[slot]? with
    | some tick => { h with player := (h.player.accept tick.token).1 }
    | none => h

def run (h : Host) (events : List HostEvent) : Host :=
  events.foldl step h

/-- How many of some events make the player issue a new token. -/
def issued (h : Host) : List HostEvent → Nat
  | [] => 0
  | event :: events =>
    (if (h.step event).player.token = h.player.token then 0 else 1) + (h.step event).issued events

theorem issued_append (h : Host) (xs ys : List HostEvent) :
    h.issued (xs ++ ys) = h.issued xs + (h.run xs).issued ys := by
  induction xs generalizing h with
  | nil => exact (Nat.zero_add _).symm
  | cons event xs ih =>
    rw [List.cons_append, issued, issued, ih, Nat.add_assoc]
    rfl

/-! ## 1. Events -/

theorem player_step (h : Host) (event : HostEvent) :
    (h.step event).player = h.player ∨ ∃ op, (h.step event).player = h.player.after op := by
  cases event with
  | operate op => exact Or.inr ⟨op, rfl⟩
  | arm =>
    left
    simp only [step]
    split <;> rfl
  | fire slot =>
    simp only [step]
    split
    · next tick _ => exact Or.inr ⟨.tick tick.token, rfl⟩
    · exact Or.inl rfl

theorem renewed_or_same_step (h : Host) (event : HostEvent) :
    (h.step event).player.token = h.player.token + 1 ∨
      Player.SamePlayback h.player (h.step event).player := by
  rcases h.player_step event with hstep | ⟨op, hstep⟩ <;> rw [hstep]
  · exact Or.inr (Player.SamePlayback.refl _)
  · exact (h.player.after_change op).renewed_or_same

theorem getElem?_armed_step {h : Host} {slot : Nat} {tick : Tick} (event : HostEvent)
    (harmed : h.armed[slot]? = some tick) : (h.step event).armed[slot]? = some tick := by
  cases event with
  | operate op => exact harmed
  | arm =>
    simp only [step]
    split
    · rw [List.getElem?_append_left (List.getElem?_eq_some_iff.mp harmed).1]
      exact harmed
    · exact harmed
  | fire slot =>
    simp only [step]
    split <;> exact harmed

theorem getElem?_armed_run {h : Host} {slot : Nat} {tick : Tick} (events : List HostEvent)
    (harmed : h.armed[slot]? = some tick) : (h.run events).armed[slot]? = some tick := by
  induction events generalizing h with
  | nil => exact harmed
  | cons event events ih => exact ih (getElem?_armed_step event harmed)

/-! ## 2. Runs -/

theorem token_run (h : Host) (events : List HostEvent) :
    (h.run events).player.token = h.player.token + UInt64.ofNat (h.issued events) := by
  induction events generalizing h with
  | nil => exact (UInt64.add_zero _).symm
  | cons event events ih =>
    show ((h.step event).run events).player.token = _
    rw [ih, issued]
    -- An event counts exactly if it changed the token, and then it added one.
    by_cases hsame : (h.step event).player.token = h.player.token
    · rw [if_pos hsame, hsame, Nat.zero_add]
    · rcases h.renewed_or_same_step event with hnew | hkept
      · rw [if_neg hsame, hnew, UInt64.ofNat_add, UInt64.add_assoc]
        rfl
      · exact absurd hkept.token hsame

theorem samePlayback_run {h : Host} {events : List HostEvent} (hissued : h.issued events = 0) :
    Player.SamePlayback h.player (h.run events).player := by
  induction events generalizing h with
  | nil => exact Player.SamePlayback.refl _
  | cons event events ih =>
    rw [issued, Nat.add_eq_zero_iff] at hissued
    have hsame : (h.step event).player.token = h.player.token :=
      Classical.byContradiction fun hne => by rw [if_neg hne] at hissued; omega
    -- A token that is still the same was not counted up.
    rcases h.renewed_or_same_step event with hnew | hkept
    · rw [hsame] at hnew
      exact absurd hnew.symm (add_one_ne_self _)
    · exact hkept.trans (ih hissued.2)

/-! ## 3. Waits -/

section

variable {h : Host} {slot : Nat} {tick : Tick} {events : List HostEvent}

/-- A wait that was armed while the player ran takes effect exactly if no token was issued since. -/
theorem answer_run_isSome_iff (harmed : h.armed[slot]? = some tick)
    (htoken : tick.token = h.player.token) (hpaused : h.player.paused = false)
    (hissued : h.issued events < UInt64.size) :
    ((h.run events).answer slot).isSome ↔ h.issued events = 0 := by
  unfold answer
  rw [getElem?_armed_run events harmed, Option.bind_some, htoken]
  constructor
  · intro hsome
    rcases (h.run events).player.accept_cases h.player.token with
      ⟨_, haccept⟩ | ⟨hcurrent, _, _⟩
    · rw [haccept] at hsome
      exact nomatch hsome
    · rw [token_run] at hcurrent
      exact (add_ofNat_eq_self_iff _ hissued).mp hcurrent.symm
  · intro hzero
    have hsame := samePlayback_run hzero
    rcases (h.run events).player.accept_cases h.player.token with
      ⟨hstale | hstopped, _⟩ | ⟨_, _, haccept⟩
    · exact absurd hsame.token.symm hstale
    · rw [hsame.paused, hpaused] at hstopped
      exact nomatch hstopped
    · rw [haccept]
      rfl

/-- A wait that takes effect is a step forward over the present graph. -/
theorem step_fire_of_answer {outcome : StepResult} (hcursor : h.player.cursor < h.player.commands.length)
    (hanswer : h.answer slot = some outcome) :
    ∃ command, h.player.commands[h.player.cursor]? = some command ∧
      ((∃ instruction, command.action = .ok instruction ∧ outcome = .advanced ∧
          (h.step (.fire slot)).player = h.player.advance instruction) ∨
        ∃ fault, command.action = .error fault ∧ outcome = .aborted ∧
          (h.step (.fire slot)).player =
            h.player.abort (fault.report h.player.settings command.raw)) := by
  unfold answer at hanswer
  obtain ⟨tick, harmed, hresult⟩ := Option.bind_eq_some_iff.mp hanswer
  simp only [step, harmed]
  rcases h.player.accept_cases tick.token with ⟨_, haccept⟩ | ⟨_, _, haccept⟩ <;>
    rw [haccept] at hresult ⊢
  · exact nomatch hresult
  · injection hresult with hresult
    rcases h.player.forward_cases with ⟨hnone, _⟩ |
      ⟨command, instruction, hcommand, haction, hforward⟩ |
      ⟨command, fault, hcommand, haction, hforward⟩
    · rw [List.getElem?_eq_none_iff] at hnone
      omega
    · rw [hforward] at hresult ⊢
      exact ⟨command, hcommand, Or.inl ⟨instruction, haction, hresult.symm, rfl⟩⟩
    · rw [hforward] at hresult ⊢
      exact ⟨command, hcommand, Or.inr ⟨fault, haction, hresult.symm, rfl⟩⟩

theorem step_fire_of_answer_eq_none (hanswer : h.answer slot = none) :
    h.step (.fire slot) = h := by
  unfold answer at hanswer
  simp only [step]
  cases harmed : h.armed[slot]? with
  | none => rfl
  | some tick =>
    rw [harmed, Option.bind_some] at hanswer
    rcases h.player.accept_cases tick.token with ⟨_, haccept⟩ | ⟨_, _, haccept⟩ <;>
      rw [haccept] at hanswer
    · simp only [haccept]
    · exact nomatch hanswer

theorem issued_fire_ne_zero (hcursor : h.player.cursor < h.player.commands.length)
    (hanswer : (h.answer slot).isSome) (events : List HostEvent) :
    h.issued (.fire slot :: events) ≠ 0 := by
  obtain ⟨outcome, houtcome⟩ := Option.isSome_iff_exists.mp hanswer
  have hrenewed : (h.step (.fire slot)).player.token ≠ h.player.token := by
    obtain ⟨command, _, hstep⟩ := step_fire_of_answer hcursor houtcome
    rcases hstep with ⟨instruction, _, _, hplayer⟩ | ⟨fault, _, _, hplayer⟩ <;> rw [hplayer]
    · exact add_one_ne_self h.player.token
    · exact add_one_ne_self h.player.token
  rw [issued, if_neg hrenewed]
  omega

end

/-- Every operation issues a new token or leaves everything that matters to a wait as it is.  Hence
a wait that is armed at any moment of any run takes effect, however much later it is over, exactly if
no token was issued since, and never twice; it then follows the command at the cursor over the graph
of that moment, and otherwise nothing happens.  This is so as long as fewer than `2 ^ 64` tokens are
issued after it is armed. -/
theorem waits_take_effect_once :
    (∀ (p : Player) (op : Operation),
      (p.after op).token = p.token + 1 ∨ Player.SamePlayback p (p.after op)) ∧
    ∀ (settings : Settings) (before between : List HostEvent) (tick : Tick),
      let h := (new settings).run before
      let armed := h.step .arm
      let now := armed.run between
      let slot := h.armed.length
      h.player.dueTick = .ok (some tick) → armed.issued between < UInt64.size →
        ((now.answer slot).isSome ↔ armed.issued between = 0) ∧
        (∀ outcome, now.answer slot = some outcome →
          ∃ command, now.player.commands[now.player.cursor]? = some command ∧
            ((∃ instruction, command.action = .ok instruction ∧ outcome = .advanced ∧
                (now.step (.fire slot)).player = now.player.advance instruction) ∨
              ∃ fault, command.action = .error fault ∧ outcome = .aborted ∧
                (now.step (.fire slot)).player =
                  now.player.abort (fault.report now.player.settings command.raw))) ∧
        (now.answer slot = none → now.step (.fire slot) = now) ∧
        ∀ first second, between = first ++ .fire slot :: second →
          ((armed.run first).answer slot).isSome → now.answer slot = none := by
  refine ⟨fun p op => (p.after_change op).renewed_or_same, ?_⟩
  intro settings before between tick h armed now slot hdue hissued
  obtain ⟨hpaused, hcursor, htoken⟩ := Player.dueTick_eq_some hdue
  have harm : armed = { h with armed := h.armed ++ [tick] } := by
    simp only [armed, step, hdue]
  have harmed : armed.armed[slot]? = some tick := by
    rw [harm]
    exact List.getElem?_concat_length
  have hplayer : armed.player = h.player := by rw [harm]
  rw [← hplayer] at hpaused hcursor htoken
  -- As long as no token was issued, a command is left.
  have hleft : ∀ {events : List HostEvent}, armed.issued events = 0 →
      (armed.run events).player.cursor < (armed.run events).player.commands.length := by
    intro events hzero
    have hsame := samePlayback_run hzero
    rw [hsame.cursor, hsame.commands]
    exact hcursor
  have heffect : ∀ {events : List HostEvent}, armed.issued events < UInt64.size →
      (((armed.run events).answer slot).isSome ↔ armed.issued events = 0) :=
    fun hlt => answer_run_isSome_iff harmed htoken hpaused hlt
  refine ⟨heffect hissued, ?_, step_fire_of_answer_eq_none, ?_⟩
  · intro outcome houtcome
    have hsome : (now.answer slot).isSome := by rw [houtcome]; rfl
    exact step_fire_of_answer (hleft ((heffect hissued).mp hsome)) houtcome
  · intro first second hbetween hfirst
    -- When it took effect, a token was issued; the wait is not over a second time after that.
    have hsplit := issued_append armed first (.fire slot :: second)
    rw [← hbetween] at hsplit
    have hzero : armed.issued first = 0 := (heffect (by omega)).mp hfirst
    have hnew := issued_fire_ne_zero (hleft hzero) hfirst second
    rw [Option.eq_none_iff_forall_ne_some]
    intro outcome houtcome
    have hsome : (now.answer slot).isSome := by rw [houtcome]; rfl
    have := (heffect hissued).mp hsome
    omega

/-- A wait that is over twice, once after an edit of the graph and once more after the next wait was
armed. -/
theorem waits_take_effect_once_of_two_fires :
    let before : List HostEvent := [.operate (.loadTrace "visit 0\nvisit 1"), .operate .play]
    let first : List HostEvent := [.operate (.edit .addNode)]
    let between : List HostEvent := first ++ .fire 0 :: [.arm]
    let h := (new Settings.standard).run before
    let armed := h.step .arm
    h.player.dueTick = .ok (some ⟨2, { secs := 1 }⟩) ∧ armed.issued between < UInt64.size ∧
      ((armed.run first).answer 0).isSome ∧ (armed.run between).answer 0 = none := by
  have hdue : ((new Settings.standard).run
      [.operate (.loadTrace "visit 0\nvisit 1"), .operate .play]).player.dueTick =
        .ok (some ⟨2, { secs := 1 }⟩) := by
    rfl
  intro before first between h armed
  have hnone : armed.issued first = 0 := by decide +kernel
  have hfew : armed.issued between < UInt64.size := by decide +kernel
  have hfirst : ((armed.run first).answer 0).isSome :=
    (waits_take_effect_once.2 Settings.standard before first _ hdue (by
      rw [hnone]; decide)).1.mpr hnone
  have hsecond : (armed.run between).answer 0 = none :=
    (waits_take_effect_once.2 Settings.standard before between _ hdue hfew).2.2.2
      first [.arm] rfl hfirst
  exact ⟨hdue, hfew, hfirst, hsecond⟩

end Host

end GraphReplay
