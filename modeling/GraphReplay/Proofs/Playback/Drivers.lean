import GraphReplay.Proofs.Playback.Faults
import GraphReplay.Proofs.Playback.History
import GraphReplay.Proofs.Playback.Phases

/-!
# Two drivers

A trace is driven to its end by hand, step after step, or by the clock, tick after tick.  Both end,
as every step leaves fewer commands, and both come to the same: the commands up to the first faulty
one are followed, and which one that is does not depend on the graph.  The clock needs a speed that
has a delay; at any other it does not start (`not_driven_without_delay`).
-/

namespace GraphReplay

def Command.isFaulty (command : Command) : Bool :=
  match command.action with
  | .ok _ => false
  | .error _ => true

/-- The number of the first faulty command; the number of commands if there is none. -/
def faultIndex (commands : List Command) : Nat :=
  commands.findIdx Command.isFaulty

theorem Command.isFaulty_eq_true_iff {command : Command} :
    command.isFaulty = true ↔ ∃ fault, command.action = .error fault := by
  unfold isFaulty
  cases command.action with
  | ok instruction => simp
  | error fault => simp

theorem Command.isFaulty_eq_false_iff {command : Command} :
    command.isFaulty = false ↔ ∃ instruction, command.action = .ok instruction := by
  unfold isFaulty
  cases command.action with
  | ok instruction => simp
  | error fault => simp

namespace Player

variable {p q : Player}

/-! ## 1. The drivers -/

def remaining (p : Player) : Nat :=
  p.commands.length - p.cursor

theorem remaining_forward_lt (hcursor : p.cursor < p.commands.length) :
    p.forward.1.remaining < p.remaining := by
  unfold remaining
  rcases p.forward_cases with ⟨hnone, _⟩ | ⟨_, _, _, _, hforward⟩ | ⟨_, _, _, _, hforward⟩
  · rw [List.getElem?_eq_none_iff] at hnone
    omega
  · rw [hforward]
    show p.commands.length - (p.cursor + 1) < p.commands.length - p.cursor
    omega
  · rw [hforward]
    show 0 - 0 < p.commands.length - p.cursor
    omega

theorem cursor_lt_of_advanced (h : p.forward.2 = .advanced) : p.cursor < p.commands.length := by
  rcases p.forward_cases with ⟨_, hforward⟩ | ⟨_, _, hcommand, _, _⟩ | ⟨_, _, _, _, hforward⟩
  · rw [hforward] at h
    exact nomatch h
  · exact (List.getElem?_eq_some_iff.mp hcommand).1
  · rw [hforward] at h
    exact nomatch h

theorem commands_forward_of_advanced (h : p.forward.2 = .advanced) :
    p.forward.1.commands = p.commands := by
  rcases p.forward_cases with ⟨_, hforward⟩ | ⟨_, _, _, _, hforward⟩ | ⟨_, _, _, _, hforward⟩
  · rw [hforward]
  · rw [hforward]
    rfl
  · rw [hforward] at h
    exact nomatch h

/-- Steps by hand until one does not advance: how each went, and the player then. -/
def byHand (p : Player) : List StepResult × Player :=
  if _ : p.forward.2 = .advanced then
    (.advanced :: p.forward.1.byHand.1, p.forward.1.byHand.2)
  else ([p.forward.2], p.forward.1)
termination_by p.remaining
decreasing_by all_goals exact remaining_forward_lt (cursor_lt_of_advanced ‹_›)

theorem remaining_accept_lt {tick : Tick} {outcome : StepResult}
    (hdue : p.dueTick = .ok (some tick)) (haccept : p.accept tick.token = (q, some outcome)) :
    q.remaining < p.remaining := by
  obtain ⟨_, hcursor, _⟩ := dueTick_eq_some hdue
  have htaken : (p.accept tick.token).2.isSome := by rw [haccept]; rfl
  have hq : p.forward.1 = q := by
    rw [accept_of_isSome htaken] at haccept
    exact congrArg Prod.fst haccept
  rw [← hq]
  exact remaining_forward_lt hcursor

/-- Ticks, each armed and taken when it is due, until none is: how each went, and the player then.
A tick that has no delay cannot be armed, and ends this without an answer. -/
def byClock (p : Player) : Except TickError (List StepResult × Player) :=
  match _ : p.dueTick with
  | .error fault => .error fault
  | .ok none => .ok ([], p)
  | .ok (some tick) =>
    match _ : p.accept tick.token with
    | (next, none) => .ok ([], next)
    | (next, some outcome) => next.byClock.map fun run => (outcome :: run.1, run.2)
termination_by p.remaining
decreasing_by exact remaining_accept_lt ‹_› ‹_›

theorem byHand_of_advanced (h : p.forward.2 = .advanced) :
    p.byHand = (.advanced :: p.forward.1.byHand.1, p.forward.1.byHand.2) := by
  rw [byHand, dif_pos h]

theorem byHand_of_not_advanced (h : p.forward.2 ≠ .advanced) :
    p.byHand = ([p.forward.2], p.forward.1) := by
  rw [byHand, dif_neg h]

theorem byClock_eq (p : Player) :
    p.byClock = match p.dueTick with
      | .error fault => .error fault
      | .ok none => .ok ([], p)
      | .ok (some tick) =>
        match p.accept tick.token with
        | (next, none) => .ok ([], next)
        | (next, some outcome) => next.byClock.map fun run => (outcome :: run.1, run.2) := by
  rw [byClock]
  -- The definition keeps the due tick and its outcome as evidence that fewer commands are left.
  split
  · next fault hdue => rw [hdue]
  · next hdue => rw [hdue]
  · next tick hdue =>
    rw [hdue]
    dsimp only
    split
    · next next haccept => rw [haccept]
    · next next outcome haccept => rw [haccept]

theorem byClock_of_stopped (h : p.paused = true) : p.byClock = .ok ([], p) := by
  rw [byClock_eq, dueTick_of_stopped h]

theorem byClock_of_running {delay : Delay} (hpaused : p.paused = false)
    (hcursor : p.cursor < p.commands.length) (hdelay : Delay.atSpeed? p.speed = some delay) :
    p.byClock = p.forward.1.byClock.map fun run => (p.forward.2 :: run.1, run.2) := by
  rw [byClock_eq, dueTick_of_running hpaused hcursor, hdelay]
  dsimp only
  rw [accept_token_of_running hpaused]

theorem byClock_of_no_delay (hpaused : p.paused = false) (hcursor : p.cursor < p.commands.length)
    (hdelay : Delay.atSpeed? p.speed = none) : p.byClock = .error (.noDelay p.speed) := by
  rw [byClock_eq, dueTick_of_running hpaused hcursor, hdelay]

theorem speed_forward (p : Player) : p.forward.1.speed = p.speed := by
  rcases p.forward_cases with ⟨_, hforward⟩ | ⟨_, _, _, _, hforward⟩ | ⟨_, _, _, _, hforward⟩ <;>
    rw [hforward] <;> rfl

/-! ## 2. Outcomes -/

theorem forward_of_lt_faultIndex (h : p.cursor < faultIndex p.commands) :
    ∃ instruction, p.forward = (p.advance instruction, .advanced) := by
  have hlt : p.cursor < p.commands.length := by
    have hle : faultIndex p.commands ≤ p.commands.length := List.findIdx_le_length
    omega
  have hcommand : p.commands[p.cursor]? = some p.commands[p.cursor] := List.getElem?_eq_getElem hlt
  have hsound : p.commands[p.cursor].isFaulty = false := List.not_of_lt_findIdx h
  obtain ⟨instruction, haction⟩ := Command.isFaulty_eq_false_iff.mp hsound
  rcases p.forward_cases with ⟨hnone, _⟩ | ⟨_, other, _, _, hforward⟩ |
    ⟨command, fault, hother, hfault, _⟩
  · rw [hcommand] at hnone
    exact nomatch hnone
  · exact ⟨other, hforward⟩
  · rw [hcommand] at hother
    cases hother
    rw [haction] at hfault
    exact nomatch hfault

theorem exists_atFault (h : p.cursor = faultIndex p.commands)
    (hlt : p.cursor < p.commands.length) : ∃ command fault, p.AtFault command fault := by
  have hlt' : p.commands.findIdx Command.isFaulty < p.commands.length := by
    change faultIndex p.commands < p.commands.length
    omega
  have hfaulty : (p.commands[p.commands.findIdx Command.isFaulty]).isFaulty = true :=
    List.findIdx_getElem (w := hlt')
  obtain ⟨fault, haction⟩ := Command.isFaulty_eq_true_iff.mp hfaulty
  refine ⟨_, fault, ?_, haction⟩
  rw [h]
  exact List.getElem?_eq_getElem hlt'

theorem forward_of_length_le (h : p.commands.length ≤ p.cursor) : p.forward = (p, .atEnd) := by
  unfold forward
  rw [List.getElem?_eq_none_iff.mpr h]

theorem byHand_of_length_le (h : p.commands.length ≤ p.cursor) : p.byHand = ([.atEnd], p) := by
  have hforward := forward_of_length_le h
  have hnot : p.forward.2 ≠ .advanced := by
    rw [hforward]
    exact nofun
  rw [byHand_of_not_advanced hnot, hforward]

/-- By hand the commands before the first faulty one are followed; the step after them fails. -/
theorem byHand_outcomes (hle : p.cursor ≤ faultIndex p.commands) :
    p.byHand.1 = List.replicate (faultIndex p.commands - p.cursor) .advanced ++
      [if faultIndex p.commands < p.commands.length then .aborted else .atEnd] := by
  -- On the number of commands that are still to be followed.
  induction hleft : faultIndex p.commands - p.cursor generalizing p with
  | zero =>
    have hcursor : p.cursor = faultIndex p.commands := by omega
    rw [List.replicate_zero, List.nil_append]
    by_cases hlt : faultIndex p.commands < p.commands.length
    · obtain ⟨command, fault, hfault⟩ := exists_atFault hcursor (by omega)
      have hnot : p.forward.2 ≠ .advanced := by
        rw [hfault.forward]
        exact nofun
      rw [byHand_of_not_advanced hnot, if_pos hlt, hfault.forward]
    · rw [byHand_of_length_le (by omega), if_neg hlt]
  | succ left ih =>
    obtain ⟨instruction, hforward⟩ := forward_of_lt_faultIndex (p := p) (by omega)
    have hadvanced : p.forward.2 = .advanced := by rw [hforward]
    have hnext := ih (p := p.advance instruction)
      (show p.cursor + 1 ≤ faultIndex p.commands by omega)
      (show faultIndex p.commands - (p.cursor + 1) = left by omega)
    rw [byHand_of_advanced hadvanced, hforward, List.replicate_succ, List.cons_append]
    exact congrArg (StepResult.advanced :: ·) hnext

/-- At a speed that has a delay the clock does the same and then stands still. -/
theorem byClock_outcomes {delay : Delay} (hpaused : p.paused = false)
    (hcursor : p.cursor < p.commands.length) (hdelay : Delay.atSpeed? p.speed = some delay)
    (hle : p.cursor ≤ faultIndex p.commands) :
    ∃ last, p.byClock = .ok (List.replicate (faultIndex p.commands - p.cursor) .advanced ++
        (if faultIndex p.commands < p.commands.length then [.aborted] else []), last) ∧
      last.paused = true ∧
      last.phase = if faultIndex p.commands < p.commands.length then .idle else .finished := by
  induction hleft : faultIndex p.commands - p.cursor generalizing p with
  | zero =>
    have hat : p.cursor = faultIndex p.commands := by omega
    have hlt : faultIndex p.commands < p.commands.length := by omega
    obtain ⟨command, fault, hfault⟩ := exists_atFault hat hcursor
    have hidle := Idle.abort p (fault.report p.settings command.raw)
    rw [byClock_of_running hpaused hcursor hdelay, hfault.forward, byClock_of_stopped hidle.paused,
      if_pos hlt, if_pos hlt]
    exact ⟨_, rfl, hidle.paused, hidle.phase⟩
  | succ left ih =>
    obtain ⟨instruction, hforward⟩ := forward_of_lt_faultIndex (p := p) (by omega)
    have hlength : faultIndex p.commands ≤ p.commands.length := List.findIdx_le_length
    rw [byClock_of_running hpaused hcursor hdelay, hforward, List.replicate_succ,
      List.cons_append]
    by_cases hlast : p.cursor + 1 = p.commands.length
    · -- The last command pauses the player, so it was the last to be followed as well.
      have hstopped : (p.advance instruction).paused = true := by
        show (p.paused || p.cursor + 1 == p.commands.length) = true
        rw [hlast, beq_self_eq_true, Bool.or_true]
      have hnone : ¬ faultIndex p.commands < p.commands.length := by omega
      have hcommands : p.commands ≠ [] := List.ne_nil_of_length_pos (by omega)
      have hphase : (p.advance instruction).phase = .finished :=
        phase_eq_finished hstopped hcommands hlast
      have hzero : left = 0 := by omega
      rw [byClock_of_stopped hstopped, if_neg hnone, if_neg hnone, hzero]
      exact ⟨_, rfl, hstopped, hphase⟩
    · have hrunning : (p.advance instruction).paused = false := by
        show (p.paused || p.cursor + 1 == p.commands.length) = false
        rw [hpaused, Bool.false_or, beq_eq_false_iff_ne]
        exact hlast
      obtain ⟨last, hclock, hend⟩ := ih (p := p.advance instruction) hrunning
        (show p.cursor + 1 < p.commands.length by omega) hdelay
        (show p.cursor + 1 ≤ faultIndex p.commands by omega)
        (show faultIndex p.commands - (p.cursor + 1) = left by omega)
      rw [hclock]
      exact ⟨last, rfl, hend⟩

/-! ## 3. Where the drivers end -/

/-- Two players that differ in whether they run and in the token only. -/
def Alike (p q : Player) : Prop :=
  q = { p with paused := q.paused, token := q.token }

theorem Alike.forward (h : Alike p q) :
    q.forward.2 = p.forward.2 ∧ Alike p.forward.1 q.forward.1 := by
  generalize hpaused : q.paused = paused at h
  generalize htoken : q.token = token at h
  rw [h]
  unfold Player.forward Alike
  cases p.commands[p.cursor]? with
  | none => exact ⟨rfl, rfl⟩
  | some command =>
    simp only
    cases p.scene.step p.settings p.graph command with
    | followed scene => exact ⟨rfl, rfl⟩
    | refused scene fault => exact ⟨rfl, rfl⟩

/-- A step leaves no command and pauses, or it leaves one and goes on as before. -/
theorem forward_ends_or_goes_on (hcursor : p.cursor < p.commands.length) :
    (p.forward.1.paused = true ∧ p.forward.1.commands.length ≤ p.forward.1.cursor) ∨
      (p.forward.2 = .advanced ∧ p.forward.1.cursor < p.forward.1.commands.length ∧
        p.forward.1.paused = p.paused) := by
  rcases p.forward_cases with ⟨hnone, _⟩ | ⟨_, instruction, _, _, hforward⟩ |
    ⟨_, _, _, _, hforward⟩
  · rw [List.getElem?_eq_none_iff] at hnone
    omega
  · rw [hforward]
    show ((p.paused || p.cursor + 1 == p.commands.length) = true ∧
        p.commands.length ≤ p.cursor + 1) ∨
      (StepResult.advanced = .advanced ∧ p.cursor + 1 < p.commands.length ∧
        (p.paused || p.cursor + 1 == p.commands.length) = p.paused)
    by_cases hlast : p.cursor + 1 = p.commands.length
    · exact Or.inl ⟨by rw [hlast, beq_self_eq_true, Bool.or_true], by omega⟩
    · refine Or.inr ⟨rfl, by omega, ?_⟩
      rw [beq_eq_false_iff_ne.mpr hlast, Bool.or_false]
  · rw [hforward]
    exact Or.inl ⟨rfl, Nat.le_refl 0⟩

theorem byHand_of_last (h : p.forward.1.commands.length ≤ p.forward.1.cursor) :
    p.byHand.2 = p.forward.1 := by
  by_cases hadvanced : p.forward.2 = .advanced
  · rw [byHand_of_advanced hadvanced, byHand_of_length_le h]
  · rw [byHand_of_not_advanced hadvanced]

theorem Alike.last {delay : Delay} {outcomes : List StepResult} {last : Player} (h : Alike p q)
    (hpaused : p.paused = false) (hcursor : p.cursor < p.commands.length)
    (hdelay : Delay.atSpeed? p.speed = some delay) (hclock : p.byClock = .ok (outcomes, last)) :
    q.byHand.2 = { last with token := q.byHand.2.token } := by
  induction hleft : p.remaining using Nat.strongRecOn generalizing p q outcomes with
  | ind left ih =>
    obtain ⟨hsame, hnext⟩ := h.forward
    have hcursor' : q.cursor < q.commands.length := by
      rw [h]
      exact hcursor
    rw [byClock_of_running hpaused hcursor hdelay] at hclock
    rcases forward_ends_or_goes_on hcursor with ⟨hstopped, hend⟩ | ⟨hadvanced, hmore, hkept⟩
    · -- Then the other one stops as well, on the same state.
      have hend' : q.forward.1.commands.length ≤ q.forward.1.cursor := by
        rw [hnext]
        exact hend
      have hstopped' : q.forward.1.paused = true := by
        rcases forward_ends_or_goes_on hcursor' with ⟨hstopped', _⟩ | ⟨_, hmore, _⟩
        · exact hstopped'
        · omega
      rw [byClock_of_stopped hstopped] at hclock
      cases hclock
      rw [byHand_of_last hend', hnext, hstopped', ← hstopped]
    · rw [byHand_of_advanced (hsame.trans hadvanced)]
      cases hrest : p.forward.1.byClock with
      | error fault =>
        rw [hrest] at hclock
        cases hclock
      | ok run =>
        rw [hrest] at hclock
        cases hclock
        exact ih _ (hleft ▸ remaining_forward_lt hcursor) hnext (hkept.trans hpaused) hmore
          (p.speed_forward ▸ hdelay) hrest rfl

/-! ## 4. From a reachable player -/

theorem Faithful.cursor_le_faultIndex {past : List Followed} (h : Faithful p past) :
    p.cursor ≤ faultIndex p.commands := by
  apply Nat.le_of_not_lt
  intro hlt
  have hle := h.cursor_le
  have hindex : p.commands.findIdx Command.isFaulty < p.commands.length := by
    change faultIndex p.commands < p.commands.length
    omega
  have hmem : p.commands[p.commands.findIdx Command.isFaulty] ∈ p.commands.take p.cursor := by
    rw [List.mem_take_iff_getElem]
    exact ⟨_, Nat.lt_min.mpr ⟨hlt, hindex⟩, rfl⟩
  obtain ⟨instruction, haction⟩ := h.followable _ hmem
  have hfaulty := List.findIdx_getElem (w := hindex)
  rw [Command.isFaulty_eq_false_iff.mpr ⟨instruction, haction⟩] at hfaulty
  exact nomatch hfaulty

theorem play_of_lt (hcursor : p.cursor < p.commands.length) :
    p.play = ({ p with paused := false }).renew := by
  rcases p.play_cases with ⟨hcommands, _⟩ | ⟨_, hplay⟩ | ⟨_, hend, _⟩
  · rw [hcommands, List.length_nil] at hcursor
    omega
  · exact hplay
  · omega

/-- At its end a trace starts from its beginning. -/
theorem play_of_length_le (hcommands : p.commands ≠ []) (hcursor : p.commands.length ≤ p.cursor) :
    p.play = p.rewind.play := by
  have hstart : p.rewind.cursor < p.rewind.commands.length := List.length_pos_iff.mpr hcommands
  rw [play_of_lt hstart]
  rcases p.play_cases with ⟨hnil, _⟩ | ⟨hlt, _⟩ | ⟨_, _, hplay⟩
  · exact absurd hnil hcommands
  · omega
  · exact hplay

/-- The command that a start begins with. -/
def startIndex (p : Player) : Nat :=
  if p.cursor < p.commands.length then p.cursor else 0

theorem startIndex_lt (hcommands : p.commands ≠ []) : p.startIndex < p.commands.length := by
  unfold startIndex
  split
  · assumption
  · exact List.length_pos_iff.mpr hcommands

theorem cursor_play (hcommands : p.commands ≠ []) : p.play.cursor = p.startIndex := by
  unfold startIndex
  rcases p.play_cases with ⟨hnil, _⟩ | ⟨hlt, hplay⟩ | ⟨_, hend, hplay⟩
  · exact absurd hnil hcommands
  · rw [hplay, if_pos hlt]
    rfl
  · rw [hplay, if_neg (Nat.not_lt.mpr hend)]
    rfl

theorem play_byClock {delay : Delay} (hcommands : p.commands ≠ [])
    (hdelay : Delay.atSpeed? p.speed = some delay) (hle : p.cursor ≤ faultIndex p.commands) :
    ∃ last, p.play.byClock =
        .ok (List.replicate (faultIndex p.commands - p.startIndex) .advanced ++
          (if faultIndex p.commands < p.commands.length then [.aborted] else []), last) ∧
      last.paused = true ∧
      last.phase = if faultIndex p.commands < p.commands.length then .idle else .finished := by
  obtain ⟨hrunning, hsame, hspeed, _⟩ := play_of_ne_nil hcommands
  have hstart := cursor_play hcommands
  have hstartLe : p.startIndex ≤ faultIndex p.commands := by
    unfold startIndex
    split
    · exact hle
    · exact Nat.zero_le _
  have hmore : p.play.cursor < p.play.commands.length := by
    rw [hstart, hsame]
    exact startIndex_lt hcommands
  have hbefore : p.play.cursor ≤ faultIndex p.play.commands := by
    rw [hstart, hsame]
    exact hstartLe
  rw [← hspeed] at hdelay
  have hclock := byClock_outcomes hrunning hmore hdelay hbefore
  rw [hsame, hstart] at hclock
  exact hclock

theorem play_of_no_delay (hcommands : p.commands ≠ []) (hdelay : Delay.atSpeed? p.speed = none) :
    p.play.dueTick = .error (.noDelay p.speed) ∧ p.play.byClock = .error (.noDelay p.speed) := by
  obtain ⟨hrunning, hsame, hspeed, _⟩ := play_of_ne_nil hcommands
  have hmore : p.play.cursor < p.play.commands.length := by
    rw [cursor_play hcommands, hsame]
    exact startIndex_lt hcommands
  rw [← hspeed] at hdelay ⊢
  constructor
  · rw [dueTick_of_running hrunning hmore, hdelay]
  · exact byClock_of_no_delay hrunning hmore hdelay

/-- From every player that a run leads to and that has a trace, the hand follows the commands before
the first faulty one and fails at that one, if there is one.  At a speed that has a delay the clock
does the same and ends in the same state; at the end of the trace it begins with an empty scene at the
start.  At any other speed it arms no tick at all.  What the steps come to depends on the commands
and the cursor only. -/
theorem clock_and_hand_agree (settings : Settings) (ops : List Operation) :
    let p := (new settings).run ops
    let count := p.commands.length
    let stop := faultIndex p.commands
    p.commands ≠ [] →
      p.cursor ≤ stop ∧
      p.byHand.1 = List.replicate (stop - p.cursor) .advanced ++
        [if stop < count then .aborted else .atEnd] ∧
      (p.cursor = count → p.play = { p with cursor := 0, scene := Scene.empty }.play) ∧
      (∀ delay, Delay.atSpeed? p.speed = some delay →
        (p.cursor < count → ∃ last,
          p.play.byClock = .ok (List.replicate (stop - p.cursor) .advanced ++
            (if stop < count then [.aborted] else []), last) ∧
          last.dueTick = .ok none ∧ last.phase = (if stop < count then .idle else .finished) ∧
          p.byHand.2 = { last with token := p.byHand.2.token }) ∧
        (p.cursor = count → ∃ last,
          p.play.byClock = .ok (List.replicate count .advanced, last) ∧
          last.dueTick = .ok none ∧ last.phase = .finished)) ∧
      (Delay.atSpeed? p.speed = none → p.play.byClock = .error (.noDelay p.speed)) ∧
      ∀ (settings' : Settings) (ops' : List Operation),
        let q := (new settings').run ops'
        q.commands = p.commands → q.cursor = p.cursor →
          q.byHand.1 = p.byHand.1 ∧
          ∀ delay delay', Delay.atSpeed? p.speed = some delay →
            Delay.atSpeed? q.speed = some delay' →
              q.play.byClock.map Prod.fst = p.play.byClock.map Prod.fst := by
  have hreached : ∀ (settings : Settings) (ops : List Operation),
      let p := (new settings).run ops
      p.cursor ≤ faultIndex p.commands := by
    intro settings ops
    have h : Faithful (new settings) [] := Faithful.atStart rfl rfl
    exact (h.run ops).cursor_le_faultIndex
  intro p count stop hcommands
  have hle : p.cursor ≤ stop := hreached settings ops
  have hcount : stop ≤ count := List.findIdx_le_length
  have hhand := byHand_outcomes hle
  refine ⟨hle, hhand, fun hend => play_of_length_le hcommands (Nat.le_of_eq hend.symm), ?_,
    fun hdelay => (play_of_no_delay hcommands hdelay).2, ?_⟩
  · intro delay hdelay
    obtain ⟨last, hclock, hstopped, hphase⟩ := play_byClock hcommands hdelay hle
    refine ⟨fun hcursor => ?_, fun hend => ?_⟩
    · have hstart : p.startIndex = p.cursor := if_pos hcursor
      obtain ⟨hrunning, hsame, hspeed, _⟩ := play_of_ne_nil hcommands
      have halike : Alike p.play p := by rw [play_of_lt hcursor]; rfl
      have hmore : p.play.cursor < p.play.commands.length := by
        rw [cursor_play hcommands, hstart, hsame]
        exact hcursor
      have hlast := halike.last hrunning hmore (hspeed ▸ hdelay) hclock
      rw [hstart] at hclock
      exact ⟨last, hclock, dueTick_of_stopped hstopped, hphase, hlast⟩
    · -- All commands were followed, so there is no faulty one.
      have hall : ¬ stop < count := by omega
      have hstart : p.startIndex = 0 := if_neg (by omega)
      have hstop : stop - 0 = count := by omega
      rw [hstart, if_neg hall, List.append_nil, hstop] at hclock
      rw [if_neg hall] at hphase
      exact ⟨last, hclock, dueTick_of_stopped hstopped, hphase⟩
  · intro settings' ops' q hsame hcursor
    have hle' : q.cursor ≤ faultIndex q.commands := hreached settings' ops'
    constructor
    · rw [byHand_outcomes hle', hhand, hsame, hcursor]
    · intro delay delay' hdelay hdelay'
      obtain ⟨last, hclock, _⟩ := play_byClock hcommands hdelay hle
      obtain ⟨last', hclock', _⟩ := play_byClock (p := q) (hsame ▸ hcommands) hdelay' hle'
      have hstart : q.startIndex = p.startIndex := by
        unfold startIndex
        rw [hsame, hcursor]
      rw [hclock', hclock, hsame, hstart]
      rfl

/-- A trace with a faulty third line, one step into it, over two different graphs. -/
theorem clock_and_hand_agree_of_faulty_third :
    let trace := "visit 0\ncolorEdge 0 1 red\nbogus\nvisit 1"
    let ops : List Operation := [.loadTrace trace, .forward]
    let ops' : List Operation := [.readGraph "2 1\n0 1", .loadTrace trace, .forward]
    let p := (new Settings.standard).run ops
    let q := (new { directed := true }).run ops'
    p.commands ≠ [] ∧ p.cursor < p.commands.length ∧ q.commands = p.commands ∧
      q.cursor = p.cursor ∧ Delay.atSpeed? p.speed = some { secs := 1 } ∧
      p.byHand.1 = [.advanced, .aborted] ∧
      (∃ last, p.play.byClock = .ok ([.advanced, .aborted], last) ∧ last.phase = .idle) ∧
      q.play.byClock.map Prod.fst = p.play.byClock.map Prod.fst := by
  intro trace ops ops' p q
  have hcommands : p.commands ≠ [] := by decide +kernel
  have hcursor : p.cursor < p.commands.length := by decide +kernel
  have hdelay : Delay.atSpeed? p.speed = some { secs := 1 } := by decide +kernel
  have hdelay' : Delay.atSpeed? q.speed = some { secs := 1 } := by decide +kernel
  let p₀ := (new Settings.standard).run [.loadTrace trace]
  let q₀ := (new { directed := true }).run [.readGraph "2 1\n0 1", .loadTrace trace]
  have hp : p.commands = readTrace trace := by
    have hstep : p = p₀.forward.1 := rfl
    have hadvanced : p₀.forward.2 = .advanced := by decide +kernel
    rw [hstep, commands_forward_of_advanced hadvanced]
    rfl
  have hq : q.commands = readTrace trace := by
    have hstep : q = q₀.forward.1 := rfl
    have hadvanced : q₀.forward.2 = .advanced := by decide +kernel
    rw [hstep, commands_forward_of_advanced hadvanced]
    rfl
  have hsame : q.commands = p.commands := hq.trans hp.symm
  have hat : q.cursor = p.cursor := by decide +kernel
  have hleft : faultIndex p.commands - p.cursor = 1 := by decide +kernel
  have hfaulty : faultIndex p.commands < p.commands.length := by decide +kernel
  have hagree := clock_and_hand_agree Settings.standard ops hcommands
  have hhand : p.byHand.1 = List.replicate (faultIndex p.commands - p.cursor) .advanced ++
      [if faultIndex p.commands < p.commands.length then .aborted else .atEnd] :=
    hagree.2.1
  have hclock : ∃ last, p.play.byClock =
        .ok (List.replicate (faultIndex p.commands - p.cursor) .advanced ++
          (if faultIndex p.commands < p.commands.length then [.aborted] else []), last) ∧
      last.dueTick = .ok none ∧
      last.phase = (if faultIndex p.commands < p.commands.length then .idle else .finished) ∧
      p.byHand.2 = { last with token := p.byHand.2.token } :=
    (hagree.2.2.2.1 _ hdelay).1 hcursor
  obtain ⟨last, hclock, _, hphase, _⟩ := hclock
  rw [hleft, if_pos hfaulty] at hhand hclock
  rw [if_pos hfaulty] at hphase
  exact ⟨hcommands, hcursor, hsame, hat, hdelay, hhand, ⟨last, hclock, hphase⟩,
    (hagree.2.2.2.2.2 { directed := true } ops' hsame hat).2 _ _ hdelay hdelay'⟩

/-- One step in `2 ^ 64` seconds is a speed that the player takes.  The clock arms no tick then, and
by hand the one command is followed. -/
theorem not_driven_without_delay :
    let slowest : Float := 1.0 / 18446744073709551616.0
    let p := (new { Settings.standard with minSpeed := slowest }).run
      [.loadTrace "log", .setSpeed slowest]
    p.speed = slowest ∧ p.cursor < p.commands.length ∧ p.play.phase = .playing ∧
      p.play.dueTick = .error (.noDelay slowest) ∧ p.play.byClock = .error (.noDelay slowest) ∧
      p.byHand.1 = [.advanced, .atEnd] := by
  intro slowest p
  have hspeed : p.speed = slowest := by decide +kernel
  have hcommands : p.commands ≠ [] := by decide +kernel
  have hcursor : p.cursor < p.commands.length := by decide +kernel
  have hdelay : Delay.atSpeed? p.speed = none := by decide +kernel
  have hplay := play_of_no_delay hcommands hdelay
  have hhand := byHand_outcomes (p := p) (by decide +kernel)
  have hleft : faultIndex p.commands - p.cursor = 1 := by decide +kernel
  have hsound : ¬ faultIndex p.commands < p.commands.length := by decide +kernel
  rw [hspeed] at hplay
  rw [hleft, if_neg hsound] at hhand
  exact ⟨hspeed, hcursor, by decide +kernel, hplay.1, hplay.2, hhand⟩

end Player

end GraphReplay
