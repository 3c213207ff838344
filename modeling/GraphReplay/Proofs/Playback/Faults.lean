import GraphReplay.Proofs.Playback.Run

/-!
# Faulty commands

A faulty command ends the playback: the trace is dropped, and of the scene only the report is left.
A player without a trace is `Idle`, and nothing but another trace brings it out of that: it steps
nowhere and does not run, and the report stays until the player is reset or cleared.
-/

namespace GraphReplay

theorem Fault.severity_report (fault : Fault) (settings : Settings) (raw : String) :
    (fault.report settings raw).severity = .error := by
  cases fault with
  | unrecognized line => rfl
  | missingArgument command position => rfl

namespace Player

variable {p q : Player} {command : Command} {fault : Fault}

/-- The command at the cursor has this fault. -/
def AtFault (p : Player) (command : Command) (fault : Fault) : Prop :=
  p.commands[p.cursor]? = some command ∧ command.action = .error fault

/-! ## 1. The step that fails -/

theorem AtFault.forward (h : p.AtFault command fault) :
    p.forward = (p.abort (fault.report p.settings command.raw), .aborted) := by
  rcases p.forward_cases with ⟨hnone, _⟩ | ⟨other, instruction, hother, haction, _⟩ |
    ⟨other, cause, hother, haction, hforward⟩
  · rw [h.1] at hnone
    exact nomatch hnone
  · rw [h.1] at hother
    cases hother
    rw [h.2] at haction
    exact nomatch haction
  · rw [h.1] at hother
    cases hother
    rw [h.2] at haction
    cases haction
    exact hforward

theorem forward_eq_aborted_iff :
    p.forward.2 = .aborted ↔ ∃ command fault, p.AtFault command fault := by
  constructor
  · intro haborted
    rcases p.forward_cases with ⟨_, hforward⟩ | ⟨_, _, _, _, hforward⟩ |
      ⟨command, fault, hcommand, haction, _⟩
    · rw [hforward] at haborted
      exact nomatch haborted
    · rw [hforward] at haborted
      exact nomatch haborted
    · exact ⟨command, fault, hcommand, haction⟩
  · rintro ⟨command, fault, h⟩
    rw [h.forward]

theorem accept_of_isSome {token : UInt64} (h : (p.accept token).2.isSome) :
    p.accept token = (p.forward.1, some p.forward.2) := by
  rcases p.accept_cases token with ⟨_, haccept⟩ | ⟨_, _, haccept⟩
  · rw [haccept] at h
    exact nomatch h
  · exact haccept

/-! ## 2. Players without a trace -/

/-- There is no trace, so there is nothing to step through. -/
structure Idle (p : Player) : Prop where
  commands : p.commands = []
  cursor : p.cursor = 0
  paused : p.paused = true

namespace Idle

theorem abort (p : Player) (message : Message) : Idle (p.abort message) :=
  ⟨rfl, rfl, rfl⟩

theorem play (h : Idle p) : p.play = p := by
  unfold Player.play
  rw [h.commands]
  rfl

theorem toggle (h : Idle p) : p.toggle = p := by
  unfold Player.toggle
  rw [if_pos h.paused, h.play]

theorem forward (h : Idle p) : p.forward = (p, .atEnd) := by
  unfold Player.forward
  rw [h.commands]
  rfl

theorem accept (h : Idle p) (token : UInt64) : p.accept token = (p, none) := by
  rcases p.accept_cases token with ⟨_, haccept⟩ | ⟨_, hrunning, _⟩
  · exact haccept
  · rw [h.paused] at hrunning
    exact nomatch hrunning

theorem dueTick (h : Idle p) : p.dueTick = .ok none := by
  unfold Player.dueTick
  rw [h.paused]
  rfl

theorem phase (h : Idle p) : p.phase = .idle := by
  unfold Player.phase
  rw [h.commands]
  rfl

/-- Of the operations only a trace matters, and for the scene only those that empty it. -/
theorem change {op : Operation} (h : Idle p) (hchange : Change p op q)
    (hop : ∀ text, op ≠ .loadTrace text) :
    Idle q ∧ (op ≠ .reset → op ≠ .clear → q.scene = p.scene) := by
  have hnone : p.commands[p.cursor]? = none := by rw [h.commands]; rfl
  have hlength : p.commands.length = 0 := by rw [h.commands]; rfl
  cases hchange with
  | nothing => exact ⟨h, fun _ _ => rfl⟩
  | graphRead => exact ⟨⟨h.commands, h.cursor, h.paused⟩, fun _ _ => rfl⟩
  | graphSet => exact ⟨⟨h.commands, h.cursor, h.paused⟩, fun _ _ => rfl⟩
  | graphEdited => exact ⟨⟨h.commands, h.cursor, h.paused⟩, fun _ _ => rfl⟩
  | advanced _ hcommand =>
    rw [hnone] at hcommand
    exact nomatch hcommand
  | aborted _ hcommand =>
    rw [hnone] at hcommand
    exact nomatch hcommand
  | steppedBack hpos =>
    have hzero := h.cursor
    omega
  | started _ hcursor => omega
  | startedOver _ hcommands => exact absurd h.commands hcommands
  | stopped => exact ⟨⟨h.commands, h.cursor, rfl⟩, fun _ _ => rfl⟩
  | speedSet => exact ⟨⟨h.commands, h.cursor, h.paused⟩, fun _ _ => rfl⟩
  | traceLoaded text => exact absurd rfl (hop text)
  | wasReset => exact ⟨⟨h.commands, rfl, rfl⟩, fun hreset _ => absurd rfl hreset⟩
  | cleared => exact ⟨⟨rfl, rfl, rfl⟩, fun _ hclear => absurd rfl hclear⟩

theorem after (h : Idle p) {op : Operation} (hop : ∀ text, op ≠ .loadTrace text) :
    Idle (p.after op) ∧
      (p.after op).scene = if op = .reset ∨ op = .clear then Scene.empty else p.scene := by
  obtain ⟨hidle, hscene⟩ := h.change (p.after_change op) hop
  refine ⟨hidle, ?_⟩
  by_cases hreset : op = .reset
  · rw [if_pos (Or.inl hreset), hreset]
    rfl
  · by_cases hclear : op = .clear
    · rw [if_pos (Or.inr hclear), hclear]
      rfl
    · rw [if_neg (not_or.mpr ⟨hreset, hclear⟩)]
      exact hscene hreset hclear

theorem run (h : Idle p) {ops : List Operation} (hops : ∀ text, .loadTrace text ∉ ops) :
    Idle (p.run ops) ∧
      (p.run ops).scene = if .reset ∈ ops ∨ .clear ∈ ops then Scene.empty else p.scene := by
  induction ops generalizing p with
  | nil => exact ⟨h, by simp [Player.run]⟩
  | cons op ops ih =>
    have hop : ∀ text, op ≠ .loadTrace text := fun text heq =>
      hops text (heq ▸ List.mem_cons_self)
    obtain ⟨hidle, hscene⟩ := h.after hop
    obtain ⟨hlast, hrest⟩ := ih hidle fun text hmem => hops text (List.mem_cons_of_mem op hmem)
    refine ⟨hlast, ?_⟩
    show ((p.after op).run ops).scene = _
    rw [hrest, hscene]
    -- The scene is empty from the first reset or clearing on.
    by_cases hfirst : op = .reset ∨ op = .clear
    · have hmem : .reset ∈ op :: ops ∨ .clear ∈ op :: ops := by
        rcases hfirst with rfl | rfl
        · exact Or.inl List.mem_cons_self
        · exact Or.inr List.mem_cons_self
      rw [if_pos hfirst, if_pos hmem, ite_self]
    · have hmem : (.reset ∈ op :: ops ∨ .clear ∈ op :: ops) ↔ (.reset ∈ ops ∨ .clear ∈ ops) := by
        rw [not_or] at hfirst
        simp only [List.mem_cons, Ne.symm hfirst.1, Ne.symm hfirst.2, false_or]
      rw [if_neg hfirst]
      simp only [hmem]

end Idle

/-! ## 3. The end of the playback -/

/-- A step fails exactly at a faulty command, by hand and by a tick that is taken.  Whatever was on
show, the report is all that is left then; graph, speed and settings stay, and the token is a new
one.  From then on nothing steps or runs until another trace is loaded, and only a reset or a
clearing takes the report away. -/
theorem fault_ends_playback (p : Player) :
    (p.forward.2 = .aborted ↔ ∃ command fault, p.AtFault command fault) ∧
    (∀ token, (p.accept token).2.isSome →
      p.accept token = (p.forward.1, some p.forward.2) ∧
        ((p.accept token).2 = some .aborted ↔ ∃ command fault, p.AtFault command fault)) ∧
    ∀ command fault, p.AtFault command fault →
      let q := p.forward.1
      let report := fault.report p.settings command.raw
      q.commands = [] ∧ q.cursor = 0 ∧ q.paused = true ∧
      q.scene = { nodes := ∅, edges := ∅, messages := [report] } ∧ report.severity = .error ∧
      q.graph = p.graph ∧ q.speed = p.speed ∧ q.settings = p.settings ∧ q.token = p.token + 1 ∧
      ∀ ops : List Operation, (∀ text, .loadTrace text ∉ ops) →
        let later := q.run ops
        later.forward = (later, .atEnd) ∧ (∀ token, later.accept token = (later, none)) ∧
        later.dueTick = .ok none ∧ later.phase = .idle ∧
        later.paused = true ∧ later.play = later ∧ later.toggle = later ∧
        later.scene = if .reset ∈ ops ∨ .clear ∈ ops then Scene.empty else q.scene := by
  refine ⟨forward_eq_aborted_iff, fun token htaken => ?_, fun command fault h => ?_⟩
  · have haccept := accept_of_isSome htaken
    refine ⟨haccept, ?_⟩
    rw [haccept, Option.some_inj]
    exact forward_eq_aborted_iff
  · intro q report
    have hq : q = p.abort report := congrArg Prod.fst h.forward
    have hidle : Idle q := hq ▸ Idle.abort p report
    refine ⟨hidle.commands, hidle.cursor, hidle.paused, by rw [hq]; rfl,
      fault.severity_report p.settings command.raw, by rw [hq]; rfl, by rw [hq]; rfl,
      by rw [hq]; rfl, by rw [hq]; rfl, fun ops hops => ?_⟩
    intro later
    obtain ⟨hlater, hscene⟩ := hidle.run hops
    exact ⟨hlater.forward, hlater.accept, hlater.dueTick, hlater.phase, hlater.paused, hlater.play,
      hlater.toggle, hscene⟩

/-- An unknown line after a message, met by the clock, and attempts to go on after it. -/
theorem fault_ends_playback_of_unknown_line :
    let p := (new Settings.standard).run [.loadTrace "log hi\nbogus\nvisit 0", .forward, .play]
    let ops : List Operation := [.tick p.token, .play, .forward, .setSpeed 2.0, .toggle, .backward]
    let later := p.forward.1.run ops
    p.AtFault ⟨"bogus", [], "bogus", .error (.unrecognized "bogus")⟩ (.unrecognized "bogus") ∧
      (p.accept p.token).2 = some .aborted ∧ (∀ text, .loadTrace text ∉ ops) ∧
      later.forward = (later, .atEnd) ∧ later.phase = .idle ∧
      later.scene.messages = [⟨.error, "Error: unrecognized command \"bogus\""⟩] := by
  intro p ops later
  have hfault :
      p.AtFault ⟨"bogus", [], "bogus", .error (.unrecognized "bogus")⟩ (.unrecognized "bogus") :=
    ⟨by rfl, rfl⟩
  have htaken : (p.accept p.token).2.isSome := by decide +kernel
  have haborted : (p.accept p.token).2 = some .aborted :=
    (((fault_ends_playback p).2.1 p.token htaken).2).mpr ⟨_, _, hfault⟩
  have hops : ∀ text, .loadTrace text ∉ ops := fun text hmem => by simp [ops] at hmem
  obtain ⟨_, _, _, hscene, _, _, _, _, _, hlater⟩ := (fault_ends_playback p).2.2 _ _ hfault
  obtain ⟨hforward, _, _, hphase, _, _, _, hkept⟩ := hlater ops hops
  refine ⟨hfault, haborted, hops, hforward, hphase, ?_⟩
  have hreport : later.scene = p.forward.1.scene := hkept
  rw [hreport, hscene]
  decide +kernel

end Player

end GraphReplay
