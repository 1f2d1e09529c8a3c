import WkWebControl.Effects.Observer
import WkWebControl.Backend.TurnGating
import WkWebControl.Dll.ControlState
import WkWebControl.Dll.IpcServer

open Effects WebControl

namespace WebControl.Backend

def ControlAction.plugin : ControlAction → Dll.ControlAction
  | .moveLeft => .moveLeft
  | .moveRight => .moveRight
  | .aimUp => .aimUp
  | .aimDown => .aimDown
  | .selectWeapon => .selectWeapon
  | .fire => .fire
  | .jump => .jump

def ControlPhase.plugin : ControlPhase → Dll.ControlPhase
  | .press => .press
  | .release => .release

theorem parseAction_value (a : ControlAction) : Dll.parseAction a.value = some a.plugin := by
  cases a <;> rfl

theorem parsePhase_value (phase : ControlPhase) : Dll.parsePhase phase.value = phase.plugin := by
  cases phase <;> rfl

theorem readCommand_modelDump (cmd : CommandMessage) :
    Dll.readCommand cmd.modelDump =
      .ok (some (cmd.action.plugin, cmd.phase.plugin, Dll.intOfInteger cmd.value)) := by
  have type : Dll.valueString cmd.modelDump "type" "" = .ok Dll.kTypeCommand := rfl
  have action : Dll.valueString cmd.modelDump "action" "" = .ok cmd.action.value := rfl
  have phase : Dll.valueString cmd.modelDump "phase" "" = .ok cmd.phase.value := rfl
  have value : Dll.valueInt cmd.modelDump "value" 0 = .ok (Dll.intOfInteger cmd.value) := rfl
  simp only [Dll.readCommand, type, action, phase, value, Bind.bind, Except.bind, ne_eq,
    not_true_eq_false, if_false, parseAction_value, parsePhase_value, Pure.pure, Except.pure]

def deliver (control : Dll.ControlState) (cmd : CommandMessage) : Dll.ControlState :=
  match Dll.readCommand cmd.modelDump with
  | .ok (some (action, phase, value)) => control.apply action phase value
  | _ => control

theorem deliver_eq (control : Dll.ControlState) (cmd : CommandMessage) :
    deliver control cmd =
      control.apply cmd.action.plugin cmd.phase.plugin (Dll.intOfInteger cmd.value) := by
  rw [deliver, readCommand_modelDump]

inductive InputMove where
  | read
  | clear

/-- The input state of the plugin, fed by every command the transport accepts. -/
def plugin : Observer Task Answer Shared Dll.ControlState InputMove where
  sees control x :=
    match accepted x.step with
    | some cmd => deliver control cmd
    | none => control
  moves control
    | .read => control.consume
    | .clear => {}

abbrev Joint := Watched Task Effect Answer Shared Flow Dll.ControlState

def joint (s : Shared) (events : List ((Task × Choice) ⊕ InputMove)) : Joint :=
  system.watchRun plugin ⟨system.initial s, {}⟩ events

theorem joint_state (s : Shared) (events : List ((Task × Choice) ⊕ InputMove)) :
    (joint s events).state = run s (events.filterMap Sum.getLeft?) :=
  system.watchRun_state plugin _ events

def inOneGo (n : Nat) : Log → Bool
  | [] => false
  | x :: log => x.thread = .session n &&
      match x.effect with
      | .receiveJson => true
      | _ => inOneGo n log

theorem inOneGo_own {n : Nat} {x : Entry Task Answer Shared} {log : Log}
    (whole : inOneGo n (x :: log) = true) : x.thread = .session n := by
  rw [inOneGo, Bool.and_eq_true, decide_eq_true_eq] at whole
  exact whole.1

theorem inOneGo_rest {n : Nat} {x : Entry Task Answer Shared} {log : Log}
    (whole : inOneGo n (x :: log) = true) (later : x.effect ≠ .receiveJson) : inOneGo n log = true := by
  rw [inOneGo, Bool.and_eq_true] at whole
  have rest := whole.2
  split at rest
  · rename_i received
    exact absurd received later
  · exact rest

theorem newest_step {i : Task} {x : Entry Task Answer Shared} {log : Log} {s : Step Answer}
    {h : History Answer} (own : x.thread = i) (history : historyOf i (x :: log) = s :: h) :
    x.step = s ∧ historyOf i log = h := by
  rw [historyOf_cons, if_pos own] at history
  exact List.cons.inj history

theorem gated_stands {s : Shared} {events : List (Task × Choice)} {n : Nat} {cmd : CommandMessage}
    (gated : Gated (historyOf (.session n) (run s events).log) cmd)
    (whole : inOneGo n (run s events).log = true) :
    ∃ v team seen, sessionUser (historyOf (.session n) (run s events).log) = some v ∧
      (run s events).shared.latest = some seen ∧ seen.snapshot.turnTeam = some team ∧
      (run s events).shared.store.emailForTeam team = some v.email := by
  obtain ⟨v, team, seen, fields, rest, history, user, turn, _⟩ := gated
  have leads := system.run_leads s events
  have answered : ∀ x ∈ (run s events).log, system.Answered x :=
    fun x member => contract.run_mem s events member
  change Leads s (run s events).log (run s events).shared at leads
  rw [history]
  generalize (run s events).log = log at history leads whole answered
  generalize (run s events).shared = shared at leads
  cases log with
  | nil => cases history
  | cons owner log =>
    obtain ⟨owned, history⟩ := newest_step (inOneGo_own whole) history
    have later : owner.effect ≠ .receiveJson := by
      rw [show owner.effect = .emailForTeam team seen from congrArg Sigma.fst owned]
      simp
    replace whole := inOneGo_rest whole later
    cases log with
    | nil => cases history
    | cons look log =>
      obtain ⟨looked, _⟩ := newest_step (inOneGo_own whole) history
      obtain ⟨mapped, kept⟩ := answered_replies (answered owner (by simp)) owned
      obtain ⟨latest, still⟩ := answered_replies (answered look (by simp)) looked
      obtain ⟨last, middle, _⟩ := leads
      have same : shared = look.before := by rw [← last, kept, ← middle, still]
      have same' : owner.before = shared := by rw [← last, kept]
      exact ⟨v, team, seen, user, by rw [same, ← latest], turn, by rw [← same', ← mapped]⟩

def OthersTurn (state : Running) (n : Nat) : Prop :=
  ∃ seen team owner, state.shared.latest = some seen ∧ seen.snapshot.turnTeam = some team ∧
    state.shared.store.emailForTeam team = some owner ∧
    ∀ v, sessionUser (historyOf (.session n) state.log) = some v → v.email ≠ owner

def inputAfter (s : Shared) (events : List ((Task × Choice) ⊕ InputMove)) (n : Nat) (c : Choice) :
    Dll.ControlState :=
  (joint s (events ++ [.inl (.session n, c)])).seen

theorem inputAfter_eq (s : Shared) (events : List ((Task × Choice) ⊕ InputMove)) (n : Nat) (c : Choice) :
    inputAfter s events n c =
      ((system.entry? (joint s events).state (.session n, c)).map
        (plugin.sees (joint s events).seen)).getD (joint s events).seen := by
  simp [inputAfter, joint, System.watchRun, System.watch]

def sendsNext (state : Running) (n : Nat) (c : Choice) : Option CommandMessage :=
  (system.entry? state (.session n, c)).bind fun x => accepted x.step

/-- The session that has sent the newest press of `a`. -/
def lastPresser (a : ControlAction) : Log → Option Nat
  | [] => none
  | x :: log =>
    match x.thread, accepted x.step with
    | .session n, some cmd =>
      if cmd.action = a ∧ cmd.phase = .press then some n else lastPresser a log
    | _, _ => lastPresser a log

/-- `_release_held` releases what another session has pressed since. -/
def ReleasesLate (n : Nat) (log : Log) (cmd : CommandMessage) : Prop :=
  ¬ Gated (historyOf (.session n) log) cmd ∧ lastPresser cmd.action log ≠ some n

/-- While the team on turn is another user's, a session leaves the input alone, but for two things: it
    releases what it has pressed itself and nobody else since, and a command that was checked before
    another thread came in between still goes out. -/
theorem input_kept_from_others (s : Shared) (events : List ((Task × Choice) ⊕ InputMove)) (n : Nat)
    (c : Choice) (others : OthersTurn (joint s events).state n)
    (inTime : ∀ cmd ∈ sendsNext (joint s events).state n c,
      ¬ ReleasesLate n (joint s events).state.log cmd) :
    inputAfter s events n c = (joint s events).seen ∨
    ∃ cmd, sendsNext (joint s events).state n c = some cmd ∧
      (AutoRelease (historyOf (.session n) (joint s events).state.log) cmd ∧
          lastPresser cmd.action (joint s events).state.log = some n ∧
          Dll.ControlState.Released cmd.action.plugin (joint s events).seen (inputAfter s events n c) ∨
        GatedAt n (joint s events).state.log cmd ∧ inOneGo n (joint s events).state.log = false) := by
  obtain ⟨seen, team, owner, latest, turn, mapped, other⟩ := others
  rw [sendsNext] at inTime ⊢
  rw [inputAfter_eq]
  cases entry : system.entry? (joint s events).state (.session n, c) with
  | none => exact .inl rfl
  | some x =>
    rw [entry] at inTime
    have log := system.step_log (joint s events).state (.session n, c)
    rw [entry, joint_state, run, system.step_run] at log
    have permitted := (contract.run_entry s _ (show _ = [] ++ x :: _ from log)).2
    have own := (system.entry?_thread entry).1
    rcases x with ⟨thread, effect, reply, before, after⟩
    cases own
    rw [joint_state] at latest mapped other inTime ⊢
    cases effect with
    | sendCommand cmd =>
      cases reply with
      | false => exact .inl rfl
      | true =>
        -- no command but this one changes the input, and every command is gated or an own release
        refine .inr ⟨cmd, rfl, ?_⟩
        by_cases gated : Gated (historyOf (.session n) (run s (events.filterMap Sum.getLeft?)).log) cmd
        · refine .inr ⟨gatedAt_of_gated (List.nil_append _).symm gated, ?_⟩
          by_contra whole
          obtain ⟨v, team', seen', user, latest', turn', mapped'⟩ :=
            gated_stands gated (Bool.not_eq_false _ ▸ whole)
          cases latest.symm.trans latest'
          cases turn.symm.trans turn'
          exact other v user (Option.some.inj (mapped'.symm.trans mapped))
        · have released : AutoRelease _ cmd := permitted.resolve_left gated
          have own : lastPresser cmd.action (run s (events.filterMap Sum.getLeft?)).log = some n := by
            by_contra other
            exact inTime cmd rfl ⟨gated, other⟩
          refine .inl ⟨released, own, ?_⟩
          change Dll.ControlState.Released _ _ (deliver (joint s events).seen cmd)
          rw [deliver_eq, released.1]
          exact Dll.ControlState.released_apply _ _ _
    | _ => exact .inl rfl

/-- bob claims team 1, alice claims team 0 and makes its worm walk, and the turn passes to team 1 before
    alice speaks again. -/
def turnLost : List ((Task × Choice) ⊕ InputMove) :=
  (connects ++ arrives 0 (gameOn 1 (some 1)) ++ requests 1 bob ++ arrives 0 (gameOn 1 (some 0)) ++
    requests 0 alice ++ pressing .moveLeft ++ [(.session 0, .go)] ++ arrives 0 (gameOn 1 (some 1)) ++
    [(.session 0, .incoming (buttonFrame .moveRight .press)), (.session 0, .go), (.session 0, .go),
     (.session 0, .order [.moveLeft])] : List (Task × Choice)).map .inl

theorem others_turnLost : OthersTurn (joint {} turnLost).state 0 :=
  ⟨⟨0, gameOn 1 (some 1)⟩, 1, bob.email, by decide +kernel, rfl, by decide +kernel, by
    have user : sessionUser (historyOf (.session 0) (joint {} turnLost).state.log) = some alice := by
      decide +kernel
    intro v same
    cases user.symm.trans same
    decide⟩

theorem sendsNext_turnLost :
    sendsNext (joint {} turnLost).state 0 .go = some (releaseMessage 0 .moveLeft) := by
  decide +kernel

theorem input_kept_from_others_turnLost :
    inputAfter {} turnLost 0 .go = (joint {} turnLost).seen ∨
    ∃ cmd, sendsNext (joint {} turnLost).state 0 .go = some cmd ∧
      (AutoRelease (historyOf (.session 0) (joint {} turnLost).state.log) cmd ∧
          lastPresser cmd.action (joint {} turnLost).state.log = some 0 ∧
          Dll.ControlState.Released cmd.action.plugin (joint {} turnLost).seen
            (inputAfter {} turnLost 0 .go) ∨
        GatedAt 0 (joint {} turnLost).state.log cmd ∧ inOneGo 0 (joint {} turnLost).state.log = false) := by
  refine input_kept_from_others {} turnLost 0 .go others_turnLost fun cmd sends late => ?_
  cases sendsNext_turnLost.symm.trans sends
  exact late.2 (by decide +kernel)

/-- alice presses a button, and the turn passes to team 1 right after her message has been checked. -/
def turnOvertakes : List ((Task × Choice) ⊕ InputMove) :=
  (connects ++ arrives 0 (gameOn 1 (some 1)) ++ requests 1 bob ++ arrives 0 (gameOn 1 (some 0)) ++
    requests 0 alice ++ (pressing .moveLeft).take 4 ++ arrives 0 (gameOn 1 (some 1)) :
      List (Task × Choice)).map .inl

theorem others_turnOvertakes : OthersTurn (joint {} turnOvertakes).state 0 :=
  ⟨⟨0, gameOn 1 (some 1)⟩, 1, bob.email, by decide +kernel, rfl, by decide +kernel, by
    have user : sessionUser (historyOf (.session 0) (joint {} turnOvertakes).state.log) =
        some alice := by
      decide +kernel
    intro v same
    cases user.symm.trans same
    decide⟩

/-- The release of what alice held comes through in bob's turn, in one go with her message; and so does
    her press when the turn overtakes it. -/
theorem input_changed_by_others :
    (¬ ∀ (s : Shared) (events : List ((Task × Choice) ⊕ InputMove)) (n : Nat) (c : Choice),
      OthersTurn (joint s events).state n → inOneGo n (joint s events).state.log = true →
      inputAfter s events n c = (joint s events).seen) ∧
    ¬ ∀ (s : Shared) (events : List ((Task × Choice) ⊕ InputMove)) (n : Nat) (c : Choice),
      OthersTurn (joint s events).state n →
      (∀ a, lastPhase a (historyOf (.session n) (joint s events).state.log) ≠ some .press) →
      inputAfter s events n c = (joint s events).seen := by
  constructor
  · intro always
    have kept := always {} turnLost 0 .go others_turnLost (by decide +kernel)
    exact absurd kept (by decide +kernel)
  · intro always
    have kept := always {} turnOvertakes 0 .go others_turnOvertakes fun a => by
      cases a <;> decide +kernel
    exact absurd kept (by decide +kernel)

end WebControl.Backend
