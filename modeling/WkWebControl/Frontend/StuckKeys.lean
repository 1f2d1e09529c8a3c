import WkWebControl.Backend.Interference
import WkWebControl.Frontend.Holding

open Effects WebControl

namespace WebControl.Dll.ControlState

theorem flag_apply {state : ControlState} {a b : ControlAction} {phase : ControlPhase} {value : Int}
    (on : (state.apply b phase value).flag a = true) :
    b = a ∧ phase = .press ∨ b ≠ a ∧ state.flag a = true := by
  cases phase with
  | release =>
    have released := released_apply state b value
    by_cases same : b = a
    · subst same
      rw [released.off] at on
      cases on
    · rw [released.others a (Ne.symm same)] at on
      exact .inr ⟨same, on⟩
  | press =>
    by_cases same : b = a
    · exact .inl ⟨same, rfl⟩
    · refine .inr ⟨same, ?_⟩
      cases a <;> cases b <;> first | exact absurd rfl same | exact on

theorem flag_consume (state : ControlState) (a : ControlAction) : state.consume.flag a = state.flag a := by
  cases a <;> rfl

theorem flag_neutral (a : ControlAction) : flag {} a = false := by
  cases a <;> rfl

end WebControl.Dll.ControlState

namespace WebControl.Backend

theorem plugin_inj {a b : ControlAction} (same : a.plugin = b.plugin) : a = b := by
  cases a <;> cases b <;> first | rfl | cases same

/-- Some session has pressed what is on, and has not released it since. -/
def PressedBySome (control : Dll.ControlState) (log : Log) : Prop :=
  ∀ a : ControlAction, control.flag a.plugin = true →
    ∃ n, lastPhase a (historyOf (.session n) log) = some .press

theorem PressedBySome.skip {control : Dll.ControlState} {log : Log}
    {x : Entry Task Answer Shared} (pressed : PressedBySome control log)
    (quiet : accepted x.step = none) : PressedBySome control (x :: log) := by
  intro a on
  obtain ⟨n, last⟩ := pressed a on
  refine ⟨n, ?_⟩
  rw [historyOf_cons]
  split
  · rw [lastPhase_skip quiet]
    exact last
  · exact last

theorem PressedBySome.sent {control : Dll.ControlState} {log : Log} {x : Entry Task Answer Shared}
    {n : Nat} {cmd : CommandMessage} (pressed : PressedBySome control log)
    (own : x.thread = .session n) (sent : accepted x.step = some cmd) :
    PressedBySome (deliver control cmd) (x :: log) := by
  intro a on
  rw [deliver_eq] at on
  rcases Dll.ControlState.flag_apply on with ⟨same, press⟩ | ⟨other, on⟩
  · refine ⟨n, ?_⟩
    rw [historyOf_cons, if_pos own, lastPhase_accepted sent, if_pos (plugin_inj same)]
    cases phase : cmd.phase with
    | press => rfl
    | release => rw [phase] at press; cases press
  · obtain ⟨m, last⟩ := pressed a on
    refine ⟨m, ?_⟩
    rw [historyOf_cons]
    split
    · rw [lastPhase_accepted sent, if_neg fun same => other (congrArg _ same)]
      exact last
    · exact last

theorem pressedBySome (s : Shared) (events : List ((Task × Choice) ⊕ InputMove)) :
    PressedBySome (joint s events).seen (joint s events).state.log := by
  refine contract.watch_log plugin s {} ?_ ?_ ?_ events
  · intro a on
    rw [Dll.ControlState.flag_neutral] at on
    cases on
  · intro control x log pressed permitted
    cases sent : accepted x.step with
    | none =>
      rw [show plugin.sees control x = control by simp only [plugin, sent]]
      exact pressed.skip sent
    | some cmd =>
      rw [show plugin.sees control x = deliver control cmd by simp only [plugin, sent]]
      rcases x with ⟨thread, effect, reply, before, after⟩
      cases step_of_accepted sent
      cases thread with
      | session n => exact pressed.sent rfl sent
      | _ => exact permitted.elim
  · intro control move log pressed a on
    cases move with
    | read => exact pressed a (Dll.ControlState.flag_consume control _ ▸ on)
    | clear =>
      rw [show plugin.moves control .clear = {} from rfl, Dll.ControlState.flag_neutral] at on
      cases on

theorem oneShot_of_flag {control : Dll.ControlState} {a : ControlAction}
    (on : control.flag a.plugin = true) : a.oneShot = false := by
  cases a <;> first | rfl | cases on

/-- Whatever any number of sessions send while the plugin reads and clears its input at any time: an
    input that is held in the game was pressed last by some session, and unless a release of that
    session was lost, it has the action in its `held` and has not closed in order. -/
theorem held_input_accounted (s : Shared) (events : List ((Task × Choice) ⊕ InputMove))
    (a : ControlAction) (on : (joint s events).seen.flag a.plugin = true) :
    ∃ n, lastPhase a (historyOf (.session n) (joint s events).state.log) = some .press ∧
      (ReleasesSent (historyOf (.session n) (joint s events).state.log) →
        a ∈ (localsOf (historyOf (.session n) (joint s events).state.log)).held.actions ∧
        StillHeld a ((joint s events).state.residual (.session n)) ∧
        ((joint s events).state.residual (.session n)).result? ≠ some .returned) := by
  obtain ⟨n, last⟩ := pressedBySome s events a on
  refine ⟨n, last, fun sent => ?_⟩
  rw [joint_state] at last sent ⊢
  have member := (remembered sent a (oneShot_of_flag on) last).1
  refine ⟨member, stillHeld sent (oneShot_of_flag on) last, fun ended => ?_⟩
  have nothing : heldPost .returned (historyOf (.session n) (run s (events.filterMap Sum.getLeft?)).log) :=
    System.run_ended (S := system) openControl_tracked session_again_tracked s _ ended
  rw [heldPost] at nothing
  rw [nothing] at member
  exact absurd member List.not_mem_nil

theorem held_input_accounted_pressing :
    ∃ n, lastPhase .moveLeft (historyOf (.session n)
        (joint {} ((opening ++ pressing .moveLeft).map .inl)).state.log) = some .press ∧
      (ReleasesSent (historyOf (.session n)
          (joint {} ((opening ++ pressing .moveLeft).map .inl)).state.log) →
        .moveLeft ∈ (localsOf (historyOf (.session n)
          (joint {} ((opening ++ pressing .moveLeft).map .inl)).state.log)).held.actions ∧
        StillHeld .moveLeft ((joint {} ((opening ++ pressing .moveLeft).map .inl)).state.residual (.session n)) ∧
        ((joint {} ((opening ++ pressing .moveLeft).map .inl)).state.residual
          (.session n)).result? ≠ some .returned) :=
  held_input_accounted {} ((opening ++ pressing .moveLeft).map .inl) .moveLeft (by decide +kernel)

end WebControl.Backend

open WebControl.Backend

namespace WebControl.Frontend

theorem historyOf_silent {i : Task} {log : Log} (silent : ∀ x ∈ log, x.thread ≠ i) :
    historyOf i log = [] := by
  induction log with
  | nil => rfl
  | cons x log ih =>
    rw [historyOf_cons_other (silent x List.mem_cons_self)]
    exact ih fun y member => silent y (List.mem_cons_of_mem _ member)

/-- Session `n` has come through with what its page has sent: it has answered the newest message, or
    it has ended after the page closed its socket. -/
structure Settled (state : Running) (n : Nat) (page : Page) : Prop where
  online : Online (historyOf (.session n) state.log)
  settled :
    received (historyOf (.session n) state.log) = page.sent.map ControlMessage.frame ∧
        unanswered (historyOf (.session n) state.log) = none ∨
      received (historyOf (.session n) state.log) =
          page.sent.map ControlMessage.frame ++ [.disconnect] ∧
        ∃ flow, (state.residual (.session n)).result? = some flow

/-- From the pages to the game: once every session has come through with the messages of its page, what
    is held in the game is held on a page whose socket is still open. -/
theorem held_input_onPage (pages : Nat → List PageEvent) (s : Shared)
    (events : List ((Task × Choice) ⊕ InputMove))
    (settled : ∀ n, Settled (joint s events).state n (Page.run (pages n))) (a : Backend.ControlAction)
    (on : (joint s events).seen.flag a.plugin = true) :
    ∃ n, a ∈ (Page.run (pages n)).heldRef ∧
      Incoming.disconnect ∉ received (historyOf (.session n) (joint s events).state.log) := by
  obtain ⟨n, last⟩ := pressedBySome s events a on
  have held := oneShot_of_flag on
  obtain ⟨online, open' | ⟨closed, flow, ended⟩⟩ := settled n
  · refine ⟨n, ?_, ?_⟩
    · rw [joint_state] at online last open'
      have fits := fun (b : Backend.ControlAction) one => Page.fits_run (b := b) one (pages n)
      apply held_onPage fits open'.2 online open'.1
      exact (remembered (releasesSent_of_online online) a held last).1
    · rw [open'.1]
      intro member
      obtain ⟨message, -, frame⟩ := List.mem_map.mp member
      cases frame
  · rw [joint_state] at online last closed ended
    have done := session_post ended
    rcases session_ended ended with rfl | ⟨l, rfl⟩
    · exact absurd last (done online a held)
    · obtain ⟨frame, newest, raises⟩ := done.2
      rw [newestFrame_of_received closed] at newest
      cases newest
      exact raises.elim

def session? : Task → Option Nat
  | .session n => some n
  | _ => none

theorem threads_walking (x : Entry Task Answer Shared) (member : x ∈ (run {} walking).log) :
    ∀ n, x.thread = .session n → n = 0 := by
  have threads : ∀ thread ∈ (run {} walking).log.map Entry.thread, ∀ n ∈ session? thread, n = 0 := by
    decide +kernel
  intro n own
  apply threads x.thread (List.mem_map_of_mem member)
  rw [own]
  rfl

def walkingPages : Nat → List PageEvent
  | 0 => [.pointerDown ⟨.moveLeft, by decide⟩]
  | _ => []

theorem settled_walking (n : Nat) :
    Settled (joint {} (walking.map .inl)).state n (Page.run (walkingPages n)) := by
  have same : (joint {} (walking.map .inl)).state = run {} walking := by
    rw [joint_state, List.filterMap_map]
    exact congrArg (run {}) List.filterMap_some
  rw [same]
  cases n with
  | zero => exact ⟨by decide +kernel, .inl ⟨received_walking, by decide +kernel⟩⟩
  | succ n =>
    have silent : historyOf (.session (n + 1)) (run {} walking).log = [] :=
      historyOf_silent fun x member own => Nat.succ_ne_zero n (threads_walking x member _ own)
    refine ⟨?_, .inl ?_⟩
    · rw [silent]
      exact fun s member => absurd member List.not_mem_nil
    · rw [silent]
      exact ⟨rfl, rfl⟩

theorem held_input_onPage_walking :
    ∃ n, .moveLeft ∈ (Page.run (walkingPages n)).heldRef ∧
      .disconnect ∉ received (historyOf (.session n) (joint {} (walking.map .inl)).state.log) :=
  held_input_onPage walkingPages {} (walking.map .inl) settled_walking .moveLeft (by decide +kernel)

end WebControl.Frontend
