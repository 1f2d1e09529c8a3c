import WkWebControl.Link.FireEdges
import WkWebControl.Link.Input

open Effects WebControl
open WebControl.Dll (ControlCall ControlState)

namespace WebControl.Link

def controlCalls (log : Log) : List ControlCall := log.filterMap fun x => controlCall? x.effect

theorem controlCalls_skip {x : Entry Task Answer Shared} (other : controlCall? x.effect = none) (log : Log) :
    controlCalls (x :: log) = controlCalls log := by
  rw [controlCalls, List.filterMap_cons, other]
  rfl

theorem controlCalls_cons {x : Entry Task Answer Shared} {c : ControlCall} (call : controlCall? x.effect = some c)
    (log : Log) : controlCalls (x :: log) = c :: controlCalls log := by
  rw [controlCalls, List.filterMap_cons, call]
  rfl

/-- The state of the input, and what the game thread has read of it, are those after the calls. -/
structure Follows (s : Shared) (log : Log) : Prop where
  control : s.control = ControlState.of (controlCalls log)
  level : wasFiring (historyOf .game log) = ControlCall.sampled (controlCalls log)
  edges : levelEdges (historyOf .game log) = ControlCall.sampledEdges (controlCalls log)

theorem Follows.skip {x : Entry Task Answer Shared} {log : Log} (follows : Follows x.before log)
    (other : controlCall? x.effect = none) (kept : x.after.control = x.before.control)
    (level : wasFiring (historyOf .game (x :: log)) = wasFiring (historyOf .game log))
    (edges : levelEdges (historyOf .game (x :: log)) = levelEdges (historyOf .game log)) :
    Follows x.after (x :: log) where
  control := by rw [kept, controlCalls_skip other, follows.control]
  level := by rw [level, controlCalls_skip other, follows.level]
  edges := by rw [edges, controlCalls_skip other, follows.edges]

section Run

variable {codec : Codec} {events : List (Task × Choice)}

theorem run_follows : Follows (run codec events).shared (run codec events).log := by
  refine (inputContract codec).run_log {} (P := Follows) ⟨rfl, rfl, rfl⟩ ?_ events
  intro x log follows answered permitted
  have replies := answered_replies answered rfl
  have control := replies.control
  rcases x with ⟨thread, e, r, s, after⟩
  cases thread with
  | game =>
    cases e with
    | readControl =>
      have read : r = s.control := replies.1
      have calls : controlCalls (⟨.game, .readControl, r, s, after⟩ :: log) = .read :: controlCalls log := rfl
      have level : ControlState.firing r = (ControlState.of (controlCalls log)).firing := by
        rw [read, follows.control]
      refine ⟨?_, level, ?_⟩
      · rw [calls, ControlState.of_cons, ← follows.control]
        exact control
      · change (if ControlState.firing r = wasFiring (historyOf .game log) then _ else _) = _
        rw [level, follows.level, follows.edges]
        rfl
    | clearControl => exact ⟨control, rfl, rfl⟩
    | applyControl => exact permitted.elim
    | _ => exact follows.skip rfl control rfl rfl
  | ipc =>
    cases e with
    | applyControl action phase value =>
      refine ⟨?_, follows.level, follows.edges⟩
      rw [controlCalls_cons rfl, ControlState.of_cons, ← follows.control]
      exact control
    | readControl | clearControl => exact permitted.elim
    | _ => exact follows.skip rfl control rfl rfl
  | reader =>
    cases e with
    | connect | receive | setSock | setLatest => exact follows.skip rfl control rfl rfl
    | _ => exact permitted.elim

end Run

/-- Between two calls, when the level of fire has been read since it changed last: the shots of the game are
    a `FireWeapon` and then a `ReleaseWeapon` for each press and its release, with a `FireWeapon` for a press
    that is still held, exactly if there was a frame between any two edges. -/
theorem fire_pairs (codec : Codec) (events : List (Task × Choice))
    (present : TurnGamePresent (historyOf .game (run codec events).log))
    (back : returned ((run codec events).residual .game) = true)
    (settled : wasFiring (historyOf .game (run codec events).log) = (run codec events).shared.control.firing) :
    shots (historyOf .game (run codec events).log) =
        volley (2 * ControlCall.pairs (controlCalls (run codec events).log) +
          (run codec events).shared.control.firing.toNat) ↔
      ControlCall.EachRead (controlCalls (run codec events).log) := by
  have follows : Follows (run codec events).shared (run codec events).log := run_follows
  obtain ⟨g, head, was, fired⟩ := run_settled back
  rw [follows.level, follows.control] at settled
  rw [fired present, follows.edges, follows.control, ← ControlCall.sampledEdges_eq_iff settled]
  constructor
  · exact volley_injective
  · exact congrArg volley

def shoots : List (Task × Choice) :=
  charges ++ receives releaseFire ++ frames ++ dispatches

/-- Fire is pressed and released between two frames. -/
def taps : List (Task × Choice) :=
  initialises ++ constructs ++ startsTurn 0 ++ joins ++ receives pressFire ++ receives releaseFire ++ frames

def fireCodec : Codec := commandCodec [pressFire, releaseFire]

theorem fire_pairs_shoots :
    ControlCall.pairs (controlCalls (run fireCodec shoots).log) = 1 ∧
      shots (historyOf .game (run fireCodec shoots).log) = [.releaseWeapon, .fireWeapon] := by
  have one : ControlCall.pairs (controlCalls (run fireCodec shoots).log) = 1 := by decide +kernel
  have released : (run fireCodec shoots).shared.control.firing = false := by decide +kernel
  have all := (fire_pairs fireCodec shoots (by decide +kernel) (by decide +kernel) (by decide +kernel)).mpr
    (by decide +kernel)
  rw [one, released] at all
  exact ⟨one, all⟩

/-- The frame after a tap reads the level that was there before it, and nothing is dispatched. -/
theorem fire_lost :
    ¬ ∀ (codec : Codec) (events : List (Task × Choice)),
      TurnGamePresent (historyOf .game (run codec events).log) →
      returned ((run codec events).residual .game) = true →
      wasFiring (historyOf .game (run codec events).log) = (run codec events).shared.control.firing →
      shots (historyOf .game (run codec events).log) =
        volley (2 * ControlCall.pairs (controlCalls (run codec events).log) +
          (run codec events).shared.control.firing.toNat) := by
  intro always
  have one : ControlCall.pairs (controlCalls (run fireCodec taps).log) = 1 := by decide +kernel
  have released : (run fireCodec taps).shared.control.firing = false := by decide +kernel
  have nothing : shots (historyOf .game (run fireCodec taps).log) = [] := by decide +kernel
  have all := always fireCodec taps (by decide +kernel) (by decide +kernel) (by decide +kernel)
  rw [one, released, nothing] at all
  cases all

end WebControl.Link
