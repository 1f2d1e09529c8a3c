import WkWebControl.Backend.Contract

open Effects WebControl

namespace WebControl.Backend

def Held.track (l : Held) (team : Option Int) (cmd : CommandMessage) : Held :=
  if cmd.action.oneShot then l
  else match cmd.phase with
    | .press => l.add team cmd.action
    | .release => l.discard team cmd.action

namespace Held

theorem mem_track_other {l : Held} {team : Option Int} {cmd : CommandMessage}
    {a : ControlAction} (other : cmd.action ≠ a) :
    a ∈ (l.track team cmd).actions ↔ a ∈ l.actions := by
  unfold Held.track
  split
  · rfl
  · cases cmd.phase with
    | press =>
      rw [mem_add]
      exact or_iff_right (Ne.symm other)
    | release =>
      rw [mem_discard]
      exact and_iff_left (Ne.symm other)

theorem mem_track_press {l : Held} {team : Option Int} {cmd : CommandMessage}
    (press : cmd.phase = .press) (held : cmd.action.oneShot = false) :
    cmd.action ∈ (l.track team cmd).actions := by
  simp only [Held.track, held, press]
  exact mem_add.mpr (.inl rfl)

theorem mem_of_track {l : Held} {team : Option Int} {cmd : CommandMessage} {a : ControlAction}
    (member : a ∈ (l.track team cmd).actions) :
    a ∈ l.actions ∧ (a = cmd.action → cmd.action.oneShot = true) ∨
      cmd.phase = .press ∧ a = cmd.action ∧ cmd.action.oneShot = false := by
  unfold Held.track at member
  split at member
  · rename_i oneShot
    exact .inl ⟨member, fun _ => oneShot⟩
  · rename_i held
    rw [Bool.not_eq_true] at held
    cases phase : cmd.phase with
    | press =>
      rw [phase] at member
      rcases mem_add.mp member with same | old
      · exact .inr ⟨rfl, same, held⟩
      · by_cases same : a = cmd.action
        · exact .inr ⟨rfl, same, held⟩
        · exact .inl ⟨old, fun eq => absurd eq same⟩
    | release =>
      rw [phase] at member
      obtain ⟨old, other⟩ := mem_discard.mp member
      exact .inl ⟨old, fun eq => absurd eq other⟩

end Held

/-- The variables of `control` as the steps of its session tell them: `turn_team`, and the
    actions the loop of `_release_held` has still to come to. -/
structure Locals where
  held : Held := {}
  turnTeam : Option Int := none
  releasing : List ControlAction := []

namespace Locals

/-- With nothing to come to any more the loop is over, and `held` is cleared. -/
def visit (v : Locals) (order : List ControlAction) : Locals :=
  { v with
    releasing := order
    held := if order = [] then { v.held with actions := [] } else v.held }

theorem mem_of_visit {v : Locals} {order : List ControlAction} {a : ControlAction}
    (member : a ∈ (v.visit order).held.actions) : a ∈ v.held.actions := by
  unfold visit at member
  split at member
  · exact absurd member List.not_mem_nil
  · exact member

def step (v : Locals) : Step Answer → Locals
  | ⟨.emailForTeam team _, _⟩ => { v with turnTeam := some team }
  | ⟨.iterate _, order⟩ => v.visit order.val
  | ⟨.sendCommand cmd, written⟩ =>
    match v.releasing with
    | [] => if written then { v with held := v.held.track v.turnTeam cmd } else v
    | _ :: rest => v.visit rest
  | _ => v

end Locals

def localsOf (h : History Answer) : Locals := h.foldr (fun s v => v.step s) {}

theorem locals_cons (s : Step Answer) (h : History Answer) :
    localsOf (s :: h) = (localsOf h).step s := rfl

theorem locals_forward {h : History Answer} (idle : (localsOf h).releasing = [])
    (cmd : CommandMessage) :
    localsOf (⟨.sendCommand cmd, true⟩ :: h) =
      { localsOf h with held := (localsOf h).held.track (localsOf h).turnTeam cmd } := by
  rw [locals_cons, Locals.step]
  simp [idle]

theorem locals_refused {h : History Answer} (idle : (localsOf h).releasing = [])
    (cmd : CommandMessage) : localsOf (⟨.sendCommand cmd, false⟩ :: h) = localsOf h := by
  rw [locals_cons, Locals.step]
  simp [idle]

theorem locals_visit {h : History Answer} {a : ControlAction} {rest : List ControlAction}
    (looping : (localsOf h).releasing = a :: rest) (cmd : CommandMessage) (written : Bool) :
    localsOf (⟨.sendCommand cmd, written⟩ :: h) = (localsOf h).visit rest := by
  rw [locals_cons, Locals.step]
  simp [looping]

def commandOf : Incoming → Option (ControlAction × ControlPhase)
  | .json (.obj fields) => do
    let action ← ControlAction.ofValue? (actionRaw fields)
    let phase ← ControlPhase.ofValue? (phaseRaw fields)
    return (action, phase)
  | _ => none

def unanswered : History Answer → Option Incoming
  | [] => none
  | ⟨.receiveJson, frame⟩ :: _ => some frame
  | ⟨.sendJson _, _⟩ :: _ => none
  | _ :: h => unanswered h

theorem Gated.turnTeam {h : History Answer} {cmd : CommandMessage} (gated : Gated h cmd) :
    ∃ team, (localsOf h).turnTeam = some team ∧ cmd.team = toString team := by
  obtain ⟨u, team, seen, fields, rest, rfl, _, _, same, _⟩ := gated
  exact ⟨team, rfl, same⟩

theorem Gated.asked {h : History Answer} {cmd : CommandMessage} (gated : Gated h cmd) :
    ∃ frame, unanswered h = some frame ∧ commandOf frame = some (cmd.action, cmd.phase) := by
  obtain ⟨u, team, seen, fields, rest, rfl, _, _, _, action, phase, _⟩ := gated
  exact ⟨_, rfl, by simp [commandOf, action, phase]⟩

def Answers (h : History Answer) (frame : Incoming) : Reply → Prop
  | .ok action phase => commandOf frame = some (action, phase) ∧
      ∃ cmd older, h = ⟨.sendCommand cmd, true⟩ :: older ∧ (localsOf older).releasing = [] ∧
        cmd.action = action ∧ cmd.phase = phase
  | .unknownAction _ | .unknownPhase _ => commandOf frame = none
  | .notYourTurn _ => (localsOf h).held.actions = []
  | .gameOffline => ∃ s older, h = s :: older ∧ offline s = true

def heldPermits (h : History Answer) : Effect → Prop
  | .receiveJson => unanswered h = none
  | .iterate held => (localsOf h).releasing = [] ∧ held = (localsOf h).held.actions
  | .sendCommand cmd =>
    match (localsOf h).releasing with
    | [] => Gated h cmd
    | a :: _ => ∃ team, (localsOf h).held.team = some team ∧ cmd = releaseMessage team a
  | .sendJson reply => (localsOf h).releasing = [] ∧
      ∃ frame, unanswered h = some frame ∧ Answers h frame reply
  | _ => True

theorem heldPermits_forward {h : History Answer} {cmd : CommandMessage}
    (idle : (localsOf h).releasing = []) : heldPermits h (.sendCommand cmd) ↔ Gated h cmd := by
  simp only [heldPermits, idle]

theorem heldPermits_visit {h : History Answer} {cmd : CommandMessage} {a : ControlAction}
    {rest : List ControlAction} (looping : (localsOf h).releasing = a :: rest) :
    heldPermits h (.sendCommand cmd) ↔
      ∃ team, (localsOf h).held.team = some team ∧ cmd = releaseMessage team a := by
  simp only [heldPermits, looping]

/-- What `control` and its history agree on while `_release_held` is not at work. -/
structure Idle (u : User) (l : Held) (h : History Answer) : Prop where
  held : l = (localsOf h).held
  idle : (localsOf h).releasing = []
  team : l.team = none → l.actions = []
  user : sessionUser h = some u

def heldPost : Flow → History Answer → Prop
  | .control u l, h => Idle u l h ∧ unanswered h = none
  | .returned, h => (localsOf h).held.actions = []
  | .raised l, h => l = (localsOf h).held
  | _, _ => False

section Specs

open Program

theorem Idle.skip {u : User} {l : Held} {h : History Answer} (idle : Idle u l h) {s : Step Answer}
    (held : (localsOf (s :: h)).held = (localsOf h).held)
    (releasing : (localsOf (s :: h)).releasing = (localsOf h).releasing)
    (user : sessionUser (s :: h) = sessionUser h) : Idle u l (s :: h) where
  held := idle.held.trans held.symm
  idle := releasing.trans idle.idle
  team := idle.team
  user := user.trans idle.user

theorem releaseHeld_tracked {u : User} {l : Held} {h : History Answer} (idle : Idle u l h) :
    Meets heldPermits (fun l' after => Idle u l' after ∧ l'.actions = [] ∧
      unanswered after = unanswered h) (releaseHeld l) h := by
  unfold releaseHeld
  split
  · rename_i noTeam
    exact ⟨idle, idle.team noTeam, rfl⟩
  · rename_i team someTeam
    simp only [meets_bind, call, meets_call, meets_pure]
    refine ⟨⟨idle.idle, by rw [idle.held]⟩, fun order => ?_⟩
    refine (meets_forEach (fun xs after => (localsOf after).releasing = xs ∧
      (localsOf after).held = (if xs = [] then { l with actions := [] } else l) ∧
      unanswered after = unanswered h ∧ sessionUser after = some u) _ ?_ order.val _ ?_).mono ?_
    · rintro a xs after ⟨looping, held, same, user⟩
      simp only [meets_bind, meets_call, meets_pure]
      rw [if_neg (List.cons_ne_nil a xs)] at held
      refine ⟨?_, fun written => ⟨?_, ?_, same, user⟩⟩
      · exact (heldPermits_visit looping).mpr ⟨team, by rw [held]; exact someTeam, rfl⟩
      · rw [locals_visit looping]
        rfl
      · rw [locals_visit looping, Locals.visit, held]
    · refine ⟨rfl, ?_, rfl, idle.user⟩
      rw [locals_cons, Locals.step, Locals.visit, ← idle.held]
    · rintro _ after ⟨looping, held, same, user⟩
      rw [if_pos rfl] at held
      exact ⟨⟨held.symm, looping, fun _ => rfl, user⟩, trivial, same⟩

def Concluded (u : User) : Outcome → History Answer → Prop
  | .goOn l, h => Idle u l h ∧ unanswered h = none
  | .disconnected l, h => Idle u l h
  | .raised l, h => l = (localsOf h).held

theorem answer_tracked {u : User} {l : Held} {h : History Answer} {frame : Incoming} {reply : Reply}
    (idle : Idle u l h) (hand : unanswered h = some frame) (answers : Answers h frame reply) :
    Meets heldPermits (Concluded u) (answer l reply) h := by
  have answered : ∀ there, Idle u l (⟨.sendJson reply, there⟩ :: h) :=
    fun there => idle.skip rfl rfl rfl
  simp only [answer, meets_bind, call, meets_call]
  refine ⟨⟨idle.idle, frame, hand, answers⟩, fun there => ?_⟩
  cases there with
  | false => exact answered false
  | true =>
    cases reply.encodable with
    | true => exact ⟨answered true, rfl⟩
    | false => exact idle.held

theorem notYourTurn_tracked {u : User} {l : Held} {h : History Answer} {frame : Incoming}
    (idle : Idle u l h) (hand : unanswered h = some frame) (turnTeam : Option Int) :
    Meets heldPermits (Concluded u)
      (do
        let l ← releaseHeld l
        answer l (.notYourTurn turnTeam)) h := by
  rw [meets_bind]
  apply (releaseHeld_tracked idle).mono
  rintro l' after ⟨released, nothing, same⟩
  apply answer_tracked released (same.trans hand)
  change (localsOf after).held.actions = []
  rw [← released.held, nothing]

theorem forward_tracked {u : User} {l : Held} {h : History Answer} {cmd : CommandMessage}
    {team : Int} (idle : Idle u l h) (onTurn : (localsOf h).turnTeam = some team) :
    Idle u (l.track (some team) cmd) (⟨.sendCommand cmd, true⟩ :: h) := by
  refine ⟨?_, ?_, ?_, idle.user⟩
  · rw [locals_forward idle.idle, onTurn, idle.held]
  · rw [locals_forward idle.idle]
    exact idle.idle
  · unfold Held.track
    split
    · exact idle.team
    · cases cmd.phase <;> exact fun noTeam => nomatch noTeam

theorem handleMessage_tracked {u : User} {l : Held} {rest : History Answer}
    (fields : List (String × Json)) (between : Idle u l rest) :
    Meets heldPermits (Concluded u) (handleMessage u l fields)
      (⟨.receiveJson, .json (.obj fields)⟩ :: rest) := by
  have received : Idle u l (⟨.receiveJson, .json (.obj fields)⟩ :: rest) :=
    between.skip rfl rfl rfl
  unfold handleMessage
  split
  · rename_i noAction
    apply answer_tracked received rfl
    simp [Answers, commandOf, noAction]
  · rename_i action isAction
    split
    · rename_i noPhase
      apply answer_tracked received rfl
      simp [Answers, commandOf, noPhase]
    · rename_i phase isPhase
      rw [meets_bind, meets_isUsersTurn trivial fun _ _ _ => trivial]
      refine ⟨?_, ?_, ?_⟩
      · exact answer_tracked (received.skip rfl rfl rfl) rfl ⟨_, _, rfl, rfl⟩
      · intro seen noTurn
        have looked : Idle u l (⟨.latestState, some seen⟩ ::
            ⟨.receiveJson, .json (.obj fields)⟩ :: rest) := received.skip rfl rfl rfl
        exact notYourTurn_tracked looked rfl none
      · intro seen team owner turn
        have looked : Idle u l (⟨.emailForTeam team seen, owner⟩ :: ⟨.latestState, some seen⟩ ::
            ⟨.receiveJson, .json (.obj fields)⟩ :: rest) :=
          ⟨between.held, between.idle, between.team, between.user⟩
        by_cases owns : owner = some u.email
        · subst owns
          simp only [beq_self_eq_true]
          split
          · exact looked.held
          · rename_i value isInt
            have gated : Gated (⟨.emailForTeam team seen, some u.email⟩ ::
                ⟨.latestState, some seen⟩ :: ⟨.receiveJson, .json (.obj fields)⟩ :: rest)
                ⟨str (some team), action, phase, value⟩ :=
              ⟨u, team, seen, fields, rest, rfl, between.user, turn, rfl, isAction, isPhase, isInt⟩
            simp only [meets_bind, call, meets_call]
            refine ⟨?_, fun written => ?_⟩
            · exact (heldPermits_forward looked.idle).mpr gated
            · cases written with
              | false =>
                -- `send_command` raises before `held` is touched
                refine answer_tracked ?_ rfl ⟨_, _, rfl, rfl⟩
                have same := locals_refused looked.idle ⟨str (some team), action, phase, value⟩
                exact looked.skip (by rw [same]) (by rw [same]) rfl
              | true =>
                have sent := @forward_tracked u l _ ⟨str (some team), action, phase, value⟩ team
                  looked rfl
                refine answer_tracked ?_ rfl ⟨?_, _, _, rfl, looked.idle, rfl, rfl⟩
                · cases phase <;> exact sent
                · simp [commandOf, isAction, isPhase]
        · have differs : (owner == some u.email) = false := by simpa using owns
          simp only [differs]
          exact notYourTurn_tracked looked rfl (some team)

theorem control_tracked {u : User} {l : Held} {h : History Answer} (idle : Idle u l h)
    (waiting : unanswered h = none) : Meets heldPermits heldPost (control u l) h := by
  unfold control
  simp only [meets_bind, call, meets_call]
  refine ⟨waiting, fun frame => ?_⟩
  refine Meets.mono (show Meets heldPermits (Concluded u) _ _ from ?_) ?_
  · split
    · exact idle.skip rfl rfl rfl
    · exact idle.held
    · exact handleMessage_tracked _ idle
    · exact idle.held
  intro outcome after concluded
  cases outcome with
  | goOn l' => exact concluded
  | raised l' => exact concluded
  | disconnected l' =>
    rw [meets_bind]
    apply (releaseHeld_tracked concluded).mono
    rintro l'' final ⟨released, nothing, -⟩
    change (localsOf final).held.actions = []
    rw [← released.held, nothing]

theorem openControl_tracked : Meets heldPermits heldPost openControl [] := by
  unfold openControl
  simp only [meets_bind, call, meets_call]
  refine ⟨trivial, fun u => ?_⟩
  split
  · rfl
  · exact ⟨⟨rfl, rfl, fun _ => rfl, rfl⟩, rfl⟩

theorem session_again_tracked (flow : Flow) (h : History Answer) (done : heldPost flow h) :
    Meets heldPermits heldPost (again flow) h := by
  cases flow with
  | control u l => exact control_tracked done.1 done.2
  | returned => exact done
  | raised l => exact done
  | _ => exact done.elim

end Specs

theorem session_permitted (s : Shared) (events : List (Task × Choice)) (n : Nat) :
    Program.Permitted heldPermits (historyOf (.session n) (run s events).log) :=
  System.run_permitted (S := system) openControl_tracked session_again_tracked s events

theorem held_at_head {s : Shared} {events : List (Task × Choice)} {n : Nat} {u : User} {l : Held}
    (head : (run s events).residual (.session n) = control u l) :
    l = (localsOf (historyOf (.session n) (run s events).log)).held ∧
      unanswered (historyOf (.session n) (run s events).log) = none := by
  have meets := System.run_thread (S := system) (i := .session n) openControl_tracked
    session_again_tracked s events
  change ((run s events).residual (.session n)).Meets _ _ _ at meets
  rw [head] at meets
  exact ⟨meets.2 .malformed, meets.1⟩

def NoReceive (e : Effect) : Prop := e ≠ .receiveJson

theorem releaseHeld_performs (l : Held) : (releaseHeld l).Performs NoReceive :=
  (releaseHeld_visits l).mono fun e visits => by
    rintro rfl
    exact visits

theorem answer_performs (l : Held) (reply : Reply) : (answer l reply).Performs NoReceive := by
  simp only [answer, call, Program.performs_call_bind]
  refine ⟨Effect.noConfusion, fun there => ?_⟩
  cases there with
  | false => trivial
  | true => cases reply.encodable <;> trivial

theorem handleMessage_performs (u : User) (l : Held) (fields : List (String × Json)) :
    (handleMessage u l fields).Performs NoReceive := by
  unfold handleMessage
  split
  · exact answer_performs l _
  split
  · exact answer_performs l _
  refine Program.Performs.bind ?_ fun allowed => ?_
  · simp only [isUsersTurn, call, Program.performs_call_bind]
    refine ⟨Effect.noConfusion, fun state => ?_⟩
    split
    · trivial
    · split
      · trivial
      · exact ⟨Effect.noConfusion, fun owner => trivial⟩
  · split
    · exact answer_performs l _
    · exact (releaseHeld_performs l).bind fun l => answer_performs l _
    · split
      · trivial
      · simp only [call, Program.performs_call_bind]
        refine ⟨Effect.noConfusion, fun written => ?_⟩
        cases written <;> exact answer_performs _ _

theorem control_performs (u : User) (l : Held) : (control u l).PerformsLater NoReceive := by
  intro frame
  refine Program.Performs.bind ?_ fun outcome => ?_
  · cases frame with
    | json msg =>
      cases msg with
      | obj fields => exact handleMessage_performs u l fields
      | _ => trivial
    | _ => trivial
  · cases outcome with
    | goOn l => trivial
    | disconnected l => exact (releaseHeld_performs l).bind fun _ => trivial
    | raised l => trivial

theorem again_performs (flow : Flow) : (again flow).PerformsLater NoReceive := by
  cases flow with
  | control u l => exact control_performs u l
  | broadcast =>
    exact ((broadcastLoop_meets []).performs fun _ _ allowed => by rintro rfl; exact allowed).later
  | read =>
    exact ((readerLoop_meets []).performs fun _ _ allowed => by rintro rfl; exact allowed).later
  | admin =>
    exact ((adminRequest_meets []).performs fun _ _ allowed => by rintro rfl; exact allowed).later
  | returned => trivial
  | raised l => trivial

def awaitsMessage : Prog Flow → Bool
  | .perform .receiveJson _ => true
  | _ => false

/-- A session that waits for a message is at the head of its loop, and its history tells what it
    holds. -/
theorem held_waiting {s : Shared} {events : List (Task × Choice)} {n : Nat}
    (waits : awaitsMessage ((run s events).residual (.session n)) = true) :
    ∃ u l, (run s events).residual (.session n) = control u l ∧
      l = (localsOf (historyOf (.session n) (run s events).log)).held ∧
      unanswered (historyOf (.session n) (run s events).log) = none := by
  have opens : (start (.session n)).Performs NoReceive := by
    refine ⟨Effect.noConfusion, fun u => ?_⟩
    change (if u.email = "" then pure .returned else pure (.control u {}) : Prog Flow).Performs _
    split <;> trivial
  obtain performs | ⟨flow, head⟩ :=
    System.run_head (S := system) (i := .session n) opens again_performs s events
  · change ((run s events).residual (.session n)).Performs NoReceive at performs
    cases residual : (run s events).residual (.session n) with
    | done a =>
      rw [residual] at waits
      cases waits
    | perform e next =>
      rw [residual] at waits performs
      cases e with
      | receiveJson => exact absurd rfl performs.1
      | _ => cases waits
  · change (run s events).residual (.session n) = again flow at head
    cases flow with
    | control u l => exact ⟨u, l, head, held_at_head head⟩
    | _ =>
      rw [head] at waits
      cases waits

theorem locals_begin {h : History Answer} {held : List ControlAction}
    (order : { order : List ControlAction // order.Perm held }) :
    localsOf (⟨.iterate held, order⟩ :: h) = (localsOf h).visit order.val := rfl

inductive LocalsStep (h : History Answer) : Step Answer → Prop where
  | forwards {cmd : CommandMessage} (idle : (localsOf h).releasing = []) (gated : Gated h cmd) :
    LocalsStep h ⟨.sendCommand cmd, true⟩
  | visits {team : Int} {a : ControlAction} {rest : List ControlAction} (written : Bool)
    (looping : (localsOf h).releasing = a :: rest) (onTeam : (localsOf h).held.team = some team) :
    LocalsStep h ⟨.sendCommand (releaseMessage team a), written⟩
  | begins {held : List ControlAction} (order : { order : List ControlAction // order.Perm held })
    (same : held = (localsOf h).held.actions) : LocalsStep h ⟨.iterate held, order⟩
  | keeps {s : Step Answer} (quiet : accepted s = none)
    (held : (localsOf (s :: h)).held = (localsOf h).held)
    (releasing : (localsOf (s :: h)).releasing = (localsOf h).releasing) : LocalsStep h s

theorem locals_step {s : Step Answer} {h : History Answer} (permitted : heldPermits h s.1) :
    LocalsStep h s := by
  rcases s with ⟨e, r⟩
  cases e with
  | sendCommand cmd =>
    cases looping : (localsOf h).releasing with
    | nil =>
      cases r with
      | false =>
        have same := locals_refused looping cmd
        exact .keeps rfl (by rw [same]) (by rw [same])
      | true => exact .forwards looping ((heldPermits_forward looping).mp permitted)
    | cons a rest =>
      obtain ⟨team, onTeam, rfl⟩ := (heldPermits_visit looping).mp permitted
      exact .visits r looping onTeam
  | iterate held => exact .begins r permitted.2
  | _ => exact .keeps rfl rfl rfl

theorem held_noOneShot {h : History Answer} (permitted : Program.Permitted heldPermits h) :
    ∀ a ∈ (localsOf h).held.actions, a.oneShot = false := by
  apply permitted.keeps (fun h => ∀ a ∈ (localsOf h).held.actions, a.oneShot = false)
  · exact fun a member => absurd member List.not_mem_nil
  intro s older before allowed a member
  cases locals_step allowed with
  | forwards idle gated =>
    rw [locals_forward idle] at member
    rcases Held.mem_of_track member with ⟨old, -⟩ | ⟨-, same, held⟩
    · exact before a old
    · rw [same]
      exact held
  | visits written looping onTeam =>
    rw [locals_visit looping] at member
    exact before a (Locals.mem_of_visit member)
  | begins order same =>
    rw [locals_begin] at member
    exact before a (Locals.mem_of_visit member)
  | keeps quiet held releasing =>
    rw [held] at member
    exact before a member

end WebControl.Backend
