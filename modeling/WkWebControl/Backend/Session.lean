import WkWebControl.Backend.System

open Effects WebControl

namespace WebControl.Backend

def accepted : Step Answer → Option CommandMessage
  | ⟨.sendCommand cmd, written⟩ => if written then some cmd else none
  | _ => none

def lastPhase (a : ControlAction) : History Answer → Option ControlPhase
  | [] => none
  | s :: h =>
    match accepted s with
    | some cmd => if cmd.action = a then some cmd.phase else lastPhase a h
    | none => lastPhase a h

def offline : Step Answer → Bool
  | ⟨.latestState, seen⟩ => seen.isNone
  | ⟨.sendCommand _, written⟩ => !written
  | _ => false

def Online (h : History Answer) : Prop := ∀ s ∈ h, offline s = false

instance (h : History Answer) : Decidable (Online h) :=
  inferInstanceAs (Decidable (∀ s ∈ h, offline s = false))

def sessionUser : History Answer → Option User
  | [] => none
  | ⟨.acceptSocket, u⟩ :: _ => some u
  | _ :: h => sessionUser h

/-- `cmd` is built from the newest message, whose sender owned the team on turn when the two
    reads of its check, the last things done, were made. -/
def Gated (h : History Answer) (cmd : CommandMessage) : Prop :=
  ∃ (u : User) (team : Int) (seen : Received) (fields : List (String × Json))
    (rest : History Answer),
    h = ⟨.emailForTeam team seen, some u.email⟩ :: ⟨.latestState, some seen⟩ ::
      ⟨.receiveJson, .json (.obj fields)⟩ :: rest ∧
    sessionUser rest = some u ∧ seen.snapshot.turnTeam = some team ∧ cmd.team = toString team ∧
    ControlAction.ofValue? (actionRaw fields) = some cmd.action ∧
    ControlPhase.ofValue? (phaseRaw fields) = some cmd.phase ∧
    Python.int? (valueRaw fields) = some cmd.value

/-- `cmd` releases something the session still holds by what it has sent. -/
def AutoRelease (h : History Answer) (cmd : CommandMessage) : Prop :=
  cmd.phase = .release ∧ cmd.action.oneShot = false ∧ lastPhase cmd.action h = some .press

def acceptedSince : History Answer → List CommandMessage
  | [] => []
  | ⟨.receiveJson, _⟩ :: _ => []
  | s :: h => (accepted s).toList ++ acceptedSince h

def Ungated : History Answer → Prop
  | [] => True
  | ⟨.receiveJson, _⟩ :: _ => True
  | s :: h => (∀ cmd, accepted s = some cmd → ¬ Gated h cmd) ∧ Ungated h

def Reported (h : History Answer) (reply : Reply) : Prop :=
  if reply.isOk then
    ∃ cmd older, h = ⟨.sendCommand cmd, true⟩ :: older ∧ Gated older cmd ∧ acceptedSince older = []
  else Ungated h

def sessionPermits (h : History Answer) : Effect → Prop
  | .sendCommand cmd => Gated h cmd ∨ AutoRelease h cmd
  | .sendJson reply => Reported h reply
  | .emailForTeam team seen =>
    ∃ rest, h = ⟨.latestState, some seen⟩ :: rest ∧ seen.snapshot.turnTeam = some team
  | .acceptSocket | .receiveJson | .iterate _ | .latestState => True
  | _ => False

structure HeldFits (h : History Answer) (l : Held) : Prop where
  nodup : l.actions.Nodup
  noOneShot : ∀ a ∈ l.actions, a.oneShot = false
  pressed : ∀ a ∈ l.actions, lastPhase a h = some .press
  team : l.team = none → l.actions = []
  complete : Online h → ∀ a, a.oneShot = false → lastPhase a h = some .press → a ∈ l.actions

theorem step_of_accepted {x : Entry Task Answer Shared} {cmd : CommandMessage}
    (sent : accepted x.step = some cmd) : x.step = ⟨.sendCommand cmd, true⟩ := by
  rcases x with ⟨thread, effect, reply, before, after⟩
  cases effect with
  | sendCommand c => cases reply <;> cases sent; rfl
  | _ => cases sent

@[simp] theorem lastPhase_skip {s : Step Answer} (quiet : accepted s = none) (a : ControlAction)
    (h : History Answer) : lastPhase a (s :: h) = lastPhase a h := by
  simp only [lastPhase, quiet]

theorem lastPhase_accepted {s : Step Answer} {cmd : CommandMessage} (sent : accepted s = some cmd)
    (a : ControlAction) (h : History Answer) :
    lastPhase a (s :: h) = if cmd.action = a then some cmd.phase else lastPhase a h := by
  simp only [lastPhase, sent]

theorem Online.tail {s : Step Answer} {h : History Answer} (online : Online (s :: h)) : Online h :=
  fun t member => online t (List.mem_cons_of_mem _ member)

namespace Held

theorem mem_add {l : Held} {team : Option Int} {a b : ControlAction} :
    b ∈ (l.add team a).actions ↔ b = a ∨ b ∈ l.actions := by
  unfold Held.add
  by_cases old : a ∈ l.actions
  · simp only [old, if_true]
    constructor
    · exact Or.inr
    · rintro (rfl | member)
      · exact old
      · exact member
  · simp only [old, if_false, List.mem_append, List.mem_singleton]
    exact or_comm

theorem mem_discard {l : Held} {team : Option Int} {a b : ControlAction} :
    b ∈ (l.discard team a).actions ↔ b ∈ l.actions ∧ b ≠ a := by
  simp [Held.discard]

end Held

theorem HeldFits.skip {s : Step Answer} {h : History Answer} {l : Held} (fits : HeldFits h l)
    (quiet : accepted s = none) : HeldFits (s :: h) l where
  nodup := fits.nodup
  noOneShot := fits.noOneShot
  pressed a member := by rw [lastPhase_skip quiet]; exact fits.pressed a member
  team := fits.team
  complete online a held last := by
    rw [lastPhase_skip quiet] at last
    exact fits.complete online.tail a held last

theorem HeldFits.opened (h : History Answer) (quiet : ∀ a, lastPhase a h = none) :
    HeldFits h {} where
  nodup := List.nodup_nil
  noOneShot _ member := absurd member List.not_mem_nil
  pressed _ member := absurd member List.not_mem_nil
  team _ := rfl
  complete _ a _ last := by rw [quiet a] at last; cases last

theorem HeldFits.add {h : History Answer} {l : Held} (fits : HeldFits h l) {cmd : CommandMessage}
    (phase : cmd.phase = .press) (held : cmd.action.oneShot = false) (team : Int) :
    HeldFits (⟨.sendCommand cmd, true⟩ :: h) (l.add (some team) cmd.action) := by
  have sent : accepted ⟨.sendCommand cmd, true⟩ = some cmd := rfl
  refine ⟨?_, ?_, ?_, ?_, ?_⟩
  · unfold Held.add
    by_cases old : cmd.action ∈ l.actions
    · simp only [old, if_true]
      exact fits.nodup
    · simp only [old, if_false]
      exact List.nodup_append.mpr ⟨fits.nodup, List.nodup_singleton _, by
        intro a member b single
        rw [List.mem_singleton.mp single]
        exact fun same => old (same ▸ member)⟩
  · intro a member
    rcases Held.mem_add.mp member with rfl | member
    · exact held
    · exact fits.noOneShot a member
  · intro a member
    rw [lastPhase_accepted sent]
    split
    · rw [phase]
    · rename_i other
      rcases Held.mem_add.mp member with rfl | member
      · exact absurd rfl other
      · exact fits.pressed a member
  · intro none_team
    cases none_team
  · intro online a one last
    rw [lastPhase_accepted sent] at last
    by_cases same : cmd.action = a
    · exact Held.mem_add.mpr (.inl same.symm)
    · rw [if_neg same] at last
      exact Held.mem_add.mpr (.inr (fits.complete online.tail a one last))

theorem HeldFits.discard {h : History Answer} {l : Held} (fits : HeldFits h l)
    {cmd : CommandMessage} (phase : cmd.phase = .release) (team : Int) :
    HeldFits (⟨.sendCommand cmd, true⟩ :: h) (l.discard (some team) cmd.action) := by
  have sent : accepted ⟨.sendCommand cmd, true⟩ = some cmd := rfl
  refine ⟨fits.nodup.filter _, fun a member => fits.noOneShot a (Held.mem_discard.mp member).1, ?_, ?_, ?_⟩
  · intro a member
    rw [lastPhase_accepted sent, if_neg (Ne.symm (Held.mem_discard.mp member).2)]
    exact fits.pressed a (Held.mem_discard.mp member).1
  · intro none_team
    cases none_team
  · intro online a one last
    rw [lastPhase_accepted sent] at last
    by_cases same : cmd.action = a
    · rw [if_pos same, phase] at last
      cases last
    · rw [if_neg same] at last
      exact Held.mem_discard.mpr ⟨fits.complete online.tail a one last, Ne.symm same⟩

theorem HeldFits.oneShot {h : History Answer} {l : Held} (fits : HeldFits h l)
    {cmd : CommandMessage} (one : cmd.action.oneShot = true) :
    HeldFits (⟨.sendCommand cmd, true⟩ :: h) l := by
  have sent : accepted ⟨.sendCommand cmd, true⟩ = some cmd := rfl
  have other : ∀ a, a.oneShot = false → cmd.action ≠ a := by
    intro a held same
    rw [same, held] at one
    cases one
  refine ⟨fits.nodup, fits.noOneShot, ?_, fits.team, ?_⟩
  · intro a member
    rw [lastPhase_accepted sent, if_neg (other a (fits.noOneShot a member))]
    exact fits.pressed a member
  · intro online a held last
    rw [lastPhase_accepted sent, if_neg (other a held)] at last
    exact fits.complete online.tail a held last

section Specs

open Program

@[simp] theorem not_gated_iterate (held : List ControlAction) (order) (h : History Answer)
    (cmd : CommandMessage) : ¬ Gated (⟨.iterate held, order⟩ :: h) cmd := by
  rintro ⟨u, team, seen, fields, rest, eq, _⟩
  cases eq

@[simp] theorem not_gated_sent (c : CommandMessage) (written : Bool) (h : History Answer)
    (cmd : CommandMessage) : ¬ Gated (⟨.sendCommand c, written⟩ :: h) cmd := by
  rintro ⟨u, team, seen, fields, rest, eq, _⟩
  cases eq

@[simp] theorem lastPhase_release (team : Int) (a b : ControlAction) (h : History Answer) :
    lastPhase b (⟨.sendCommand (releaseMessage team a), true⟩ :: h) =
      if a = b then some .release else lastPhase b h := rfl

/-- What the loop of `_release_held`, begun at `start`, keeps while the actions `xs` are still
    to come. -/
structure Releasing (start : History Answer) (xs : List ControlAction) (h : History Answer) :
    Prop where
  nodup : xs.Nodup
  noOneShot : ∀ a ∈ xs, a.oneShot = false
  pressed : ∀ a ∈ xs, lastPhase a h = some .press
  complete : Online h → ∀ a, a.oneShot = false → lastPhase a h = some .press → a ∈ xs
  ungated : Ungated start → Ungated h
  unchecked : ∀ cmd, ¬ Gated h cmd
  user : sessionUser h = sessionUser start

theorem Releasing.next {start h : History Answer} {a : ControlAction} {xs : List ControlAction}
    (state : Releasing start (a :: xs) h) (team : Int) (written : Bool) :
    Releasing start xs (⟨.sendCommand (releaseMessage team a), written⟩ :: h) := by
  have fresh := (List.nodup_cons.mp state.nodup).1
  cases written with
  | false =>
    refine ⟨state.nodup.of_cons, fun b m => state.noOneShot b (.tail _ m),
      fun b m => state.pressed b (.tail _ m), ?_, fun prior => ⟨fun cmd _ => state.unchecked cmd, state.ungated prior⟩,
      not_gated_sent _ _ _, state.user⟩
    intro online
    have raised := online _ List.mem_cons_self
    cases raised
  | true =>
    refine ⟨state.nodup.of_cons, fun b m => state.noOneShot b (.tail _ m), ?_, ?_,
      fun prior => ⟨fun cmd _ => state.unchecked cmd, state.ungated prior⟩,
      not_gated_sent _ _ _, state.user⟩
    · intro b member
      have other : a ≠ b := fun same => fresh (same ▸ member)
      rw [lastPhase_release, if_neg other]
      exact state.pressed b (.tail _ member)
    · intro online b held last
      rw [lastPhase_release] at last
      by_cases same : a = b
      · rw [if_pos same] at last
        cases last
      · rw [if_neg same] at last
        rcases List.mem_cons.mp (state.complete online.tail b held last) with rfl | member
        · exact absurd rfl same
        · exact member

theorem releaseHeld_meets {h : History Answer} {l : Held} (fits : HeldFits h l) :
    Meets sessionPermits (fun l' after => HeldFits after l' ∧ l'.actions = [] ∧
      (Ungated h → Ungated after) ∧ sessionUser after = sessionUser h) (releaseHeld l) h := by
  unfold releaseHeld
  split
  · rename_i none_team
    exact ⟨fits, fits.team none_team, id, rfl⟩
  · rename_i team some_team
    simp only [meets_bind, call, meets_call, meets_pure]
    refine ⟨trivial, fun order => ?_⟩
    have begun : Releasing h order.val (⟨.iterate l.actions, order⟩ :: h) :=
      { nodup := order.property.nodup_iff.mpr fits.nodup
        noOneShot := fun a member => fits.noOneShot a (order.property.mem_iff.mp member)
        pressed := fun a member => fits.pressed a (order.property.mem_iff.mp member)
        complete := fun online a held last =>
          order.property.mem_iff.mpr (fits.complete online.tail a held last)
        ungated := fun prior => ⟨fun _ sent => (by cases sent), prior⟩
        unchecked := not_gated_iterate _ _ _
        user := rfl }
    refine (meets_forEach (Releasing h) _ ?_ order.val _ begun).mono ?_
    · intro a xs before state
      simp only [meets_bind, meets_call, meets_pure]
      exact ⟨.inr ⟨rfl, state.noOneShot a List.mem_cons_self, state.pressed a List.mem_cons_self⟩,
        fun written => state.next team written⟩
    · intro _ after done
      refine ⟨⟨List.nodup_nil, fun _ m => absurd m List.not_mem_nil,
        fun _ m => absurd m List.not_mem_nil, fun _ => rfl, done.complete⟩, trivial, done.ungated,
        done.user⟩

def Visits : Effect → Prop
  | .iterate _ | .sendCommand _ => True
  | _ => False

theorem releaseHeld_visits (l : Held) : (releaseHeld l).Performs Visits := by
  unfold releaseHeld
  split
  · trivial
  · simp only [call, Program.performs_call_bind]
    refine ⟨trivial, fun order => Program.Performs.bind ?_ fun _ => trivial⟩
    refine Program.Performs.forEach (fun a => ?_) order.val
    exact ⟨trivial, fun _ => trivial⟩

theorem meets_isUsersTurn {permits : History Answer → Effect → Prop} {h : History Answer}
    (reads : permits h .latestState)
    (looksUp : ∀ (seen : Received) (team : Int), seen.snapshot.turnTeam = some team →
      permits (⟨.latestState, some seen⟩ :: h) (.emailForTeam team seen))
    (email : String) (post : Option (Bool × Option Int) → History Answer → Prop) :
    Meets permits post (isUsersTurn email) h ↔
      post none (⟨.latestState, none⟩ :: h) ∧
      (∀ seen : Received, seen.snapshot.turnTeam = none →
        post (some (false, none)) (⟨.latestState, some seen⟩ :: h)) ∧
      ∀ (seen : Received) (team : Int) (owner : Option String),
        seen.snapshot.turnTeam = some team →
        post (some (owner == some email, some team))
          (⟨.emailForTeam team seen, owner⟩ :: ⟨.latestState, some seen⟩ :: h) := by
  simp only [isUsersTurn, meets_bind, call, meets_call]
  constructor
  · rintro ⟨-, meets⟩
    refine ⟨meets none, fun seen no_turn => ?_, fun seen team owner turn => ?_⟩
    · have branch := meets (some seen)
      simp only [no_turn] at branch
      exact branch
    · have branch := meets (some seen)
      simp only [turn, meets_bind, meets_call] at branch
      exact branch.2 owner
  · rintro ⟨nothing, between, turn⟩
    refine ⟨reads, fun state => ?_⟩
    cases state with
    | none => exact nothing
    | some seen =>
      dsimp only
      split
      · rename_i no_turn
        exact between seen no_turn
      · rename_i team some_team
        simp only [meets_bind, meets_call]
        exact ⟨looksUp seen team some_team, fun owner => turn seen team owner some_team⟩

/-- The frames that can raise something else than `WebSocketDisconnect`: what is no object, a
    `value` that is no integer, an `action` or `phase` that cannot be sent back. -/
def Raises : Incoming → Prop
  | .json (.obj fields) => Python.int? (valueRaw fields) = none ∨
      actionRaw fields = .unpaired ∨ phaseRaw fields = .unpaired
  | .json _ | .malformed => True
  | .disconnect => False

def newestFrame : History Answer → Option Incoming
  | [] => none
  | ⟨.receiveJson, frame⟩ :: _ => some frame
  | _ :: h => newestFrame h

structure SessionFits (u : User) (l : Held) (h : History Answer) : Prop where
  held : HeldFits h l
  user : sessionUser h = some u

def Handled (u : User) (frame : Incoming) : Outcome → History Answer → Prop
  | .goOn l, h | .disconnected l, h => SessionFits u l h
  | .raised l, h => HeldFits h l ∧ Raises frame ∧ newestFrame h = some frame

theorem answer_meets {u : User} {l : Held} {h : History Answer} {reply : Reply} (frame : Incoming)
    (reported : Reported h reply) (held : HeldFits h l) (user : sessionUser h = some u)
    (encodable : reply.encodable = true) :
    Meets sessionPermits (Handled u frame) (answer l reply) h := by
  simp only [answer, meets_bind, call, meets_call, encodable, if_true]
  refine ⟨reported, fun there => ?_⟩
  cases there <;> exact ⟨held.skip rfl, user⟩

theorem refuse_meets {u : User} {l : Held} {h : History Answer} {reply : Reply} (frame : Incoming)
    (refused : reply.isOk = false) (ungated : Ungated h) (held : HeldFits h l)
    (user : sessionUser h = some u) (encodable : reply.encodable = true) :
    Meets sessionPermits (Handled u frame) (answer l reply) h := by
  refine answer_meets frame ?_ held user encodable
  simp only [Reported, refused]
  exact ungated

theorem quote_meets {u : User} {l : Held} {rest : History Answer} {reply : Reply}
    (frame : Incoming) (refused : reply.isOk = false)
    (held : HeldFits (⟨.receiveJson, frame⟩ :: rest) l) (user : sessionUser rest = some u)
    (raises : reply.encodable = false → Raises frame) :
    Meets sessionPermits (Handled u frame) (answer l reply) (⟨.receiveJson, frame⟩ :: rest) := by
  simp only [answer, meets_bind, call, meets_call]
  refine ⟨by simp only [sessionPermits, Reported, refused]; trivial, fun there => ?_⟩
  cases there with
  | false => exact ⟨held.skip rfl, user⟩
  | true =>
    cases encodable : reply.encodable with
    | true => exact ⟨held.skip rfl, user⟩
    | false => exact ⟨held.skip rfl, raises encodable, rfl⟩

theorem handleMessage_meets {u : User} {l : Held} {rest : History Answer}
    (fields : List (String × Json)) (fits : SessionFits u l rest) :
    Meets sessionPermits (Handled u (.json (.obj fields))) (handleMessage u l fields)
      (⟨.receiveJson, .json (.obj fields)⟩ :: rest) := by
  have received : HeldFits (⟨.receiveJson, .json (.obj fields)⟩ :: rest) l := fits.held.skip rfl
  unfold handleMessage
  split
  · refine quote_meets _ rfl received fits.user fun broken => .inr (.inl ?_)
    cases raw : actionRaw fields <;> rw [raw] at broken <;> first | rfl | cases broken
  · rename_i action isAction
    split
    · refine quote_meets _ rfl received fits.user fun broken => .inr (.inr ?_)
      cases raw : phaseRaw fields <;> rw [raw] at broken <;> first | rfl | cases broken
    · rename_i phase isPhase
      -- `get_state` raises, no team is on turn, or the owner of the team on turn is looked up
      rw [meets_bind, meets_isUsersTurn trivial fun seen team turn => ⟨_, rfl, turn⟩]
      refine ⟨?_, ?_, ?_⟩
      · exact refuse_meets _ rfl ⟨fun _ sent => (by cases sent), trivial⟩ (received.skip rfl) fits.user
          rfl
      · intro seen noTurn
        dsimp only
        rw [meets_bind]
        apply (releaseHeld_meets (received.skip rfl)).mono
        intro l' after released
        exact refuse_meets _ rfl (released.2.2.1 ⟨fun _ sent => (by cases sent), trivial⟩) released.1
          (released.2.2.2.trans fits.user) rfl
      · intro seen team owner turn
        have looked : HeldFits (⟨.emailForTeam team seen, owner⟩ :: ⟨.latestState, some seen⟩ ::
            ⟨.receiveJson, .json (.obj fields)⟩ :: rest) l := (received.skip rfl).skip rfl
        by_cases owns : owner = some u.email
        · subst owns
          simp only [beq_self_eq_true]
          split
          · rename_i noInt
            exact ⟨looked, .inl noInt, rfl⟩
          · rename_i value isInt
            simp only [meets_bind, call, meets_call]
            have gated : Gated (⟨.emailForTeam team seen, some u.email⟩ ::
                ⟨.latestState, some seen⟩ :: ⟨.receiveJson, .json (.obj fields)⟩ :: rest)
                ⟨str (some team), action, phase, value⟩ :=
              ⟨u, team, seen, fields, rest, rfl, fits.user, turn, rfl, isAction, isPhase, isInt⟩
            refine ⟨.inl gated, fun written => ?_⟩
            cases written with
            | false =>
              exact refuse_meets _ rfl ⟨fun _ sent => (by cases sent), ⟨fun _ sent => (by cases sent),
                ⟨fun _ sent => (by cases sent), trivial⟩⟩⟩ (looked.skip rfl) fits.user rfl
            | true =>
              refine answer_meets _ ⟨_, _, rfl, gated, rfl⟩ ?_ fits.user rfl
              by_cases one : action.oneShot
              · simp only [one, if_true]
                exact looked.oneShot one
              · simp only [one]
                cases phase with
                | press => exact looked.add rfl (by simpa using one) team
                | release => exact looked.discard rfl team
        · have differs : (owner == some u.email) = false := by simpa using owns
          simp only [differs]
          rw [meets_bind]
          apply (releaseHeld_meets looked).mono
          intro l' after released
          exact refuse_meets _ rfl (released.2.2.1 ⟨fun _ sent => (by cases sent),
            ⟨fun _ sent => (by cases sent), trivial⟩⟩) released.1
            (released.2.2.2.trans fits.user) rfl

def sessionPost : Flow → History Answer → Prop
  | .control u l, h => SessionFits u l h
  | .returned, h => Online h → ∀ a, a.oneShot = false → lastPhase a h ≠ some .press
  | .raised l, h => HeldFits h l ∧ ∃ frame, newestFrame h = some frame ∧ Raises frame
  | _, _ => False

theorem control_meets {u : User} {l : Held} {h : History Answer} (fits : SessionFits u l h) :
    Meets sessionPermits sessionPost (control u l) h := by
  unfold control
  simp only [meets_bind, call, meets_call]
  refine ⟨trivial, fun frame => ?_⟩
  refine Meets.mono (show Meets sessionPermits (Handled u frame) _ _ from ?_) ?_
  · split
    · exact ⟨fits.held.skip rfl, fits.user⟩
    · exact ⟨fits.held.skip rfl, trivial, rfl⟩
    · exact handleMessage_meets _ fits
    · rename_i msg other
      refine ⟨fits.held.skip rfl, ?_, rfl⟩
      cases msg with
      | obj fields => exact (other fields rfl).elim
      | _ => trivial
  intro outcome after post
  cases outcome with
  | goOn l' => exact post
  | raised l' => exact ⟨post.1, frame, post.2.2, post.2.1⟩
  | disconnected l' =>
    rw [meets_bind]
    apply (releaseHeld_meets post.held).mono
    intro l'' final released online a one last
    have member := released.1.complete online a one last
    rw [released.2.1] at member
    exact absurd member List.not_mem_nil

theorem openControl_meets : Meets sessionPermits sessionPost openControl [] := by
  unfold openControl
  simp only [meets_bind, call, meets_call]
  refine ⟨trivial, fun u => ?_⟩
  split
  · intro _ a _ last
    cases last
  · exact ⟨HeldFits.opened _ fun a => rfl, rfl⟩

theorem session_again_meets (flow : Flow) (h : History Answer) (post : sessionPost flow h) :
    Meets sessionPermits sessionPost (again flow) h := by
  cases flow with
  | control u l => exact control_meets post
  | returned => exact post
  | raised l => exact post
  | _ => exact post.elim

end Specs

end WebControl.Backend
