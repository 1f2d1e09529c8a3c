import WkWebControl.Backend.Contract

open Effects WebControl

namespace WebControl.Backend

/-- Of every action that can be held, the last command sent, if there is one, is a release. -/
def ReleasedAtEnd (h : History Answer) : Prop :=
  ∀ a, a.oneShot = false → ∀ phase, lastPhase a h = some phase → phase = .release

theorem releasedAtEnd_iff (h : History Answer) :
    ReleasedAtEnd h ↔ ∀ a, a.oneShot = false → lastPhase a h ≠ some .press := by
  constructor
  · intro released a held last
    cases released a held _ last
  · intro never a held phase last
    cases phase with
    | press => exact absurd last (never a held)
    | release => rfl

theorem session_post {s : Shared} {events : List (Task × Choice)} {n : Nat} {flow : Flow}
    (ended : ((run s events).residual (.session n)).result? = some flow) :
    sessionPost flow (historyOf (.session n) (run s events).log) :=
  System.run_ended (S := system) openControl_meets session_again_meets s events ended

theorem session_ended {s : Shared} {events : List (Task × Choice)} {n : Nat} {flow : Flow}
    (ended : ((run s events).residual (.session n)).result? = some flow) :
    flow = .returned ∨ ∃ l, flow = .raised l := by
  obtain ⟨next, rests⟩ := System.run_rests (S := system) s events (.session n) flow ended
  cases next with
  | returned => exact .inl (Program.done.inj rests).symm
  | raised l => exact .inr ⟨l, (Program.done.inj rests).symm⟩
  | _ => cases rests

def beforeFrame : History Answer → History Answer
  | [] => []
  | ⟨.receiveJson, _⟩ :: h => h
  | _ :: h => beforeFrame h

def taken : History Answer → Bool
  | ⟨.sendJson _, there⟩ :: _ => there
  | [] | ⟨.receiveJson, _⟩ :: _ => false
  | _ :: h => taken h

/-- The user to whom the check of the newest message has found the team on turn mapped. -/
def turnOwner : History Answer → Option String
  | ⟨.emailForTeam _ _, owner⟩ :: _ => owner
  | [] | ⟨.receiveJson, _⟩ :: _ => none
  | _ :: h => turnOwner h

/-- Of the messages that are objects: an error that the socket cannot encode has a client to go to, or
    `int` refuses the `value` of the user on turn. -/
def ObjectEscapes (fields : List (String × Json)) (h : History Answer) : Prop :=
  match ControlAction.ofValue? (actionRaw fields), ControlPhase.ofValue? (phaseRaw fields) with
  | none, _ => actionRaw fields = .unpaired ∧ taken h = true
  | some _, none => phaseRaw fields = .unpaired ∧ taken h = true
  | some _, some _ => Python.int? (valueRaw fields) = none ∧
      ∃ u, sessionUser h = some u ∧ turnOwner h = some u.email

/-- The newest message is one that an exception other than `WebSocketDisconnect` answers. -/
def Escapes (h : History Answer) : Prop :=
  match newestFrame h with
  | some (.json (.obj fields)) => ObjectEscapes fields h
  | some (.json _) | some .malformed => True
  | some .disconnect | none => False

theorem escapes_visit {s : Step Answer} (visits : Visits s.1) (h : History Answer) :
    Escapes (s :: h) = Escapes h := by
  rcases s with ⟨e, r⟩
  cases e with
  | iterate held => rfl
  | sendCommand cmd => rfl
  | _ => exact visits.elim

def Exits (u : User) : Outcome → History Answer → Prop
  | .goOn _, h => sessionUser h = some u
  | .disconnected _, h => ¬ Escapes h
  | .raised _, h => Escapes h ∧ ∀ a, lastPhase a h = lastPhase a (beforeFrame h)

/-- The newest message is well formed, and `int` takes its `value` if its sender is on turn. -/
structure WellFormed (u : User) (fields : List (String × Json)) (h : History Answer) : Prop where
  frame : newestFrame h = some (.json (.obj fields))
  action : ControlAction.ofValue? (actionRaw fields) ≠ none
  phase : ControlPhase.ofValue? (phaseRaw fields) ≠ none
  value : Python.int? (valueRaw fields) = none → turnOwner h ≠ some u.email
  user : sessionUser h = some u

section Specs

open Program

variable {u : User} {l : Held} {fields : List (String × Json)} {h : History Answer}

theorem WellFormed.not_escapes (formed : WellFormed u fields h) : ¬ Escapes h := by
  rw [Escapes, formed.frame]
  dsimp only [ObjectEscapes]
  obtain ⟨action, isAction⟩ := Option.ne_none_iff_exists'.mp formed.action
  obtain ⟨phase, isPhase⟩ := Option.ne_none_iff_exists'.mp formed.phase
  rw [isAction, isPhase]
  rintro ⟨noInt, v, user, owner⟩
  cases formed.user.symm.trans user
  exact formed.value noInt owner

theorem WellFormed.skip {s : Step Answer} (formed : WellFormed u fields h)
    (frame : newestFrame (s :: h) = newestFrame h) (owner : turnOwner (s :: h) = turnOwner h)
    (user : sessionUser (s :: h) = sessionUser h) : WellFormed u fields (s :: h) where
  frame := frame.trans formed.frame
  action := formed.action
  phase := formed.phase
  value noInt := owner ▸ formed.value noInt
  user := user.trans formed.user

theorem answer_exits {reply : Reply} (user : sessionUser h = some u)
    (escapes : ∀ there, Escapes (⟨.sendJson reply, there⟩ :: h) ↔ there = true ∧ reply.encodable = false)
    (unsent : reply.encodable = false → ∀ a, lastPhase a h = lastPhase a (beforeFrame h)) :
    Meets (fun _ _ => True) (Exits u) (answer l reply) h := by
  simp only [answer, meets_bind, call, meets_call]
  refine ⟨trivial, fun there => ?_⟩
  cases there with
  | false => exact fun escaped => Bool.false_ne_true ((escapes false).mp escaped).1
  | true =>
    cases encodable : reply.encodable with
    | true => exact user
    | false => exact ⟨(escapes true).mpr ⟨rfl, encodable⟩, unsent encodable⟩

theorem formed_exits {reply : Reply} (formed : WellFormed u fields h)
    (encodable : reply.encodable = true) : Meets (fun _ _ => True) (Exits u) (answer l reply) h := by
  apply answer_exits formed.user
  · intro there
    rw [encodable]
    exact iff_of_false (formed.skip rfl rfl rfl).not_escapes fun both => Bool.noConfusion both.2
  · intro broken
    rw [encodable] at broken
    cases broken

theorem notYourTurn_exits (formed : WellFormed u fields h) (turnTeam : Option Int) :
    Meets (fun _ _ => True) (Exits u)
      (do
        let l ← releaseHeld l
        answer l (.notYourTurn turnTeam)) h := by
  rw [meets_bind]
  refine ((releaseHeld_visits l).keeps formed ?_).mono ?_
  · intro older e before visits r
    cases e with
    | iterate held => exact before.skip rfl rfl rfl
    | sendCommand cmd => exact before.skip rfl rfl rfl
    | _ => exact visits.elim
  · exact fun l' after before => formed_exits before rfl

theorem handleMessage_exits {rest : History Answer} (user : sessionUser rest = some u) :
    Meets (fun _ _ => True) (Exits u) (handleMessage u l fields)
      (⟨.receiveJson, .json (.obj fields)⟩ :: rest) := by
  have received : sessionUser (⟨.receiveJson, .json (.obj fields)⟩ :: rest) = some u := user
  unfold handleMessage
  split
  · rename_i noAction
    apply answer_exits received
    · intro there
      simp only [Escapes, newestFrame, ObjectEscapes, noAction, taken]
      cases actionRaw fields <;> simp [Reply.encodable]
    · exact fun _ a => rfl
  · rename_i action isAction
    split
    · rename_i noPhase
      apply answer_exits received
      · intro there
        simp only [Escapes, newestFrame, ObjectEscapes, isAction, noPhase, taken]
        cases phaseRaw fields <;> simp [Reply.encodable]
      · exact fun _ a => rfl
    · rename_i phase isPhase
      -- from here on only a `value` that is no integer can raise, and only in the turn of the sender
      have wellFormed : ∀ h : History Answer, newestFrame h = some (.json (.obj fields)) →
          sessionUser h = some u → (Python.int? (valueRaw fields) = none → turnOwner h ≠ some u.email) →
          WellFormed u fields h := fun h frame user value =>
        ⟨frame, by rw [isAction]; exact Option.some_ne_none _, by rw [isPhase]; exact Option.some_ne_none _,
          value, user⟩
      rw [meets_bind, meets_isUsersTurn trivial fun _ _ _ => trivial]
      refine ⟨?_, ?_, ?_⟩
      · exact formed_exits (wellFormed _ rfl (by exact user) fun _ owner => by cases owner) rfl
      · intro seen noTurn
        exact notYourTurn_exits (wellFormed _ rfl (by exact user) fun _ owner => by cases owner) none
      · intro seen team owner turn
        by_cases owns : owner = some u.email
        · subst owns
          simp only [beq_self_eq_true]
          split
          · rename_i noInt
            refine ⟨?_, fun a => rfl⟩
            simp only [Escapes, newestFrame, ObjectEscapes, isAction, isPhase]
            exact ⟨noInt, u, user, rfl⟩
          · rename_i value isInt
            simp only [meets_bind, call, meets_call]
            refine ⟨trivial, fun written => ?_⟩
            have checked : ∀ written : Bool, WellFormed u fields
                (⟨.sendCommand ⟨str (some team), action, phase, value⟩, written⟩ ::
                  ⟨.emailForTeam team seen, some u.email⟩ :: ⟨.latestState, some seen⟩ ::
                  ⟨.receiveJson, .json (.obj fields)⟩ :: rest) := fun written =>
              wellFormed _ rfl user fun noInt => by rw [noInt] at isInt; cases isInt
            cases written with
            | false => exact formed_exits (checked false) rfl
            | true => exact formed_exits (checked true) rfl
        · have differs : (owner == some u.email) = false := by simpa using owns
          simp only [differs]
          exact notYourTurn_exits (wellFormed _ rfl (by exact user) fun _ => by exact owns) (some team)

def exitPost : Flow → History Answer → Prop
  | .control u _, h => sessionUser h = some u
  | .returned, h => ¬ Escapes h
  | .raised _, h => Escapes h ∧ ∀ a, lastPhase a h = lastPhase a (beforeFrame h)
  | _, _ => False

theorem control_exits (user : sessionUser h = some u) :
    Meets (fun _ _ => True) exitPost (control u l) h := by
  unfold control
  simp only [meets_bind, call, meets_call]
  refine ⟨trivial, fun frame => ?_⟩
  refine Meets.mono (show Meets (fun _ _ => True) (Exits u) _ _ from ?_) ?_
  · split
    · exact id
    · exact ⟨trivial, fun a => rfl⟩
    · exact handleMessage_exits user
    · rename_i msg other
      refine ⟨?_, fun a => rfl⟩
      cases msg with
      | obj fields => exact (other fields rfl).elim
      | _ => trivial
  intro outcome after exits
  cases outcome with
  | goOn l' => exact exits
  | raised l' => exact exits
  | disconnected l' =>
    rw [meets_bind]
    refine Meets.mono (show Meets _ (fun _ after => ¬ Escapes after) _ _ from
      (releaseHeld_visits l').keeps exits fun older e before visits r => ?_) fun _ _ before => before
    rw [escapes_visit visits]
    exact before

theorem openControl_exits : Meets (fun _ _ => True) exitPost openControl [] := by
  unfold openControl
  simp only [meets_bind, call, meets_call]
  refine ⟨trivial, fun u => ?_⟩
  split
  · exact id
  · rfl

theorem session_again_exits (flow : Flow) (h : History Answer) (done : exitPost flow h) :
    Meets (fun _ _ => True) exitPost (again flow) h := by
  cases flow with
  | control u l => exact control_exits done
  | returned => exact done
  | raised l => exact done
  | _ => exact done.elim

end Specs

/-- However a session ends while the transport is online: what it pressed is released exactly when it
    was released before the newest message, should that be one that raises. -/
theorem control_end_released_iff {s : Shared} {events : List (Task × Choice)} {n : Nat}
    {flow : Flow} (ended : ((run s events).residual (.session n)).result? = some flow)
    (online : Online (historyOf (.session n) (run s events).log)) :
    ReleasedAtEnd (historyOf (.session n) (run s events).log) ↔
      (Escapes (historyOf (.session n) (run s events).log) →
        ReleasedAtEnd (beforeFrame (historyOf (.session n) (run s events).log))) := by
  have exits : exitPost flow (historyOf (.session n) (run s events).log) :=
    System.run_ended (S := system) openControl_exits session_again_exits s events ended
  rcases session_ended ended with rfl | ⟨l, rfl⟩
  · have done := session_post ended
    exact iff_of_true ((releasedAtEnd_iff _).mpr (done online)) fun escapes => absurd escapes exits
  · obtain ⟨escapes, unsent⟩ := exits
    rw [releasedAtEnd_iff, releasedAtEnd_iff, forall_prop_of_true escapes]
    simp only [unsent]

def letGo : List (Task × Choice) :=
  opening ++ pressing .moveLeft ++
    [(.session 0, .go), (.session 0, .incoming (buttonFrame .moveLeft .release)), (.session 0, .go),
     (.session 0, .go), (.session 0, .go), (.session 0, .go), (.session 0, .incoming (.json (.arr [])))]

theorem control_end_released_iff_letGo :
    ReleasedAtEnd (historyOf (.session 0) (run {} letGo).log) :=
  (control_end_released_iff (show _ = some (Flow.raised ⟨[], some 0⟩) by decide +kernel)
    (by decide +kernel)).mpr fun _ => (releasedAtEnd_iff _).mpr fun a _ => by cases a <;> decide +kernel

/-- A JSON array after a press: `msg.get` raises `AttributeError`, and the worm walks on. -/
theorem not_released_after_array :
    ¬ ∀ (s : Shared) (events : List (Task × Choice)) (n : Nat) (flow : Flow),
      ((run s events).residual (.session n)).result? = some flow →
      Online (historyOf (.session n) (run s events).log) →
      ReleasedAtEnd (historyOf (.session n) (run s events).log) := by
  intro always
  have released := always {} (opening ++ pressing .moveLeft ++
    [(.session 0, .go), (.session 0, .incoming (.json (.arr [])))]) 0 (.raised ⟨[.moveLeft], some 0⟩)
    (by decide +kernel) (by decide +kernel)
  have last := released .moveLeft rfl .press (by decide +kernel)
  cases last

end WebControl.Backend
