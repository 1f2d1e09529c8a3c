import WkWebControl.Backend.HeldSet

open Effects WebControl

namespace WebControl.Backend

/-- No `GameOfflineError` is raised inside `_release_held`. -/
def ReleasesSent : History Answer → Prop :=
  Program.Along fun s h => offline s = true → (localsOf h).releasing = []

instance (h : History Answer) : Decidable (ReleasesSent h) :=
  inferInstanceAs (Decidable (Program.Along _ h))

/-- `a` is in `held`, and while its loop runs, `_release_held` will still come to it. -/
def Locals.Holds (v : Locals) (a : ControlAction) : Prop :=
  a ∈ v.held.actions ∧ (v.releasing ≠ [] → a ∈ v.releasing)

def Remembered (h : History Answer) : Prop :=
  ∀ a, a.oneShot = false → lastPhase a h = some .press → (localsOf h).Holds a

def Releases (a : ControlAction) : Effect → Prop
  | .sendCommand cmd => cmd.action = a ∧ cmd.phase = .release
  | _ => False

theorem Locals.Holds.step {a : ControlAction} {s : Step Answer} {h : History Answer}
    (holds : (localsOf h).Holds a) (held : a.oneShot = false) (permitted : heldPermits h s.1)
    (other : ¬ Releases a s.1) : (localsOf (s :: h)).Holds a := by
  cases locals_step permitted with
  | @forwards cmd idle gated =>
    rw [locals_forward idle]
    refine ⟨?_, fun visiting => absurd idle visiting⟩
    by_cases own : cmd.action = a
    · subst own
      cases phase : cmd.phase with
      | press => exact Held.mem_track_press phase held
      | release => exact absurd ⟨rfl, phase⟩ other
    · exact (Held.mem_track_other own).mpr holds.1
  | @visits team b rest written looping onTeam =>
    have later : a ∈ rest := by
      have ahead := holds.2 (looping ▸ List.cons_ne_nil b rest)
      rw [looping] at ahead
      exact (List.mem_cons.mp ahead).resolve_left fun same => other ⟨same.symm, rfl⟩
    rw [locals_visit looping, Locals.visit, if_neg (List.ne_nil_of_mem later)]
    exact ⟨holds.1, fun _ => later⟩
  | begins order same =>
    have ahead : a ∈ order.val := by
      rw [order.property.mem_iff, same]
      exact holds.1
    rw [locals_begin, Locals.visit, if_neg (List.ne_nil_of_mem ahead)]
    exact ⟨holds.1, fun _ => ahead⟩
  | keeps quiet same releasing =>
    rw [Locals.Holds, same, releasing]
    exact holds

theorem Remembered.step {s : Step Answer} {h : History Answer} (before : Remembered h)
    (permitted : heldPermits h s.1) (sent : offline s = true → (localsOf h).releasing = []) :
    Remembered (s :: h) := by
  intro a held last
  cases locals_step permitted with
  | @forwards cmd idle gated =>
    rw [lastPhase_accepted rfl] at last
    by_cases own : cmd.action = a
    · rw [if_pos own] at last
      subst own
      rw [locals_forward idle]
      exact ⟨Held.mem_track_press (Option.some.inj last) held, fun visiting => absurd idle visiting⟩
    · rw [if_neg own] at last
      exact (before a held last).step held permitted fun release => own release.1
  | @visits team b rest written looping onTeam =>
    cases written with
    | false => exact absurd (sent rfl) (looping ▸ List.cons_ne_nil b rest)
    | true =>
      rw [lastPhase_release] at last
      by_cases own : b = a
      · rw [if_pos own] at last
        cases last
      · rw [if_neg own] at last
        exact (before a held last).step held permitted fun release => own release.1
  | begins order same => exact (before a held last).step held permitted id
  | keeps quiet same releasing =>
    rw [lastPhase_skip quiet] at last
    rw [Locals.Holds, same, releasing]
    exact before a held last

theorem remembered {s : Shared} {events : List (Task × Choice)} {n : Nat}
    (sent : ReleasesSent (historyOf (.session n) (run s events).log)) :
    Remembered (historyOf (.session n) (run s events).log) := by
  refine ((session_permitted s events n).and sent).keeps Remembered ?_ ?_
  · intro a _ last
    cases last
  · intro step older before both
    exact before.step both.1 both.2

/-- The variable `held` where a program of `control` has come to its result. -/
def Flow.held : Flow → List ControlAction
  | .control _ l | .raised l => l.actions
  | _ => []

/-- Whatever the program meets with on its way, either a release of `a` is sent, or `a` is in `held` at
    its result. -/
def Keeps (a : ControlAction) : Prog Flow → Prop
  | .done flow => a ∈ flow.held
  | .perform e next => Releases a e ∨ ∀ r, Keeps a (next r)

/-- `a` is in the variable `held` of a session that has `p` left to do: at the head of the loop, in what
    `_release_held` is about to go through, and from any other point on until a release of it is sent. -/
structure StillHeld (a : ControlAction) (p : Prog Flow) : Prop where
  head : ∀ u l, p = control u l → a ∈ l.actions
  loop : ∀ held next, p = .perform (.iterate held) next → a ∈ held
  keeps : Keeps a p

theorem Keeps.head {a : ControlAction} {u : User} {l : Held} (keeps : Keeps a (control u l)) :
    a ∈ l.actions := by
  rcases keeps with released | later
  · exact released.elim
  · exact later .malformed

theorem keeps_of_meets {a : ControlAction} (held : a.oneShot = false) {p : Prog Flow}
    {h : History Answer} (meets : p.Meets heldPermits heldPost h) (holds : (localsOf h).Holds a) :
    Keeps a p := by
  induction p generalizing h with
  | done flow =>
    have member := holds.1
    cases flow with
    | control u l =>
      rw [← meets.1.held] at member
      exact member
    | raised l =>
      rw [← show l = (localsOf h).held from meets] at member
      exact member
    | returned =>
      rw [show (localsOf h).held.actions = [] from meets] at member
      exact absurd member List.not_mem_nil
    | _ => exact meets.elim
  | perform e next ih =>
    by_cases released : Releases a e
    · exact .inl released
    · exact .inr fun r => ih r (meets.2 r) (holds.step (s := ⟨e, r⟩) held meets.1 released)

theorem stillHeld_of_meets {a : ControlAction} (held : a.oneShot = false) {p : Prog Flow}
    {h : History Answer} (meets : p.Meets heldPermits heldPost h) (holds : (localsOf h).Holds a) :
    StillHeld a p where
  head u l same := by
    have keeps := keeps_of_meets held meets holds
    rw [same] at keeps
    exact keeps.head
  loop held' next same := by
    rw [same] at meets
    rw [meets.1.2]
    exact holds.1
  keeps := keeps_of_meets held meets holds

theorem stillHeld {s : Shared} {events : List (Task × Choice)} {n : Nat}
    (sent : ReleasesSent (historyOf (.session n) (run s events).log)) {a : ControlAction}
    (held : a.oneShot = false)
    (last : lastPhase a (historyOf (.session n) (run s events).log) = some .press) :
    StillHeld a ((run s events).residual (.session n)) :=
  stillHeld_of_meets held (System.run_thread (S := system) (i := .session n) openControl_tracked
    session_again_tracked s events) (remembered sent a held last)

/-- As long as every release of `_release_held` goes out, whatever a session has pressed last is
    in its `held`. -/
theorem pressed_held (s : Shared) (events : List (Task × Choice)) (n : Nat)
    (sent : ReleasesSent (historyOf (.session n) (run s events).log)) (a : ControlAction)
    (held : a.oneShot = false)
    (last : lastPhase a (historyOf (.session n) (run s events).log) = some .press) :
    StillHeld a ((run s events).residual (.session n)) :=
  stillHeld sent held last

/-- alice walks and aims, and a shot of hers is lost; then the turn passes on, and of the two releases
    that her next message leads to the first has gone out. -/
def oneReleased : List (Task × Choice) :=
  opening ++ pressing .moveLeft ++
    [(.session 0, .go), (.session 0, .incoming (buttonFrame .aimUp .press)), (.session 0, .go),
     (.session 0, .go), (.session 0, .go), (.session 0, .go),
     (.session 0, .incoming (buttonFrame .fire .press)), (.session 0, .go), (.session 0, .go),
     (.session 0, .fail), (.session 0, .go)] ++ arrives 0 (gameOn 1 (some 1)) ++
    [(.session 0, .incoming (buttonFrame .fire .press)), (.session 0, .go), (.session 0, .go),
     (.session 0, .order [.moveLeft, .aimUp]), (.session 0, .go)]

theorem pressed_held_oneReleased : StillHeld .aimUp ((run {} oneReleased).residual (.session 0)) :=
  pressed_held {} oneReleased 0 (by decide +kernel) .aimUp rfl (by decide +kernel)

/-- alice walks and loses the turn; her next message makes `_release_held` send the release, which is
    lost, and she is told that it is not her turn. -/
def releaseLost : List (Task × Choice) :=
  opening ++ pressing .moveLeft ++ [(.session 0, .go)] ++ arrives 0 (gameOn 1 (some 1)) ++
    [(.session 0, .incoming (buttonFrame .fire .press)), (.session 0, .go), (.session 0, .go),
     (.session 0, .order [.moveLeft]), (.session 0, .fail), (.session 0, .go)]

theorem not_held_releaseLost :
    ¬ ∀ (s : Shared) (events : List (Task × Choice)) (n : Nat) (a : ControlAction),
      a.oneShot = false →
      lastPhase a (historyOf (.session n) (run s events).log) = some .press →
      StillHeld a ((run s events).residual (.session n)) := by
  intro always
  have still := always {} releaseLost 0 .moveLeft rfl (by decide +kernel)
  have waits : awaitsMessage ((run {} releaseLost).residual (.session 0)) = true := by decide +kernel
  obtain ⟨u, l, head, same, -⟩ := held_waiting waits
  have forgotten : (localsOf (historyOf (.session 0) (run {} releaseLost).log)).held.actions = [] := by
    decide +kernel
  have member := still.head u l head
  rw [same, forgotten] at member
  exact absurd member List.not_mem_nil

def lastMessage (a : ControlAction) : History Answer → Option ControlPhase
  | [] => none
  | ⟨.receiveJson, frame⟩ :: h =>
    match commandOf frame with
    | some (b, phase) => if b = a then some phase else lastMessage a h
    | none => lastMessage a h
  | _ :: h => lastMessage a h

def Concerns (frame : Incoming) (a : ControlAction) : Prop :=
  (commandOf frame).map Prod.fst = some a

instance (frame : Incoming) (a : ControlAction) : Decidable (Concerns frame a) :=
  inferInstanceAs (Decidable (_ = _))

def lastAnswer (a : ControlAction) : History Answer → Option Reply
  | [] => none
  | ⟨.receiveJson, frame⟩ :: h => if Concerns frame a then none else lastAnswer a h
  | ⟨.sendJson reply, _⟩ :: h =>
    match unanswered h with
    | some frame => if Concerns frame a then some reply else lastAnswer a h
    | none => lastAnswer a h
  | _ :: h => lastAnswer a h

/-- The client still wants `a`, or its release was answered by "game offline". -/
def Wanted (a : ControlAction) (h : History Answer) : Prop :=
  lastMessage a h = some .press ∨ lastAnswer a h = some .gameOffline

def InHand (a : ControlAction) (h : History Answer) : Prop :=
  ∃ frame, unanswered h = some frame ∧ commandOf frame = some (a, .release)

def HeldWanted (h : History Answer) : Prop :=
  ∀ a ∈ (localsOf h).held.actions, Wanted a h ∨ InHand a h

theorem lastMessage_received {frame : Incoming} {a b : ControlAction} {phase : ControlPhase}
    (asks : commandOf frame = some (b, phase)) (h : History Answer) :
    lastMessage a (⟨.receiveJson, frame⟩ :: h) = if b = a then some phase else lastMessage a h := by
  simp only [lastMessage, asks]

theorem lastMessage_other {frame : Incoming} {a : ControlAction} (other : ¬ Concerns frame a)
    (h : History Answer) : lastMessage a (⟨.receiveJson, frame⟩ :: h) = lastMessage a h := by
  cases asks : commandOf frame with
  | none => simp only [lastMessage, asks]
  | some command =>
    rw [lastMessage_received asks]
    exact if_neg fun same => other (by simp [Concerns, asks, same])

theorem Wanted.received {a : ControlAction} {h : History Answer} {frame : Incoming}
    (wanted : Wanted a h) :
    Wanted a (⟨.receiveJson, frame⟩ :: h) ∨ InHand a (⟨.receiveJson, frame⟩ :: h) := by
  by_cases concerns : Concerns frame a
  · obtain ⟨⟨b, phase⟩, asks, rfl⟩ := Option.map_eq_some_iff.mp concerns
    cases phase with
    | press =>
      left
      left
      rw [lastMessage_received asks]
      exact if_pos rfl
    | release =>
      right
      exact ⟨frame, rfl, asks⟩
  · left
    rw [Wanted, lastMessage_other concerns]
    simp only [lastAnswer, concerns, if_false]
    exact wanted

theorem lastMessage_inHand {a : ControlAction} {phase : ControlPhase} {frame : Incoming}
    {h : History Answer} (hand : unanswered h = some frame)
    (asks : commandOf frame = some (a, phase)) : lastMessage a h = some phase := by
  induction h with
  | nil => cases hand
  | cons s h ih =>
    rcases s with ⟨e, r⟩
    cases e with
    | receiveJson =>
      cases hand
      rw [lastMessage_received asks, if_pos rfl]
    | sendJson reply => cases hand
    | _ => exact ih hand

theorem lastAnswer_inHand {a : ControlAction} {frame : Incoming} {h : History Answer}
    (hand : unanswered h = some frame) (concerns : Concerns frame a) : lastAnswer a h = none := by
  induction h with
  | nil => cases hand
  | cons s h ih =>
    rcases s with ⟨e, r⟩
    cases e with
    | receiveJson =>
      cases hand
      exact if_pos concerns
    | sendJson reply => cases hand
    | _ => exact ih hand

theorem lastAnswer_answered {a : ControlAction} {frame : Incoming} {h : History Answer}
    (hand : unanswered h = some frame) (reply : Reply) (there : Bool) :
    lastAnswer a (⟨.sendJson reply, there⟩ :: h) =
      if Concerns frame a then some reply else lastAnswer a h := by
  simp only [lastAnswer, hand]

theorem offline_of_answers {h : History Answer} {frame : Incoming} {reply : Reply}
    {a : ControlAction} (answers : Answers h frame reply)
    (asks : commandOf frame = some (a, .release)) (member : a ∈ (localsOf h).held.actions)
    (held : a.oneShot = false) : reply = .gameOffline := by
  cases reply with
  | gameOffline => rfl
  | unknownAction raw => cases asks.symm.trans answers
  | unknownPhase raw => cases asks.symm.trans answers
  | notYourTurn turnTeam =>
    rw [show (localsOf h).held.actions = [] from answers] at member
    exact absurd member List.not_mem_nil
  | ok action phase =>
    obtain ⟨same, cmd, older, rfl, idle, rfl, rfl⟩ := answers
    obtain ⟨rfl, release⟩ := Prod.mk.inj (Option.some.inj (asks.symm.trans same))
    rw [locals_forward idle] at member
    rcases Held.mem_of_track member with ⟨-, oneShot⟩ | ⟨press, -⟩
    · rw [oneShot rfl] at held
      cases held
    · rw [press] at release
      cases release

theorem HeldWanted.answered {h : History Answer} (before : HeldWanted h)
    (noOneShot : ∀ a ∈ (localsOf h).held.actions, a.oneShot = false) {frame : Incoming}
    {reply : Reply} (hand : unanswered h = some frame) (answers : Answers h frame reply)
    (there : Bool) : HeldWanted (⟨.sendJson reply, there⟩ :: h) := by
  intro a member
  left
  rcases before a member with (press | struck) | ⟨frame', same, asks⟩
  · exact .inl press
  · right
    rw [lastAnswer_answered hand]
    by_cases concerns : Concerns frame a
    · rw [lastAnswer_inHand hand concerns] at struck
      cases struck
    · rw [if_neg concerns]
      exact struck
  · right
    cases hand.symm.trans same
    have concerns : Concerns frame a := by simp [Concerns, asks]
    rw [lastAnswer_answered hand, if_pos concerns,
      offline_of_answers answers asks member (noOneShot a member)]

theorem HeldWanted.keeps {s : Step Answer} {h : History Answer} (before : HeldWanted h)
    (held : ∀ a ∈ (localsOf (s :: h)).held.actions, a ∈ (localsOf h).held.actions)
    (message : ∀ a, lastMessage a (s :: h) = lastMessage a h)
    (answer : ∀ a, lastAnswer a (s :: h) = lastAnswer a h)
    (hand : unanswered (s :: h) = unanswered h) : HeldWanted (s :: h) := by
  intro a member
  rw [Wanted, InHand, message, answer, hand]
  exact before a (held a member)

theorem HeldWanted.forward {h : History Answer} (before : HeldWanted h) {cmd : CommandMessage}
    (idle : (localsOf h).releasing = []) (gated : Gated h cmd) :
    HeldWanted (⟨.sendCommand cmd, true⟩ :: h) := by
  intro a member
  rw [locals_forward idle] at member
  rcases Held.mem_of_track member with ⟨old, -⟩ | ⟨press, rfl, -⟩
  · exact before a old
  · obtain ⟨frame, hand, asks⟩ := gated.asked
    rw [press] at asks
    exact .inl (.inl (lastMessage_inHand hand asks))

theorem HeldWanted.step {s : Step Answer} {h : History Answer} (before : HeldWanted h)
    (noOneShot : ∀ a ∈ (localsOf h).held.actions, a.oneShot = false)
    (permitted : heldPermits h s.1) : HeldWanted (s :: h) := by
  have does := locals_step permitted
  rcases s with ⟨e, r⟩
  cases e with
  | receiveJson =>
    intro a member
    rcases before a member with wanted | ⟨frame, hand, -⟩
    · exact wanted.received
    · cases hand.symm.trans permitted
  | sendJson reply =>
    obtain ⟨-, frame, hand, answers⟩ := permitted
    exact before.answered noOneShot hand answers r
  | sendCommand cmd =>
    cases does with
    | forwards idle gated => exact before.forward idle gated
    | visits written looping onTeam =>
      refine before.keeps ?_ (fun _ => rfl) (fun _ => rfl) rfl
      intro a member
      rw [locals_visit looping] at member
      exact Locals.mem_of_visit member
    | keeps quiet held releasing =>
      exact before.keeps (fun a member => held ▸ member) (fun _ => rfl) (fun _ => rfl) rfl
  | iterate held =>
    exact before.keeps (fun a => Locals.mem_of_visit) (fun _ => rfl) (fun _ => rfl) rfl
  | _ => exact before

theorem heldWanted {h : History Answer} (permitted : Program.Permitted heldPermits h) :
    HeldWanted h := by
  induction permitted with
  | nil => exact fun a member => absurd member List.not_mem_nil
  | cons newest older ih => exact ih.step (held_noOneShot older) newest

def answeredOk : History Answer → Bool
  | ⟨.sendJson reply, _⟩ :: _ => reply.isOk
  | _ => false

theorem unanswered_of_ok {h : History Answer} (ok : answeredOk h = true) : unanswered h = none := by
  cases h with
  | nil => rfl
  | cons s h =>
    rcases s with ⟨e, r⟩
    cases e with
    | sendJson reply => rfl
    | _ => cases ok

/-- As long as every release of `_release_held` goes out: after an `ok`, an action that is still
    pressed although the client has released it is one whose release was answered by
    "game offline", and it is in `held`. -/
theorem release_struck (s : Shared) (events : List (Task × Choice)) (n : Nat)
    (ok : answeredOk (historyOf (.session n) (run s events).log) = true)
    (sent : ReleasesSent (historyOf (.session n) (run s events).log)) (a : ControlAction)
    (held : a.oneShot = false)
    (released : lastMessage a (historyOf (.session n) (run s events).log) = some .release)
    (last : lastPhase a (historyOf (.session n) (run s events).log) = some .press) :
    lastAnswer a (historyOf (.session n) (run s events).log) = some .gameOffline ∧
      a ∈ (localsOf (historyOf (.session n) (run s events).log)).held.actions ∧
      StillHeld a ((run s events).residual (.session n)) := by
  have member := (remembered sent a held last).1
  refine ⟨?_, member, stillHeld sent held last⟩
  rcases heldWanted (session_permitted s events n) a member with (press | struck) | ⟨frame, hand, -⟩
  · cases released.symm.trans press
  · exact struck
  · rw [unanswered_of_ok ok] at hand
    cases hand

def releaseStruck : List (Task × Choice) :=
  opening ++ pressing .moveLeft ++ [(.session 0, .go)] ++ drops ++
    [(.session 0, .incoming (buttonFrame .moveLeft .release)), (.session 0, .go),
     (.session 0, .go)] ++ connects ++ arrives 0 (gameOn 1 (some 0)) ++
    [(.session 0, .incoming (buttonFrame .moveRight .press)), (.session 0, .go), (.session 0, .go),
     (.session 0, .go), (.session 0, .go)]

theorem release_struck_moveLeft :
    lastAnswer .moveLeft (historyOf (.session 0) (run {} releaseStruck).log) = some .gameOffline ∧
      .moveLeft ∈ (localsOf (historyOf (.session 0) (run {} releaseStruck).log)).held.actions ∧
      StillHeld .moveLeft ((run {} releaseStruck).residual (.session 0)) :=
  release_struck {} releaseStruck 0 (by decide +kernel) (by decide +kernel) .moveLeft rfl
    (by decide +kernel) (by decide +kernel)

theorem not_released_after_ok :
    ¬ ∀ (s : Shared) (events : List (Task × Choice)) (n : Nat),
      answeredOk (historyOf (.session n) (run s events).log) = true →
      ∀ a : ControlAction, a.oneShot = false →
        lastMessage a (historyOf (.session n) (run s events).log) = some .release →
        lastPhase a (historyOf (.session n) (run s events).log) ≠ some .press := by
  intro always
  exact always {} releaseStruck 0 (by decide +kernel) .moveLeft rfl (by decide +kernel)
    (by decide +kernel)

end WebControl.Backend
