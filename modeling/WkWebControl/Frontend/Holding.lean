import WkWebControl.Backend.AutoRelease
import WkWebControl.Backend.Outages
import WkWebControl.Frontend.ControlPage

open Effects WebControl.Backend

namespace WebControl.Frontend

def ControlMessage.frame (message : ControlMessage) : Incoming :=
  .json (.obj [("action", .str message.action.value), ("phase", .str message.phase.value),
    ("value", .int message.value)])

def received : History Answer → List Incoming
  | [] => []
  | ⟨.receiveJson, frame⟩ :: h => received h ++ [frame]
  | _ :: h => received h

theorem commandOf_frame (message : ControlMessage) :
    commandOf message.frame = some (message.action, message.phase) := by
  obtain ⟨action, phase, value⟩ := message
  cases action <;> cases phase <;> rfl

theorem lastMessage_received_eq (a : ControlAction) (h : History Answer) :
    lastMessage a h =
      ((((received h).filterMap commandOf).filter fun c => c.1 = a).map Prod.snd).getLast? := by
  induction h with
  | nil => rfl
  | cons s h ih =>
    rcases s with ⟨e, r⟩
    cases e with
    | receiveJson =>
      rw [received, List.filterMap_append, List.filter_append, List.map_append]
      cases asks : commandOf r with
      | none => simp [lastMessage, asks, ih]
      | some command =>
        rw [lastMessage_received asks]
        by_cases own : command.1 = a
        · simp [asks, own]
        · simp [asks, own, ih]
    | _ => exact ih

theorem phases_eq (p : Page) (a : ControlAction) :
    p.phases a = (((p.sent.map ControlMessage.frame).filterMap commandOf).filter
      fun c => c.1 = a).map Prod.snd := by
  rw [List.filterMap_map, Page.phases]
  have commands : commandOf ∘ ControlMessage.frame =
      some ∘ fun message => (message.action, message.phase) := funext commandOf_frame
  rw [commands, List.filterMap_eq_map, List.filter_map, List.map_map]
  rfl

theorem lastMessage_of_received {p : Page} {h : History Answer}
    (processed : received h = p.sent.map ControlMessage.frame) (a : ControlAction) :
    lastMessage a h = (p.phases a).getLast? := by
  rw [lastMessage_received_eq, processed, phases_eq]

theorem lastAnswer_online {h : History Answer} (permitted : Program.Permitted heldPermits h)
    (online : Online h) (a : ControlAction) : lastAnswer a h ≠ some .gameOffline := by
  induction permitted with
  | nil =>
    intro struck
    cases struck
  | @cons s h newest older ih =>
    rcases s with ⟨e, r⟩
    cases e with
    | receiveJson =>
      simp only [lastAnswer]
      split
      · intro struck
        cases struck
      · exact ih online.tail
    | sendJson reply =>
      obtain ⟨-, frame, hand, answers⟩ := newest
      rw [lastAnswer_answered hand]
      split
      · intro struck
        cases struck
        obtain ⟨s, older, rfl, raised⟩ := answers
        rw [online.tail s List.mem_cons_self] at raised
        cases raised
      · exact ih online.tail
    | _ => exact ih online.tail

theorem releasesSent_of_online {h : History Answer} (online : Online h) : ReleasesSent h := by
  induction h with
  | nil => exact .nil
  | cons s h ih =>
    refine .cons (fun raised => ?_) (ih online.tail)
    rw [online s List.mem_cons_self] at raised
    cases raised

theorem held_onPage {s : Shared} {events : List (Task × Choice)} {n : Nat} {p : Page}
    (fits : ∀ a, a.oneShot = false → p.Fits a)
    (waits : unanswered (historyOf (.session n) (run s events).log) = none)
    (online : Online (historyOf (.session n) (run s events).log))
    (processed : received (historyOf (.session n) (run s events).log) =
      p.sent.map ControlMessage.frame)
    (a : ControlAction)
    (member : a ∈ (localsOf (historyOf (.session n) (run s events).log)).held.actions) :
    a ∈ p.heldRef := by
  have permitted := session_permitted s events n
  have held := held_noOneShot permitted a member
  have pressed : lastMessage a (historyOf (.session n) (run s events).log) = some .press := by
    rcases heldWanted permitted a member with (press | struck) | ⟨frame, hand, -⟩
    · exact press
    · exact absurd struck (lastAnswer_online permitted online a)
    · cases waits.symm.trans hand
  rw [lastMessage_of_received processed] at pressed
  exact ((fits a held).pressed.mp pressed).2

theorem newestFrame_of_received {h : History Answer} {frames : List Incoming} {frame : Incoming}
    (eq : received h = frames ++ [frame]) : newestFrame h = some frame := by
  induction h with
  | nil => simp [received] at eq
  | cons s h ih =>
    rcases s with ⟨e, r⟩
    cases e with
    | receiveJson =>
      rw [received] at eq
      obtain ⟨-, last⟩ := List.append_inj' eq rfl
      rw [newestFrame, (List.cons.inj last).1]
    | _ => exact ih eq

/-- The page sends the presses and releases of a button in turn. However the backend goes on
    meanwhile, a session that has received them all while the transport was online holds no more
    than the page, and no more is pressed in the game; and once the socket is closed, nothing is. -/
theorem page_session_agree (pageEvents : List PageEvent) :
    (∀ button : HoldButton, Alternates ((Page.run pageEvents).phases button.val)) ∧
    ∀ (s : Shared) (events : List (Task × Choice)) (n : Nat),
      Online (historyOf (.session n) (run s events).log) →
      (received (historyOf (.session n) (run s events).log) =
          (Page.run pageEvents).sent.map ControlMessage.frame →
        awaitsMessage ((run s events).residual (.session n)) = true →
        ∃ u l, (run s events).residual (.session n) = control u l ∧
          (∀ a ∈ l.actions, a ∈ (Page.run pageEvents).heldRef) ∧
          ∀ a, a.oneShot = false →
            lastPhase a (historyOf (.session n) (run s events).log) = some .press →
            a ∈ (Page.run pageEvents).heldRef) ∧
      (received (historyOf (.session n) (run s events).log) =
          (Page.run pageEvents).sent.map ControlMessage.frame ++ [.disconnect] →
        ∀ flow, ((run s events).residual (.session n)).result? = some flow →
          ∀ a, a.oneShot = false →
            lastPhase a (historyOf (.session n) (run s events).log) ≠ some .press) := by
  have fits := fun (a : ControlAction) held => Page.fits_run (b := a) held pageEvents
  refine ⟨fun button => (fits _ ((mem_holdButtons _).mp button.property)).alternates, ?_⟩
  intro s events n online
  constructor
  · intro processed waits
    obtain ⟨u, l, head, rfl, idle⟩ := held_waiting waits
    have onPage := held_onPage fits idle online processed
    refine ⟨u, _, head, onPage, fun a held last => onPage a ?_⟩
    exact (remembered (releasesSent_of_online online) a held last).1
  · intro processed flow ended
    have done := session_post ended
    rcases session_ended ended with rfl | ⟨l, rfl⟩
    · exact done online
    · obtain ⟨frame, newest, raises⟩ := done.2
      rw [newestFrame_of_received processed] at newest
      cases newest
      exact raises.elim

def walking : List (Task × Choice) :=
  opening ++ [(.session 0, .user alice),
    (.session 0, .incoming (ControlMessage.frame ⟨.moveLeft, .press, 0⟩)), (.session 0, .go),
    (.session 0, .go), (.session 0, .go), (.session 0, .go)]

def ControlMessage.isSentAs (message : ControlMessage) : Incoming → Bool
  | .json (.obj [(first, .str action), (second, .str phase), (third, .int value)]) =>
    first = "action" ∧ action = message.action.value ∧ second = "phase" ∧
      phase = message.phase.value ∧ third = "value" ∧ value = message.value
  | _ => false

theorem frame_of_isSentAs {message : ControlMessage} {frame : Incoming}
    (sent : message.isSentAs frame = true) : frame = message.frame := by
  unfold ControlMessage.isSentAs at sent
  split at sent
  · obtain ⟨rfl, rfl, rfl, rfl, rfl, rfl⟩ := of_decide_eq_true sent
    rfl
  · cases sent

theorem received_walking : received (historyOf (.session 0) (run {} walking).log) =
    [ControlMessage.frame ⟨.moveLeft, .press, 0⟩] := by
  obtain ⟨frame, only⟩ := List.length_eq_one_iff.mp
    (show (received (historyOf (.session 0) (run {} walking).log)).length = 1 by decide +kernel)
  have sent : (received (historyOf (.session 0) (run {} walking).log)).all
      (ControlMessage.isSentAs ⟨.moveLeft, .press, 0⟩) = true := by decide +kernel
  rw [only, List.all_cons, List.all_nil, Bool.and_true] at sent
  rw [only, frame_of_isSentAs sent]

theorem page_session_agree_walking :
    ∃ u l, (run {} walking).residual (.session 0) = control u l ∧
      (∀ a ∈ l.actions, a ∈ (Page.run [.pointerDown ⟨.moveLeft, by decide⟩]).heldRef) ∧
      ∀ a, a.oneShot = false →
        lastPhase a (historyOf (.session 0) (run {} walking).log) = some .press →
        a ∈ (Page.run [.pointerDown ⟨.moveLeft, by decide⟩]).heldRef :=
  ((page_session_agree [.pointerDown ⟨.moveLeft, by decide⟩]).2 {} walking 0
    (by decide +kernel)).1 received_walking (by decide +kernel)

end WebControl.Frontend
