import WkWebControl.Link.Dispatch
import WkWebControl.Link.Replies

open Effects WebControl
open WebControl.Dll (ControlAction ControlPhase ControlState TaskMessage)

namespace WebControl.Link

theorem currentInput_append {h g : History Answer} {state : ControlState} {was : Bool}
    (fresh : (∃ c, (⟨.nextCall, c⟩ : Step Answer) ∈ h) ∨ currentInput g = none)
    (input : currentInput (h ++ g) = some (state, was)) :
    ∃ later sooner, h = later ++ ⟨.readControl, state⟩ :: sooner ∧ was = wasFiring (sooner ++ g) ∧
      ∀ c, (⟨.nextCall, c⟩ : Step Answer) ∉ later := by
  induction h with
  | nil =>
    rcases fresh with ⟨c, member⟩ | none_
    · cases member
    · rw [List.nil_append, none_] at input
      cases input
  | cons s h ih =>
    rcases s with ⟨e, r⟩
    have further (other : e ≠ .nextCall) (same : currentInput (⟨e, r⟩ :: (h ++ g)) = currentInput (h ++ g)) :
        ∃ later sooner, (⟨e, r⟩ : Step Answer) :: h = later ++ ⟨.readControl, state⟩ :: sooner ∧
          was = wasFiring (sooner ++ g) ∧ ∀ c, (⟨.nextCall, c⟩ : Step Answer) ∉ later := by
      have fresh' : (∃ c, (⟨.nextCall, c⟩ : Step Answer) ∈ h) ∨ currentInput g = none := by
        refine fresh.imp_left fun ⟨c, member⟩ => ⟨c, ?_⟩
        rcases List.mem_cons.mp member with same | member
        · exact absurd (congrArg Sigma.fst same).symm other
        · exact member
      rw [List.cons_append, same] at input
      obtain ⟨later, sooner, rfl, before, quiet⟩ := ih fresh' input
      refine ⟨⟨e, r⟩ :: later, sooner, rfl, before, fun c member => ?_⟩
      rcases List.mem_cons.mp member with same | member
      · exact other (congrArg Sigma.fst same).symm
      · exact quiet c member
    cases e with
    | readControl =>
      obtain ⟨rfl, rfl⟩ := Prod.mk.inj (Option.some.inj input)
      exact ⟨[], h, rfl, rfl, fun _ member => absurd member List.not_mem_nil⟩
    | nextCall => cases input
    | _ => exact further (by simp) rfl

theorem wasFiring_append {h g : History Answer} (firing : wasFiring (h ++ g) = true)
    (not : wasFiring g = false) :
    ∃ later state sooner, h = later ++ ⟨.readControl, state⟩ :: sooner ∧
      ControlState.firing state = true := by
  induction h with
  | nil =>
    rw [List.nil_append, not] at firing
    cases firing
  | cons s h ih =>
    rcases s with ⟨e, r⟩
    have further (same : wasFiring (⟨e, r⟩ :: (h ++ g)) = wasFiring (h ++ g)) :
        ∃ later state sooner, (⟨e, r⟩ : Step Answer) :: h = later ++ ⟨.readControl, state⟩ :: sooner ∧
          ControlState.firing state = true := by
      rw [List.cons_append, same] at firing
      obtain ⟨later, state, sooner, rfl, on⟩ := ih firing
      exact ⟨⟨e, r⟩ :: later, state, sooner, rfl, on⟩
    cases e with
    | readControl => exact ⟨[], r, h, rfl, firing⟩
    | clearControl => cases firing
    | _ => exact further rfl

/-- The last thing `log` says about action `a` is that a press of it was received; since then the
    input state has asked for `a`. What comes before `log` is `older`. -/
def PressedLast (codec : Codec) (a : ControlAction) (log older : Log) : Prop :=
  ∃ since p before value, log = since ++ p :: before ∧ p.thread = .ipc ∧
    p.step = ⟨.applyControl a .press value, ()⟩ ∧
    Received codec (historyOf .ipc (before ++ older)) a .press value ∧
    ∀ y ∈ since, y.before.control.asks a = true ∧ y.after.control.asks a = true

variable {codec : Codec} {events : List (Task × Choice)}

theorem pressedLast_of_asks {newer log older : Log} {a : ControlAction} {first last : Shared}
    (split : (run codec events).log = newer ++ (log ++ older)) (leads : Leads first log last)
    (off : ¬ first.control.asks a = true) (on : last.control.asks a = true) :
    PressedLast codec a log older := by
  obtain ⟨since, p, before, rfl, was, is, asks⟩ :=
    leads.onset (Q := fun s => s.control.asks a = true) off on
  have at_p : (run codec events).log = (newer ++ since) ++ p :: (before ++ older) := by
    rw [split]
    simp
  have entry := (inputContract codec).run_entry {} events at_p
  obtain ⟨value, effect⟩ := (answered_replies entry.1 rfl).asks was is
  rcases p with ⟨thread, effect', reply, _, _⟩
  cases effect
  have permitted := entry.2
  cases thread with
  | ipc => exact ⟨since, _, before, value, rfl, rfl, rfl, permitted, asks⟩
  | game => exact permitted.elim
  | reader => exact permitted.elim

theorem read_state {newer older : Log} {r : Entry Task Answer Shared} {state : ControlState}
    (split : (run codec events).log = newer ++ r :: older) (read : r.step = ⟨.readControl, state⟩) :
    r.before.control = state := by
  have entry := (inputContract codec).run_entry {} events split
  exact (answered_replies entry.1 read).1.symm

theorem dispatch_due {newer older : Log} {d : Entry Task Answer Shared} {m : TaskMessage}
    {payload : Int} (split : (run codec events).log = newer ++ d :: older)
    (dispatched : d.effect = .dispatch m payload) :
    d.thread = .game ∧ ∃ state was, currentInput (historyOf .game older) = some (state, was) ∧
      Due state was m ∧
      (m = .selectWeapon → ∃ team, turnSeen (historyOf .game older) = some team ∧ 0 ≤ team) := by
  have permitted := ((inputContract codec).run_entry {} events split).2
  rcases d with ⟨thread, effect, reply, _, _⟩
  cases dispatched
  cases thread with
  | game => exact ⟨rfl, permitted⟩
  | ipc => exact permitted.elim
  | reader => exact permitted.elim

theorem leads_part {newer log older : Log} (split : (run codec events).log = newer ++ (log ++ older)) :
    ∃ first last, Leads {} older first ∧ Leads first log last := by
  have leads := (system codec).run_leads {} events
  change Leads {} (run codec events).log _ at leads
  rw [split] at leads
  obtain ⟨last, leads, _⟩ := leads.split
  obtain ⟨first, before, part⟩ := leads.split
  exact ⟨first, last, before, part⟩

theorem pressedLast_of_read {newer log older : Log} {a : ControlAction} {state : ControlState}
    {h₁ h₂ : History Answer} (split : (run codec events).log = newer ++ (log ++ older))
    (history : historyOf .game log = h₁ ++ ⟨.readControl, state⟩ :: h₂)
    (asked : state.asks a = true)
    (off : ∀ first, Leads {} older first → ¬ first.control.asks a = true) :
    ∃ since r before, log = since ++ r :: before ∧ r.thread = .game ∧
      r.step = ⟨.readControl, state⟩ ∧ historyOf .game since = h₁ ∧
      PressedLast codec a before older := by
  obtain ⟨since, r, before, rfl, own, step, later, _⟩ := split_of_historyOf history
  have at_read : (run codec events).log = (newer ++ since) ++ r :: (before ++ older) := by
    rw [split]
    simp
  obtain ⟨first, last, leads, part⟩ := leads_part split
  obtain ⟨middle, part, rest⟩ := part.split
  have to_read : (run codec events).log = (newer ++ since ++ [r]) ++ (before ++ older) := by
    rw [at_read]
    simp
  refine ⟨since, r, before, rfl, own, step, later, ?_⟩
  apply pressedLast_of_asks to_read part.2 (off first leads)
  rw [read_state at_read step]
  exact asked

/-- Behind every input message there is a press: in the frame it is dispatched in, the input that was
    read asked for its action, and the last that had been received about that action was a press.
    A weapon is selected only with a team on turn. -/
theorem dispatch_pressed {newer older : Log} {d : Entry Task Answer Shared} {m : TaskMessage}
    {payload : Int} {a : ControlAction} (split : (run codec events).log = newer ++ d :: older)
    (dispatched : d.effect = .dispatch m payload) (request : requests m = some a) :
    (∃ since r before state, older = since ++ r :: before ∧ r.thread = .game ∧
      r.step = ⟨.readControl, state⟩ ∧ state.asks a = true ∧
      (∀ c, (⟨.nextCall, c⟩ : Step Answer) ∉ historyOf .game since) ∧
      PressedLast codec a before []) ∧
    (m = .selectWeapon → ∃ team, turnSeen (historyOf .game older) = some team ∧ 0 ≤ team) := by
  obtain ⟨_, state, was, input, due, turn⟩ := dispatch_due split dispatched
  refine ⟨?_, turn⟩
  rw [← List.append_nil (historyOf .game older)] at input
  obtain ⟨later, sooner, history, _, quiet⟩ := currentInput_append (.inr rfl) input
  have whole : (run codec events).log = (newer ++ [d]) ++ (older ++ []) := by
    rw [split]
    simp
  obtain ⟨since, r, before, eq, own, read, same, pressed⟩ :=
    pressedLast_of_read whole history (due.asks request) fun first leads => by
      rw [show first = {} from leads]
      simp
  exact ⟨since, r, before, state, eq, own, read, due.asks request, same ▸ quiet, pressed⟩

def dispatched? (x : Entry Task Answer Shared) : Option (TaskMessage × Int) :=
  match x.effect with
  | .dispatch m payload => some (m, payload)
  | _ => none

theorem effect_of_dispatched {x : Entry Task Answer Shared} {m : TaskMessage} {payload : Int}
    (dispatched : dispatched? x = some (m, payload)) : x.effect = .dispatch m payload := by
  unfold dispatched? at dispatched
  split at dispatched
  · rename_i effect
    cases dispatched
    exact effect
  · cases dispatched

/-- alice's backend asks for team 0 to walk while team 1 is on turn. -/
def wrongTeam : List (Task × Choice) :=
  initialises ++ constructs ++ startsTurn 1 ++ joins ++ receives pressLeft ++ frames ++ dispatches

theorem dispatch_pressed_wrongTeam :
    ∃ d older, (run sampleCodec wrongTeam).log = d :: older ∧ d.effect = .dispatch .moveLeft 1 ∧
      ∃ since r before state, older = since ++ r :: before ∧ r.thread = .game ∧
        r.step = ⟨.readControl, state⟩ ∧ state.asks .moveLeft = true ∧
        (∀ c, (⟨.nextCall, c⟩ : Step Answer) ∉ historyOf .game since) ∧
        PressedLast sampleCodec .moveLeft before [] := by
  obtain ⟨d, older, eq⟩ := List.exists_cons_of_ne_nil (l := (run sampleCodec wrongTeam).log)
    (by decide +kernel)
  have dispatched : (run sampleCodec wrongTeam).log.head?.bind dispatched? = some (.moveLeft, 1) := by
    decide +kernel
  rw [eq] at dispatched
  exact ⟨d, older, eq, effect_of_dispatched dispatched,
    (dispatch_pressed (show _ = [] ++ d :: older from eq) (effect_of_dispatched dispatched) rfl).1⟩

def RequestedFor (codec : Codec) (log : Log) (a : ControlAction) (team : Int) : Prop :=
  ∃ since p before value line fields, log = since ++ p :: before ∧
    p.step = ⟨.applyControl a .press value, ()⟩ ∧
    line ∈ (Lines.split newline (streamed (historyOf .ipc before))).1 ∧
    codec.parse line = some (.obj fields) ∧ Json.field? fields "team" = some (.str (toString team))

def linesBehind : Log → List (List (List UInt8))
  | [] => []
  | x :: log =>
    match x.effect with
    | .applyControl _ _ _ =>
      (Lines.split newline (streamed (historyOf .ipc log))).1 :: linesBehind log
    | _ => linesBehind log

theorem RequestedFor.behind {codec : Codec} {log : Log} {a : ControlAction} {team : Int}
    (requested : RequestedFor codec log a team) :
    ∃ lines ∈ linesBehind log, ∃ line ∈ lines, ∃ fields, codec.parse line = some (.obj fields) ∧
      Json.field? fields "team" = some (.str (toString team)) := by
  obtain ⟨since, p, before, value, line, fields, rfl, step, received, parsed, named⟩ := requested
  induction since with
  | nil =>
    refine ⟨_, ?_, line, received, fields, parsed, named⟩
    rcases p with ⟨thread, effect, reply, _, _⟩
    cases step
    exact List.mem_cons_self
  | cons x since ih =>
    obtain ⟨lines, member, rest⟩ := ih
    refine ⟨lines, ?_, rest⟩
    rw [List.cons_append, linesBehind]
    split
    · exact List.mem_cons_of_mem _ member
    · exact member

def betweenTurns : List (Task × Choice) :=
  initialises ++ constructs ++ joins ++ receives pressLeft ++ frames ++ dispatches

/-- The plugin looks neither at the `team` of a command nor at the turn: a press for team 0 makes the
    worm of team 1 walk, and goes out while no team is on turn. -/
theorem dispatch_for_wrong_team :
    (¬ ∀ (codec : Codec) (events : List (Task × Choice)) (newer : Log) (d : Entry Task Answer Shared)
      (older : Log) (m : TaskMessage) (payload : Int) (a : ControlAction),
      (run codec events).log = newer ++ d :: older → d.effect = .dispatch m payload →
      requests m = some a →
      0 ≤ d.before.currentTurnTeam ∧ RequestedFor codec older a d.before.currentTurnTeam) ∧
    ¬ ∀ (codec : Codec) (events : List (Task × Choice)) (newer : Log) (d : Entry Task Answer Shared)
      (older : Log) (m : TaskMessage) (payload : Int) (a : ControlAction),
      (run codec events).log = newer ++ d :: older → d.effect = .dispatch m payload →
      requests m = some a → 0 ≤ d.before.currentTurnTeam := by
  constructor
  · intro always
    have claim := always sampleCodec wrongTeam
    have dispatched : (run sampleCodec wrongTeam).log.head?.bind dispatched? = some (.moveLeft, 1) := by
      decide +kernel
    have turn : (run sampleCodec wrongTeam).log.head?.map (·.before.currentTurnTeam) = some 1 := by
      decide +kernel
    have lines : linesBehind (run sampleCodec wrongTeam).log.tail = [[compact pressLeft.modelDump]] := by
      decide +kernel
    generalize (run sampleCodec wrongTeam).log = log at claim dispatched turn lines
    cases log with
    | nil => cases dispatched
    | cons d older =>
      have requested := (claim [] d older _ _ _ rfl (effect_of_dispatched dispatched) rfl).2.behind
      have team : d.before.currentTurnTeam = 1 := Option.some.inj turn
      rw [team] at requested
      rw [List.tail_cons] at lines
      rw [lines] at requested
      obtain ⟨_, single, line, only, fields, parsed, named⟩ := requested
      rw [List.mem_singleton.mp single] at only
      rw [List.mem_singleton.mp only] at parsed
      have read : sampleCodec.parse (compact pressLeft.modelDump) = some pressLeft.modelDump :=
        List.find?_cons_of_pos (p := fun j => compact j == compact pressLeft.modelDump)
          (l := [releaseLeft.modelDump]) (beq_self_eq_true _)
      cases read.symm.trans parsed
      have zero : some (Json.str "0") = some (Json.str (toString (1 : Int))) := named
      exact absurd (Json.str.inj (Option.some.inj zero)) (by decide +kernel)
  · intro always
    have claim := always sampleCodec betweenTurns
    have dispatched : (run sampleCodec betweenTurns).log.head?.bind dispatched? = some (.moveLeft, 0) := by
      decide +kernel
    have turn : (run sampleCodec betweenTurns).log.head?.map (·.before.currentTurnTeam) = some (-1) := by
      decide +kernel
    generalize (run sampleCodec betweenTurns).log = log at claim dispatched turn
    cases log with
    | nil => cases dispatched
    | cons d older =>
      have onTurn := claim [] d older _ _ _ rfl (effect_of_dispatched dispatched) rfl
      rw [show d.before.currentTurnTeam = -1 from Option.some.inj turn] at onTurn
      exact absurd onTurn (by decide)

end WebControl.Link
