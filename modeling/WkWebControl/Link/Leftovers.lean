import WkWebControl.Link.Input

open Effects WebControl
open WebControl.Dll (ControlAction ControlPhase ControlState TaskMessage)

namespace WebControl.Link

variable {codec : Codec} {events : List (Task × Choice)}

/-- The messages that are dispatched for an action, the release of a shot included. -/
def Serves (m : TaskMessage) (a : ControlAction) : Prop :=
  requests m = some a ∨ m = .releaseWeapon ∧ a = .fire

theorem leads_before {newer older : Log} {x : Entry Task Answer Shared} {first : Shared}
    (split : (run codec events).log = newer ++ x :: older) (leads : Leads {} older first) :
    first = x.before := by
  have whole := (system codec).run_leads {} events
  change Leads {} (run codec events).log _ at whole
  rw [split] at whole
  obtain ⟨_, before, _⟩ := whole.split
  exact leads.unique before.2

theorem asked_since {h g : History Answer} {state : ControlState} {was : Bool} {m : TaskMessage}
    {a : ControlAction} (begun : ∃ c, (⟨.nextCall, c⟩ : Step Answer) ∈ h)
    (input : currentInput (h ++ g) = some (state, was)) (due : Due state was m) (serves : Serves m a)
    (still : m = .releaseWeapon → wasFiring g = false) :
    ∃ later asked sooner, h = later ++ ⟨.readControl, asked⟩ :: sooner ∧
      ControlState.asks asked a = true := by
  obtain ⟨later, sooner, rfl, rfl, _⟩ := currentInput_append (.inl begun) input
  rcases serves with request | ⟨rfl, rfl⟩
  · exact ⟨later, state, sooner, rfl, due.asks request⟩
  · obtain ⟨last, asked, sooner, rfl, firing⟩ := wasFiring_append due.2 (still rfl)
    exact ⟨later ++ ⟨.readControl, state⟩ :: last, asked, sooner, by simp, firing⟩

theorem pressed_since {newer between older : Log} {d b : Entry Task Answer Shared} {m : TaskMessage}
    {payload : Int} {a : ControlAction}
    (split : (run codec events).log = newer ++ d :: (between ++ b :: older))
    (dispatched : d.effect = .dispatch m payload) (serves : Serves m a)
    (begun : ∃ c, (⟨.nextCall, c⟩ : Step Answer) ∈ historyOf .game (between ++ [b]))
    (off : ¬ b.before.control.asks a = true)
    (still : m = .releaseWeapon → wasFiring (historyOf .game older) = false) :
    ∃ since r before, between ++ [b] = since ++ r :: before ∧ PressedLast codec a before older := by
  obtain ⟨_, state, was, input, due, _⟩ := dispatch_due split dispatched
  have whole : between ++ b :: older = (between ++ [b]) ++ older := by simp
  rw [whole, historyOf_append] at input
  obtain ⟨later, asked, sooner, history, asks⟩ := asked_since begun input due serves still
  have at_b : (run codec events).log = (newer ++ d :: between) ++ b :: older := by
    rw [split]
    simp
  have to_d : (run codec events).log = (newer ++ [d]) ++ ((between ++ [b]) ++ older) := by
    rw [split]
    simp
  obtain ⟨since, r, before, eq, _, _, _, pressed⟩ :=
    pressedLast_of_read to_d history asks fun first leads => by
      rw [leads_before at_b leads]
      exact off
  exact ⟨since, r, before, eq, pressed⟩

theorem split_within {α : Type} {between newer older : List α} {b p : α}
    (eq : between ++ [b] = newer ++ p :: older) (other : p ≠ b) :
    ∃ rest, older = rest ++ [b] ∧ between = newer ++ p :: rest := by
  rcases List.eq_nil_or_concat older with rfl | ⟨rest, x, rfl⟩
  · have last := (List.append_inj' eq rfl).2
    exact absurd (List.singleton_inj.mp last).symm other
  · rw [List.concat_eq_append, ← List.cons_append, ← List.append_assoc] at eq
    obtain ⟨same, last⟩ := List.append_inj' eq rfl
    exact ⟨rest, by rw [List.concat_eq_append, List.singleton_inj.mp last], same⟩

theorem PressedLast.within {between since before older : Log} {r b : Entry Task Answer Shared}
    {a : ControlAction} (eq : between ++ [b] = since ++ r :: before)
    (pressed : PressedLast codec a before older)
    (other : ∀ value, b.step ≠ ⟨.applyControl a .press value, ()⟩) :
    ∃ later p rest value, between = later ++ p :: rest ∧ p.thread = .ipc ∧
      p.step = ⟨.applyControl a .press value, ()⟩ ∧
      Received codec (historyOf .ipc (rest ++ b :: older)) a .press value := by
  obtain ⟨mid, p, last, value, rfl, own, step, received, _⟩ := pressed
  have whole : between ++ [b] = (since ++ r :: mid) ++ p :: last := by
    rw [eq]
    simp
  obtain ⟨rest, rfl, split⟩ := split_within whole fun same => other value (same ▸ step)
  refine ⟨since ++ r :: mid, p, rest, value, split, own, step, ?_⟩
  rw [List.append_assoc, List.singleton_append] at received
  exact received

def pressed? (x : Entry Task Answer Shared) : Option ControlAction :=
  match x.effect with
  | .applyControl a .press _ => some a
  | _ => none

theorem pressed?_of_step {x : Entry Task Answer Shared} {a : ControlAction} {value : Int}
    (step : x.step = ⟨.applyControl a .press value, ()⟩) : pressed? x = some a := by
  rcases x with ⟨thread, effect, reply, before, after⟩
  cases step
  rfl

def clientLeft (x : Entry Task Answer Shared) : Bool :=
  match x.effect with
  | .setClient none => true
  | _ => false

theorem clientLeft_of_step {x : Entry Task Answer Shared} (left : x.step = ⟨.setClient none, ()⟩) :
    clientLeft x = true := by
  rcases x with ⟨thread, effect, reply, before, after⟩
  cases left
  rfl

theorem step_of_clientLeft {x : Entry Task Answer Shared} (left : clientLeft x = true) :
    x.step = ⟨.setClient none, ()⟩ := by
  rcases x with ⟨thread, effect, reply, before, after⟩
  cases effect with
  | setClient client =>
    cases client with
    | none => rfl
    | some client => cases left
  | _ => cases left

def calls (x : Entry Task Answer Shared) : Bool :=
  match x.thread, x.effect with
  | .game, .nextCall => true
  | _, _ => false

theorem mem_of_calls {log : Log} (called : log.any calls = true) :
    ∃ c, (⟨.nextCall, c⟩ : Step Answer) ∈ historyOf .game log := by
  obtain ⟨x, member, call⟩ := List.any_eq_true.mp called
  rcases x with ⟨thread, effect, reply, before, after⟩
  cases thread with
  | game =>
    cases effect with
    | nextCall => exact ⟨reply, mem_historyOf member rfl⟩
    | _ => cases call
  | ipc => cases call
  | reader => cases call

def constructs? (x : Entry Task Answer Shared) : Bool :=
  match x.step with
  | ⟨.nextCall, .constructGameGlobal⟩ => true
  | _ => false

theorem step_of_constructs {x : Entry Task Answer Shared} (constructed : constructs? x = true) :
    x.step = ⟨.nextCall, .constructGameGlobal⟩ := by
  unfold constructs? at constructed
  split at constructed
  · assumption
  · cases constructed

theorem constructs_of_step {x : Entry Task Answer Shared}
    (constructed : x.step = ⟨.nextCall, .constructGameGlobal⟩) : constructs? x = true := by
  rw [constructs?, constructed]

theorem split_at_mark {log : Log} {n : Nat} {m : TaskMessage} {payload : Int}
    {mark : Entry Task Answer Shared → Bool}
    (dispatched : log.head?.bind dispatched? = some (m, payload))
    (marked : (log.tail.drop n).head?.map mark = some true) :
    ∃ d b older, log = d :: (log.tail.take n ++ b :: older) ∧ d.effect = .dispatch m payload ∧
      mark b = true := by
  cases log with
  | nil => cases dispatched
  | cons d tail =>
    rw [List.tail_cons] at marked ⊢
    cases eq : tail.drop n with
    | nil => rw [eq] at marked; cases marked
    | cons b older =>
      rw [eq] at marked
      exact ⟨d, b, older, by rw [← eq, List.take_append_drop], effect_of_dispatched dispatched,
        Option.some.inj marked⟩

theorem serving_append {h g : History Answer} (some_ : serving (h ++ ⟨.setClient none, ()⟩ :: g) ≠ none) :
    ∃ client, (⟨.setClient (some client), ()⟩ : Step Answer) ∈ h := by
  induction h with
  | nil => exact absurd rfl some_
  | cons s h ih =>
    have further (same : serving (s :: (h ++ ⟨.setClient none, ()⟩ :: g)) =
        serving (h ++ ⟨.setClient none, ()⟩ :: g)) :
        ∃ client, (⟨.setClient (some client), ()⟩ : Step Answer) ∈ s :: h := by
      rw [List.cons_append, same] at some_
      obtain ⟨client, member⟩ := ih some_
      exact ⟨client, List.mem_cons_of_mem _ member⟩
    rcases s with ⟨e, r⟩
    cases e with
    | setClient client =>
      cases client with
      | none => exact absurd rfl some_
      | some client => exact ⟨client, List.mem_cons_self⟩
    | _ => exact further rfl

/-- As long as `a` is off whenever a client leaves, no frame begun after one has left dispatches a
    message for `a` without a press that has come from a later client. -/
theorem pressed_since_client_left {a : ControlAction}
    (released : ∀ b ∈ (run codec events).log, b.step = ⟨.setClient none, ()⟩ →
      b.before.control.asks a = false)
    {newer between older : Log} {d b : Entry Task Answer Shared} {m : TaskMessage} {payload : Int}
    (split : (run codec events).log = newer ++ d :: (between ++ b :: older))
    (left : b.step = ⟨.setClient none, ()⟩) (dispatched : d.effect = .dispatch m payload)
    (request : requests m = some a)
    (begun : ∃ c, (⟨.nextCall, c⟩ : Step Answer) ∈ historyOf .game between) :
    ∃ later p rest value, between = later ++ p :: rest ∧ p.thread = .ipc ∧
      p.step = ⟨.applyControl a .press value, ()⟩ ∧
      ∃ client, (⟨.setClient (some client), ()⟩ : Step Answer) ∈ historyOf .ipc rest := by
  have off := released b (by rw [split]; simp) left
  obtain ⟨c, member⟩ := begun
  obtain ⟨since, r, before, eq, pressed⟩ := pressed_since split dispatched (.inl request)
    ⟨c, by rw [historyOf_append]; exact List.mem_append_left _ member⟩ (by simp [off])
    fun release => by rw [release] at request; cases request
  obtain ⟨later, p, rest, value, within, own, step, received⟩ :=
    pressed.within eq fun value press => by
      rw [left] at press
      cases press
  refine ⟨later, p, rest, value, within, own, step, ?_⟩
  have at_b : (run codec events).log = (newer ++ d :: between) ++ b :: older := by
    rw [split]
    simp
  have b_own : b.thread = .ipc := by
    have permitted := ((inputContract codec).run_entry {} events at_b).2
    rcases b with ⟨thread, effect, reply, _, _⟩
    cases left
    cases thread with
    | ipc => rfl
    | game => exact permitted.elim
    | reader => exact permitted.elim
  have served := received.1
  rw [historyOf_append, historyOf_cons, if_pos b_own, left] at served
  exact serving_append served

def rejoins : List (Task × Choice) := [(.reader, .go), (.reader, .go), (.reader, .go)] ++ joins

def walksAgain : List (Task × Choice) :=
  initialises ++ constructs ++ startsTurn 0 ++ joins ++ receives pressLeft ++ receives releaseLeft ++
    leaves ++ rejoins ++ receives pressLeft ++ frames ++ dispatches

theorem pressed_since_client_left_again :
    ∃ d between b older, (run sampleCodec walksAgain).log = d :: (between ++ b :: older) ∧
      b.step = ⟨.setClient none, ()⟩ ∧ d.effect = .dispatch .moveLeft 0 ∧
      ∃ later p rest value, between = later ++ p :: rest ∧ p.thread = .ipc ∧
        p.step = ⟨.applyControl .moveLeft .press value, ()⟩ ∧
        ∃ client, (⟨.setClient (some client), ()⟩ : Step Answer) ∈ historyOf .ipc rest := by
  have dispatched : (run sampleCodec walksAgain).log.head?.bind dispatched? = some (.moveLeft, 0) := by
    decide +kernel
  have left : ((run sampleCodec walksAgain).log.tail.drop 20).head?.map clientLeft = some true := by
    decide +kernel
  have called : ((run sampleCodec walksAgain).log.tail.take 20).any calls = true := by decide +kernel
  have off : ∀ b ∈ (run sampleCodec walksAgain).log, clientLeft b = true →
      b.before.control.asks .moveLeft = false := by
    decide +kernel
  have released : ∀ b ∈ (run sampleCodec walksAgain).log, b.step = ⟨.setClient none, ()⟩ →
      b.before.control.asks .moveLeft = false :=
    fun b member left => off b member (clientLeft_of_step left)
  obtain ⟨d, b, older, split, effect, marked⟩ := split_at_mark dispatched left
  have gone := step_of_clientLeft marked
  exact ⟨d, _, b, older, split, gone, effect,
    pressed_since_client_left released (show _ = [] ++ d :: (_ ++ b :: older) from split) gone effect rfl
      (mem_of_calls called)⟩

/-- The backend goes away while a worm walks, and the next frame lets it walk on. -/
def leftWalking : List (Task × Choice) :=
  initialises ++ constructs ++ startsTurn 0 ++ joins ++ receives pressLeft ++ leaves ++ frames ++
    dispatches

theorem dispatched_after_client_left :
    ¬ ∀ (codec : Codec) (events : List (Task × Choice)) (a : ControlAction) (newer between older : Log)
      (d b : Entry Task Answer Shared) (m : TaskMessage) (payload : Int),
      (run codec events).log = newer ++ d :: (between ++ b :: older) →
      b.step = ⟨.setClient none, ()⟩ → d.effect = .dispatch m payload → requests m = some a →
      (∃ c, (⟨.nextCall, c⟩ : Step Answer) ∈ historyOf .game between) →
      ∃ later p rest value, between = later ++ p :: rest ∧ p.thread = .ipc ∧
        p.step = ⟨.applyControl a .press value, ()⟩ ∧
        ∃ client, (⟨.setClient (some client), ()⟩ : Step Answer) ∈ historyOf .ipc rest := by
  intro always
  have dispatched : (run sampleCodec leftWalking).log.head?.bind dispatched? = some (.moveLeft, 0) := by
    decide +kernel
  have left : ((run sampleCodec leftWalking).log.tail.drop 9).head?.map clientLeft = some true := by
    decide +kernel
  have called : ((run sampleCodec leftWalking).log.tail.take 9).any calls = true := by decide +kernel
  have quiet : ∀ x ∈ (run sampleCodec leftWalking).log.tail.take 9, pressed? x = none := by
    decide +kernel
  obtain ⟨d, b, older, split, effect, marked⟩ := split_at_mark dispatched left
  obtain ⟨later, p, rest, value, within, _, step, _⟩ := always sampleCodec leftWalking .moveLeft [] _
    older d b _ _ split (step_of_clientLeft marked) effect rfl (mem_of_calls called)
  have press := quiet p (by rw [within]; simp)
  rw [pressed?_of_step step] at press
  cases press

/-- As long as `a` is off, and no shot is being charged, whenever `ConstructGameGlobal` is called, every
    message that a frame dispatches for `a` follows from a press since the call of its game. -/
theorem pressed_since_construct {a : ControlAction}
    (neutral : ∀ newer b older, (run codec events).log = newer ++ b :: older →
      b.step = ⟨.nextCall, .constructGameGlobal⟩ →
      b.before.control.asks a = false ∧ (a = .fire → wasFiring (historyOf .game older) = false))
    {newer between older : Log} {d b : Entry Task Answer Shared} {m : TaskMessage} {payload : Int}
    (split : (run codec events).log = newer ++ d :: (between ++ b :: older))
    (constructed : b.step = ⟨.nextCall, .constructGameGlobal⟩)
    (dispatched : d.effect = .dispatch m payload) (serves : Serves m a) :
    ∃ later p rest value, between = later ++ p :: rest ∧ p.thread = .ipc ∧
      p.step = ⟨.applyControl a .press value, ()⟩ ∧
      Received codec (historyOf .ipc (rest ++ b :: older)) a .press value := by
  have at_b : (run codec events).log = (newer ++ d :: between) ++ b :: older := by
    rw [split]
    simp
  obtain ⟨off, still⟩ := neutral _ b older at_b constructed
  have own : b.thread = .game := by
    have permitted := ((inputContract codec).run_entry {} events at_b).2
    rcases b with ⟨thread, effect, reply, _, _⟩
    cases constructed
    cases thread with
    | game => rfl
    | ipc => exact permitted.elim
    | reader => exact permitted.elim
  have begun : (⟨.nextCall, .constructGameGlobal⟩ : Step Answer) ∈ historyOf .game (between ++ [b]) := by
    rw [← constructed]
    exact mem_historyOf (by simp) own
  obtain ⟨since, r, before, eq, pressed⟩ := pressed_since split dispatched serves ⟨_, begun⟩
    (by simp [off]) fun release => still <| by
      rcases serves with request | ⟨_, fire⟩
      · rw [release] at request
        cases request
      · exact fire
  exact pressed.within eq fun value press => by
    rw [constructed] at press
    cases press

def walksInSecond : List (Task × Choice) :=
  initialises ++ constructs ++ startsTurn 0 ++ joins ++ receives pressLeft ++ frames ++ dispatches ++ destroys ++
    initialises ++ constructs ++ startsTurn 0 ++ receives pressLeft ++ frames ++ dispatches

theorem pressed_since_construct_second :
    ∃ d between b older, (run sampleCodec walksInSecond).log = d :: (between ++ b :: older) ∧
      b.step = ⟨.nextCall, .constructGameGlobal⟩ ∧ d.effect = .dispatch .moveLeft 0 ∧
      older.any constructs? = true ∧
      ∃ later p rest value, between = later ++ p :: rest ∧ p.thread = .ipc ∧
        p.step = ⟨.applyControl .moveLeft .press value, ()⟩ ∧
        Received sampleCodec (historyOf .ipc (rest ++ b :: older)) .moveLeft .press value := by
  have dispatched : (run sampleCodec walksInSecond).log.head?.bind dispatched? = some (.moveLeft, 0) := by
    decide +kernel
  have constructed : ((run sampleCodec walksInSecond).log.tail.drop 14).head?.map constructs? =
      some true := by
    decide +kernel
  have first : ((run sampleCodec walksInSecond).log.tail.drop 14).tail.any constructs? = true := by
    decide +kernel
  have off : ∀ b ∈ (run sampleCodec walksInSecond).log, constructs? b = true →
      b.before.control.asks .moveLeft = false := by
    decide +kernel
  obtain ⟨d, b, older, split, effect, marked⟩ := split_at_mark dispatched constructed
  have begins := step_of_constructs marked
  refine ⟨d, _, b, older, split, begins, effect, ?_, ?_⟩
  · generalize (run sampleCodec walksInSecond).log = log at split first
    have tail : log.tail = log.tail.take 14 ++ b :: older := congrArg List.tail split
    have rest : log.tail.drop 14 = b :: older :=
      List.append_cancel_left ((List.take_append_drop 14 log.tail).trans tail)
    rw [rest] at first
    exact first
  · exact pressed_since_construct
      (fun newer b older split constructed =>
        ⟨off b (by rw [split]; simp) (constructs_of_step constructed), by simp⟩)
      (show _ = [] ++ d :: (_ ++ b :: older) from split) begins effect (.inl rfl)

/-- The press comes while there is no game, and the next game begins with it. -/
def walksBetweenGames : List (Task × Choice) :=
  initialises ++ constructs ++ destroys ++ joins ++ receives pressLeft ++ initialises ++ constructs ++
    startsTurn 0 ++ frames ++ dispatches

theorem dispatched_for_press_between_games :
    ¬ ∀ (codec : Codec) (events : List (Task × Choice)) (a : ControlAction) (newer between older : Log)
      (d b : Entry Task Answer Shared) (m : TaskMessage) (payload : Int),
      (run codec events).log = newer ++ d :: (between ++ b :: older) →
      b.step = ⟨.nextCall, .constructGameGlobal⟩ → d.effect = .dispatch m payload → Serves m a →
      ∃ later p rest value, between = later ++ p :: rest ∧ p.thread = .ipc ∧
        p.step = ⟨.applyControl a .press value, ()⟩ ∧
        Received codec (historyOf .ipc (rest ++ b :: older)) a .press value := by
  intro always
  have dispatched : (run sampleCodec walksBetweenGames).log.head?.bind dispatched? =
      some (.moveLeft, 0) := by
    decide +kernel
  have constructed : ((run sampleCodec walksBetweenGames).log.tail.drop 11).head?.map constructs? =
      some true := by
    decide +kernel
  have quiet : ∀ x ∈ (run sampleCodec walksBetweenGames).log.tail.take 11, pressed? x = none := by
    decide +kernel
  obtain ⟨d, b, older, split, effect, marked⟩ := split_at_mark dispatched constructed
  obtain ⟨later, p, rest, value, within, _, step, _⟩ := always sampleCodec walksBetweenGames .moveLeft
    [] _ older d b _ _ split (step_of_constructs marked) effect (.inl rfl)
  have press := quiet p (by rw [within]; simp)
  rw [pressed?_of_step step] at press
  cases press

end WebControl.Link
