import WkWebControl.Link.PushOutcomes

open Effects WebControl Program

namespace WebControl.Link

def arriving : History Answer → Option Socket
  | ⟨.accept, client⟩ :: _ => client
  | _ => none

def arrivalPermits (h : History Answer) : Effect → Prop
  | .setClient (some client) => arriving h = some client
  | _ => True

section Ipc

variable {h : History Answer}

theorem handleLines_arrives (codec : Codec) (lines : List (List UInt8)) :
    Meets arrivalPermits (fun _ _ => True) (Dll.handleLines codec lines) h := by
  induction lines generalizing h with
  | nil => trivial
  | cons line lines ih =>
    unfold Dll.handleLines
    split
    · exact ih
    · rw [meets_bind]
      unfold Dll.handleCommand
      split
      · exact ih
      · split
        · simp only [meets_bind, call]
          exact ⟨trivial, fun _ => trivial⟩
        · exact ih
        · simp only [meets_bind, call]
          exact ⟨trivial, fun _ => ih⟩

theorem leaveClient_arrives (client : Socket) :
    Meets arrivalPermits (fun _ _ => True) (Dll.leaveClient client) h := by
  simp only [Dll.leaveClient, meets_bind, call]
  exact ⟨trivial, fun _ => ⟨trivial, fun _ => trivial⟩⟩

theorem serveClient_arrives (codec : Codec) (client : Socket) (buffer : List UInt8) :
    Meets arrivalPermits (fun _ _ => True) (Dll.serveClient codec client buffer) h := by
  simp only [Dll.serveClient, meets_bind, call, meets_call]
  refine ⟨trivial, fun on => ?_⟩
  split
  · simp only [meets_bind, meets_call]
    refine ⟨trivial, fun chunk => ?_⟩
    cases chunk with
    | data bytes =>
      dsimp only
      rw [meets_bind]
      apply (handleLines_arrives codec _).mono
      intro going after _
      split <;> trivial
    | wouldBlock => trivial
    | closed | error => exact leaveClient_arrives client
  · exact leaveClient_arrives client

theorem serverLoop_arrives : Meets arrivalPermits (fun _ _ => True) Dll.serverLoop h := by
  simp only [Dll.serverLoop, meets_bind, call, meets_call]
  refine ⟨trivial, fun on => ?_⟩
  split
  · simp only [meets_bind, meets_call]
    refine ⟨trivial, fun client => ?_⟩
    cases client with
    | none => trivial
    | some client => exact ⟨rfl, fun _ => trivial⟩
  · trivial

end Ipc

def outcomesPermits (codec : Codec) : Task → History Answer → Effect → Prop
  | .game => outcomePermits codec
  | .ipc => fun h e => clientPermits h e ∧ arrivalPermits h e
  | .reader => readerPermits

theorem outcome_again_meets (codec : Codec) (i : Task) (flow : Flow) (h : History Answer)
    (done : closePost i flow h) :
    (again codec flow).Meets (outcomesPermits codec i) (closePost i) h := by
  have clients := close_again_meets codec i flow h done
  cases i with
  | game =>
    cases flow with
    | game g => exact gameThread_outcome codec g done
    | _ => exact done.elim
  | ipc =>
    cases flow with
    | accepting => exact (clients.and serverLoop_arrives).mono fun _ _ both => both.1
    | serving client buffer =>
      exact (clients.and (serveClient_arrives codec client buffer)).mono fun _ _ both => both.1
    | stopped | terminated => exact done
    | _ => exact done.elim
  | reader => exact clients

theorem outcome_start_meets (codec : Codec) (i : Task) :
    (start codec i).Meets (outcomesPermits codec i) (closePost i) [] := by
  have clients := close_start_meets codec i
  cases i with
  | game => exact gameThread_outcome codec {} ⟨rfl, rfl⟩
  | ipc => exact (clients.and serverLoop_arrives).mono fun _ _ both => both.1
  | reader => exact clients

def outcomeContract (codec : Codec) : (system codec).Contract where
  permits := outcomesPermits codec
  post := closePost
  start := outcome_start_meets codec
  again := outcome_again_meets codec

def Open (s : Shared) (c : Socket) : Prop := (s.net c).closed = true → s.terminated = true

theorem Shared.Replies.stays {s after : Shared} {e : Effect} {r : Answer e} (replies : s.Replies e r after)
    {c : Socket} (other : e ≠ .closesocket c) (open_ : Open s c) : Open after c := by
  have updated (socket : Socket) (sent : List UInt8) (received : Nat) :
      Open (s.update socket ⟨sent, received, (s.net socket).closed⟩) c := by
    unfold Open
    by_cases same : c = socket
    · subst same
      rw [Shared.update_self]
      exact open_
    · rw [Shared.update_other _ _ same]
      exact open_
  cases e with
  | send client data =>
    cases r with
    | sent n some_ within =>
      obtain ⟨_, rfl⟩ := replies
      exact updated client _ _
    | _ => cases replies; exact open_
  | receive sock =>
    cases r with
    | data bytes =>
      obtain ⟨n, _, _, rfl⟩ := replies
      exact updated sock _ _
    | _ => cases replies; exact open_
  | closesocket client =>
    cases replies
    have differs : c ≠ client := fun same => other (same ▸ rfl)
    unfold Open
    rw [Shared.update_other _ _ differs]
    exact open_
  | terminate =>
    cases replies
    exact fun _ => rfl
  | accept =>
    cases r with
    | none => cases replies; exact open_
    | some client => obtain ⟨_, _, rfl⟩ := replies; exact open_
  | connect =>
    cases r with
    | none => cases replies; exact open_
    | some sock => obtain ⟨_, rfl⟩ := replies; exact open_
  | nextCall => obtain ⟨_, rfl⟩ := replies; exact open_
  | dispatch => obtain ⟨_, _, rfl⟩ := replies; exact open_
  | readMemory | loadTurn | readControl | setClient => obtain ⟨_, rfl⟩ := replies; exact open_
  | lockClient => obtain ⟨_, _, rfl⟩ := replies; exact open_
  | _ => cases replies; exact open_

/-- `g_client` is the client being served and open, except that a push that has given it up closes it
    first; whatever waits or has not been connected yet is open too. -/
structure Clients (s : Shared) (game ipc : History Answer) : Prop extends Arrivals s ipc where
  client : ∀ c, s.client = some c → serving ipc = some c
  served : ∀ c, serving ipc = some c → inHand ipc = some c
  locked : locking game = true → s.locked = true
  holds : ∀ c, holding game = some c → serving ipc = some c
  held : ∀ c, holding game = some c → s.client = if letGo game then none else some c
  gone : ∀ c, holding game = some c → gaveUp game = true → (s.net c).closed = true
  live : ∀ c, s.client = some c → (holding game = some c → gaveUp game = false) → Open s c
  arrives : ∀ c, arriving ipc = some c → serving ipc = none ∧ Open s c
  waits : ∀ c ∈ s.backlog, Open s c
  unborn : ∀ c, s.connections ≤ c → Open s c

theorem Clients.same {s after : Shared} {game ipc game' ipc' : History Answer}
    (clients : Clients s game ipc)
    (state : after.client = s.client ∧ after.locked = s.locked ∧ after.backlog = s.backlog ∧
      after.connections = s.connections)
    (ipc_ : accepted ipc' = accepted ipc ∧ inHand ipc' = inHand ipc ∧ serving ipc' = serving ipc)
    (arriving_ : ∀ c, arriving ipc' = some c → arriving ipc = some c)
    (game_ : holding game' = holding game ∧ locking game' = locking game ∧ letGo game' = letGo game ∧
      gaveUp game' = gaveUp game)
    (closed : ∀ c, (s.net c).closed = true → (after.net c).closed = true)
    (stays : ∀ c, Open s c → Open after c) : Clients after game' ipc' := by
  rcases state with ⟨client, locked, backlog, connections⟩
  obtain ⟨accepted_, hand, serving_⟩ := ipc_
  obtain ⟨holding_, locking_, letGo_, gaveUp_⟩ := game_
  refine ⟨clients.toArrivals.same backlog connections accepted_ fun c current => hand ▸ current,
    ?_, ?_, ?_, ?_, ?_, ?_, ?_, ?_, ?_, ?_⟩
  · rw [client, serving_]
    exact clients.client
  · rw [serving_, hand]
    exact clients.served
  · rw [locking_, locked]
    exact clients.locked
  · rw [holding_, serving_]
    exact clients.holds
  · rw [holding_, client, letGo_]
    exact clients.held
  · rw [holding_, gaveUp_]
    exact fun c holds gave => closed c (clients.gone c holds gave)
  · rw [client, holding_, gaveUp_]
    exact fun c current given => stays c (clients.live c current given)
  · rw [serving_]
    exact fun c new => (clients.arrives c (arriving_ c new)).imp_right (stays c)
  · rw [backlog]
    exact fun c member => stays c (clients.waits c member)
  · rw [connections]
    exact fun c new => stays c (clients.unborn c new)

theorem idle_push {e : Effect} (other : idle e = true) (r : Answer e) (h : History Answer) :
    letGo (⟨e, r⟩ :: h) = letGo h ∧ gaveUp (⟨e, r⟩ :: h) = gaveUp h ∧ arriving (⟨e, r⟩ :: h) = none := by
  cases e <;> first | exact ⟨rfl, rfl, rfl⟩ | cases other

section Step

variable {codec : Codec} {s after : Shared} {game ipc : History Answer} {e : Effect} {r : Answer e}

theorem Clients.free (clients : Clients s game ipc) (unlocked : s.locked = false) : holding game = none := by
  cases holds : holding game with
  | none => rfl
  | some c =>
    rw [clients.locked (locking_of_holding holds)] at unlocked
    cases unlocked

theorem Clients.known (clients : Clients s game ipc) {c : Socket} (hand : inHand ipc = some c) :
    c ∉ s.backlog ∧ c < s.connections := by
  have known := clients.hand c hand
  exact ⟨fun waiting => (clients.waiting c waiting).2 known, clients.old c known⟩

theorem Clients.others (clients : Clients s game ipc) {client : Socket} (hand : inHand ipc = some client)
    (replies : s.Replies (.closesocket client) () after) :
    (∀ c ∈ s.backlog, Open after c) ∧ ∀ c, s.connections ≤ c → Open after c := by
  obtain ⟨notWaiting, old⟩ := clients.known hand
  constructor
  · intro c member
    have differs : Effect.closesocket client ≠ .closesocket c := by
      rintro ⟨⟩
      exact notWaiting member
    exact replies.stays differs (clients.waits c member)
  · intro c new
    have differs : Effect.closesocket client ≠ .closesocket c := by
      rintro ⟨⟩
      exact absurd old (Nat.not_lt.mpr new)
    exact replies.stays differs (clients.unborn c new)

theorem Clients.gameStep (clients : Clients s game ipc) (permitted : outcomePermits codec game e)
    (replies : s.Replies e r after) : Clients after (⟨e, r⟩ :: game) ipc := by
  have closed : ∀ c, (s.net c).closed = true → (after.net c).closed = true := fun c => (replies.net c).2
  cases e with
  | lockClient =>
    obtain ⟨unlocked, rfl, rfl⟩ := replies
    have free := clients.free unlocked
    refine { clients with locked := fun _ => rfl, holds := clients.client, held := ?_, gone := ?_, live := ?_ }
    · exact fun c holds => holds
    · exact fun c _ gave => by cases gave
    · intro c current _
      apply clients.live c current
      intro holds
      cases free.symm.trans holds
  | unlockClient =>
    cases replies
    refine { clients with locked := ?_, holds := ?_, held := ?_, gone := ?_, live := ?_ }
    · exact fun on => by cases on
    · exact fun c holds => by cases holds
    · exact fun c holds => by cases holds
    · exact fun c holds => by cases holds
    · intro c current _
      apply clients.live c current
      intro holds
      rcases permitted with free | ⟨_, ended⟩
      · cases free.symm.trans holds
      · obtain ⟨o, of⟩ := ended.outcome
        cases o with
        | sent => exact of.2.1
        | dropped => exact of.2.1
        | closed =>
          -- the push has let go of the client it has closed, so it is not `g_client` any more
          have nothing := clients.held c holds
          rw [of.2, if_pos rfl, current] at nothing
          cases nothing
  | send client data =>
    have stays : ∀ c, Open s c → Open after c := fun c => replies.stays (by simp)
    have same : after.client = s.client ∧ after.locked = s.locked ∧ after.backlog = s.backlog ∧
        after.connections = s.connections := by
      cases r with
      | sent n some_ within => obtain ⟨_, rfl⟩ := replies; exact ⟨rfl, rfl, rfl, rfl⟩
      | _ => cases replies; exact ⟨rfl, rfl, rfl, rfl⟩
    exact clients.same same ⟨rfl, rfl, rfl⟩ (fun _ => id) ⟨rfl, rfl, rfl, rfl⟩ closed stays
  | closesocket client =>
    have holds : holding game = some client := permitted.1
    have serves := clients.holds client holds
    obtain ⟨waits, unborn⟩ := clients.others (clients.served client serves) replies
    cases replies
    refine { clients with gone := ?_, live := ?_, arrives := ?_, waits := waits, unborn := unborn }
    · intro c holds' _
      cases holds.symm.trans holds'
      rw [Shared.update_self]
    · intro c current given
      have own := clients.held client holds
      rw [permitted.2.2, if_neg (by simp)] at own
      cases own.symm.trans current
      cases given holds
    · intro c new
      have none_ := (clients.arrives c new).1
      cases serves.symm.trans none_
  | dropClient =>
    cases replies
    refine { clients with client := ?_, held := ?_, live := ?_ }
    · exact fun c current => by cases current
    · exact fun c _ => rfl
    · exact fun c current => by cases current
  | running | accept | setClient | recv | applyControl | terminate | connect | receive | setSock
  | setLatest => exact permitted.elim
  | _ =>
    have kept := idle_history rfl r game
    have push := idle_push rfl r game
    exact clients.same (replies.idle rfl) ⟨rfl, rfl, rfl⟩ (fun _ => id)
      ⟨kept.2.2.2.1, kept.2.2.2.2, push.1, push.2.1⟩ closed fun c => replies.stays (by simp)

theorem Clients.ipcStep (clients : Clients s game ipc) (permitted : clientPermits ipc e)
    (fresh : arrivalPermits ipc e) (replies : s.Replies e r after) :
    Clients after game (⟨e, r⟩ :: ipc) := by
  have closed : ∀ c, (s.net c).closed = true → (after.net c).closed = true := fun c => (replies.net c).2
  cases e with
  | accept =>
    cases r with
    | none =>
      cases replies
      exact clients.same ⟨rfl, rfl, rfl, rfl⟩ ⟨rfl, rfl, rfl⟩ (fun c new => by cases new)
        ⟨rfl, rfl, rfl, rfl⟩ closed fun _ => id
    | some client =>
      obtain ⟨backlog, first, rfl⟩ := replies
      have none_ : serving ipc = none := permitted.2
      refine { clients with toArrivals := clients.toArrivals.accept first, served := ?_, arrives := ?_, waits := ?_ }
      · intro c serves
        cases none_.symm.trans serves
      · intro c new
        cases new
        refine ⟨none_, clients.waits client ?_⟩
        rw [first]
        exact List.mem_cons_self
      · intro c member
        apply clients.waits c
        rw [first]
        exact List.mem_cons_of_mem _ member
  | setClient client =>
    -- `g_clientMutex` is free, so no push holds a client
    obtain ⟨unlocked, rfl⟩ := replies
    have free := clients.free unlocked
    have arrivals : Arrivals { s with client } (⟨.setClient client, r⟩ :: ipc) :=
      clients.toArrivals.same rfl rfl rfl fun _ => id
    refine { clients with
      toArrivals := arrivals, client := fun _ => id, served := ?_, holds := ?_, held := ?_, live := ?_, arrives := ?_ }
    · intro c serves
      cases client with
      | none => cases serves
      | some client =>
        cases serves
        exact permitted.1
    · intro c holds
      cases free.symm.trans holds
    · intro c holds
      cases free.symm.trans holds
    · rintro c rfl _
      exact (clients.arrives c fresh).2
    · exact fun c new => by cases new
  | recv client =>
    have same : after = s := by
      cases r <;> exact replies
    subst same
    exact clients.same ⟨rfl, rfl, rfl, rfl⟩ ⟨rfl, rfl, rfl⟩ (fun c new => by cases new)
      ⟨rfl, rfl, rfl, rfl⟩ closed fun _ => id
  | closesocket client =>
    have none_ : serving ipc = none := permitted.2
    obtain ⟨waits, unborn⟩ := clients.others permitted.1 replies
    have nobody : ∀ c, serving ipc ≠ some c := fun c serves => by cases none_.symm.trans serves
    have arrivals : Arrivals after (⟨.closesocket client, r⟩ :: ipc) := by
      cases replies
      exact clients.toArrivals.same rfl rfl rfl fun c hand => by cases hand
    cases replies
    refine { clients with
      toArrivals := arrivals, served := ?_, gone := ?_, live := ?_, arrives := ?_, waits := waits, unborn := unborn }
    · exact fun c serves => absurd serves (nobody c)
    · exact fun c holds => absurd (clients.holds c holds) (nobody c)
    · exact fun c current => absurd (clients.client c current) (nobody c)
    · exact fun c new => by cases new
  | running | applyControl | terminate =>
    exact clients.same (replies.idle rfl) ⟨rfl, rfl, rfl⟩ (fun c new => by cases new)
      ⟨rfl, rfl, rfl, rfl⟩ closed fun c => replies.stays (by simp)
  | _ => exact permitted.elim

theorem Clients.readerStep (clients : Clients s game ipc) (reader : History Answer)
    (permitted : readerPermits reader e) (replies : s.Replies e r after) : Clients after game ipc := by
  cases e with
  | connect =>
    cases r with
    | none =>
      cases replies
      exact clients
    | some sock =>
      obtain ⟨_, rfl⟩ := replies
      refine { clients with toArrivals := clients.toArrivals.connect, waits := ?_, unborn := ?_ }
      · intro c member
        rcases List.mem_append.mp member with before | last
        · exact clients.waits c before
        · rw [List.mem_singleton.mp last]
          exact clients.unborn _ (Nat.le_refl _)
      · exact fun c new => clients.unborn c (Nat.le_of_succ_le new)
  | receive | setSock | setLatest =>
    exact clients.same (replies.idle rfl) ⟨rfl, rfl, rfl⟩ (fun _ => id) ⟨rfl, rfl, rfl, rfl⟩
      (fun c => (replies.net c).2) fun c => replies.stays (by simp)
  | _ => exact permitted.elim

end Step

section Run

variable {codec : Codec} {events : List (Task × Choice)}

theorem clients_initial : Clients {} [] [] := by
  refine ⟨⟨.nil, ?_, ?_, ?_⟩, ?_, ?_, ?_, ?_, ?_, ?_, ?_, ?_, ?_, ?_⟩
  all_goals simp [accepted, inHand, serving, holding, locking, arriving, Open]

theorem clients_keeps (x : Entry Task Answer Shared) (log : Log)
    (clients : Clients x.before (historyOf .game log) (historyOf .ipc log))
    (answered : (system codec).Answered x)
    (permitted : (outcomeContract codec).permits x.thread (historyOf x.thread log) x.effect) :
    Clients x.after (historyOf .game (x :: log)) (historyOf .ipc (x :: log)) := by
  have replies := answered_replies answered rfl
  rcases x with ⟨thread, e, r, s, after⟩
  cases thread with
  | game => exact clients.gameStep permitted replies
  | ipc => exact clients.ipcStep permitted.1 permitted.2 replies
  | reader => exact clients.readerStep (historyOf .reader log) permitted replies

theorem run_clients {newer older : Log} {x : Entry Task Answer Shared}
    (split : (run codec events).log = newer ++ x :: older) :
    Clients x.before (historyOf .game older) (historyOf .ipc older) ∧ (system codec).Answered x ∧
      outcomesPermits codec x.thread (historyOf x.thread older) x.effect :=
  (outcomeContract codec).run_before {}
    (P := fun s log => Clients s (historyOf .game log) (historyOf .ipc log)) clients_initial clients_keeps
    events split

theorem answered_running {x : Entry Task Answer Shared} (answered : (system codec).Answered x)
    (plugin : x.thread ≠ .reader) : x.before.terminated = false := by
  obtain ⟨c, replied⟩ := answered
  change (if x.before.terminated ∧ x.thread ≠ .reader then none else x.before.reply x.effect c) = _ at replied
  split at replied
  · cases replied
  · rename_i running
    simpa [plugin] using running

theorem closed_later {newer older : Log} {x y : Entry Task Answer Shared} {c : Socket}
    (split : (run codec events).log = newer ++ y :: older) (earlier : x ∈ older)
    (closed : (x.before.net c).closed = true) : (y.before.net c).closed = true := by
  have all := (outcomeContract codec).run_before {}
    (P := fun s log => ∀ z ∈ log, (z.before.net c).closed = true → (s.net c).closed = true)
    (fun _ member => absurd member List.not_mem_nil) ?_ events split
  · exact all.1 x earlier closed
  · intro z log before answered _ w member closed
    have kept := ((answered_replies answered rfl).net c).2
    rcases List.mem_cons.mp member with rfl | member
    · exact kept closed
    · exact kept (before w member closed)

theorem Clients.kept {x : Entry Task Answer Shared} {game ipc : History Answer} {client : Socket}
    (clients : Clients x.before game ipc) (answered : (system codec).Answered x) (own : x.thread = .game)
    (holds : holding game = some client) (kept : Kept game) :
    x.before.client = some client ∧ (x.before.net client).closed = false := by
  have current := clients.held client holds
  rw [kept.2, if_neg (by simp)] at current
  refine ⟨current, ?_⟩
  have running := answered_running answered (by simp [own])
  have open_ := clients.live client current fun _ => kept.1
  by_contra shut
  rw [open_ (by simpa using shut)] at running
  cases running

theorem open_of_send {newer older : Log} {y : Entry Task Answer Shared} {client : Socket} {data : List UInt8}
    (split : (run codec events).log = newer ++ y :: older) (sends_ : y.effect = .send client data) :
    (y.before.net client).closed = false := by
  obtain ⟨clients, answered, permitted⟩ := run_clients split
  have own : y.thread = .game := by
    rcases y with ⟨thread, e, r, s, after⟩
    cases sends_
    cases thread with
    | game => rfl
    | ipc => exact permitted.1.elim
    | reader => exact permitted.elim
  rw [own, sends_] at permitted
  exact (clients.kept answered own permitted.1 permitted.2).2

/-- However the calls of `send` turn out, a push comes to an end after no more of them than the line has
    bytes and 201, with the line sent, nothing sent, or the client closed and let go; and to a client that
    has been closed nothing is sent any more. -/
theorem push_outcome (codec : Codec) :
    (∀ (g : Statics) (snap : Dll.GameSnapshot) (answer : History Answer → (e : Effect) → Answer e),
      ∃ g' after, (Dll.pushState codec g snap).exec (answering answer) [⟨.publish snap, ()⟩] =
          some (g', after) ∧
        sends after ≤ (Dll.stateLine codec snap).length + 201 ∧
        ∃! o : PushOutcome, o.Of (Dll.stateLine codec snap) after) ∧
    (∀ client whole extra, Dll.sendLoop client whole (whole.length + 201 + extra) whole 0 =
      Dll.sendLoop client whole (whole.length + 201) whole 0) ∧
    ∀ events newer x older client, (run codec events).log = newer ++ x :: older →
      x.step = ⟨.unlockClient, ()⟩ → holding (historyOf .game older) = some client →
      sends (historyOf .game older) ≤ (line codec (historyOf .game older)).length + 201 ∧
      ∃ o : PushOutcome, o.Of (line codec (historyOf .game older)) (historyOf .game older) ∧
        (∀ o' : PushOutcome, o'.Of (line codec (historyOf .game older)) (historyOf .game older) → o' = o) ∧
        o.Leaves x.before client ∧
        (o = .closed → ∀ y ∈ newer, ∀ data, y.effect ≠ .send client data) := by
  refine ⟨fun g snap answer => ?_, fun client whole extra => ?_, ?_⟩
  · have newest : line codec [⟨.publish snap, ()⟩] = Dll.stateLine codec snap := rfl
    obtain ⟨g', after, ran, ⟨_, ended⟩, _⟩ := (pushState_outcome g ⟨rfl, rfl⟩ newest).exec answer
    obtain ⟨few, o, of⟩ := ended rfl rfl ⟨rfl, rfl⟩
    exact ⟨g', after, ran, few, o, of, fun o' of' => of'.unique (stateLine_some codec snap) of⟩
  · exact sendLoop_fuel client whole _ extra (Nat.lt_succ_self _) (Nat.zero_le _)
  · intro events newer x older client split unlocks holds
    obtain ⟨clients, answered, permitted⟩ := run_clients split
    -- the other threads lock `g_client` only while they set it
    have own : x.thread = .game := by
      rcases x with ⟨thread, e, r, s, after⟩
      cases unlocks
      cases thread with
      | game => rfl
      | ipc => exact permitted.1.elim
      | reader => exact permitted.elim
    have effect : x.effect = .unlockClient := congrArg Sigma.fst unlocks
    rw [own, effect] at permitted
    rcases permitted with free | ⟨some_, ended⟩
    · cases free.symm.trans holds
    · obtain ⟨few, o, of⟩ := ended
      refine ⟨few, o, of, fun o' of' => of'.unique some_ of, ?_, ?_⟩
      · cases o with
        | sent => exact clients.kept answered own holds of.2
        | dropped => exact clients.kept answered own holds of.2
        | closed =>
          refine ⟨?_, clients.gone client holds of.1⟩
          rw [clients.held client holds, of.2, if_pos rfl]
      · rintro rfl y member data sends_
        obtain ⟨later, between, rfl⟩ := List.append_of_mem member
        have at_y : (run codec events).log = later ++ y :: (between ++ x :: older) := by
          rw [split]
          simp
        have closed := closed_later at_y (by simp) (clients.gone client holds of.1)
        rw [open_of_send at_y sends_] at closed
        cases closed

end Run

def pushFails : List (Task × Choice) :=
  initialises ++ constructs ++ startsTurn 1 ++ joins ++
    [(.game, .calls (.turnHandleMessage .frameFinish none) tinyMemory), (.game, .go), (.game, .go),
     (.game, .go), (.game, .tick 15), (.game, .go), (.game, .bytes 5), (.game, .fail), (.game, .go),
     (.game, .go), (.game, .go)]

theorem push_outcome_fails :
    ∃ x older, (run sampleCodec pushFails).log = x :: older ∧ x.step = ⟨.unlockClient, ()⟩ ∧
      sends (historyOf .game older) = 2 ∧ ∃ o : PushOutcome,
        o.Of (line sampleCodec (historyOf .game older)) (historyOf .game older) ∧ o = .closed ∧
        o.Leaves x.before 0 := by
  have newest : (run sampleCodec pushFails).log.head?.map (·.effect matches .unlockClient) = some true := by
    decide +kernel
  have held : holding (historyOf .game (run sampleCodec pushFails).log.tail) = some 0 := by decide +kernel
  have twice : sends (historyOf .game (run sampleCodec pushFails).log.tail) = 2 := by decide +kernel
  have gave : gaveUp (historyOf .game (run sampleCodec pushFails).log.tail) = true := by decide +kernel
  cases log : (run sampleCodec pushFails).log with
  | nil =>
    rw [log] at newest
    cases newest
  | cons x older =>
    rw [log] at newest held twice gave
    have unlocks : x.step = ⟨.unlockClient, ()⟩ := by
      rcases x with ⟨thread, e, r, s, after⟩
      cases e with
      | unlockClient => rfl
      | _ => cases newest
    obtain ⟨_, o, of, _, leaves, _⟩ := (push_outcome sampleCodec).2.2 pushFails [] x older 0 log unlocks held
    refine ⟨x, older, rfl, unlocks, twice, o, of, ?_, leaves⟩
    cases o with
    | closed => rfl
    | sent => exact absurd (of.2.1.symm.trans gave) (by decide)
    | dropped => exact absurd (of.2.1.symm.trans gave) (by decide)

end WebControl.Link
