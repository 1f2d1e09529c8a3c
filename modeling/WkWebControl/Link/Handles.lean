import Mathlib.Data.List.Infix
import WkWebControl.Link.Push
import WkWebControl.Link.Replies

open Effects WebControl Program

namespace WebControl.Link

def accepted : History Answer → List Socket
  | [] => []
  | ⟨.accept, some client⟩ :: h => client :: accepted h
  | _ :: h => accepted h

def inHand : History Answer → Option Socket
  | [] => none
  | ⟨.accept, some client⟩ :: _ => some client
  | ⟨.closesocket _, _⟩ :: _ => none
  | _ :: h => inHand h

def closes (c : Socket) (x : Entry Task Answer Shared) : Bool :=
  match x.effect with
  | .closesocket client => client == c
  | _ => false

def closings (c : Socket) (log : Log) : Nat := log.countP (closes c)

def uses (c : Socket) : Effect → Prop
  | .send client _ | .recv client => client = c
  | _ => False

/-- A client is closed at most once, and once the IPC thread has gone on from it exactly once. Nothing
    uses a client after it has been closed. -/
structure ClosedOnce (log : Log) : Prop where
  once : ∀ c, closings c log ≤ 1
  done : ∀ c ∈ accepted (historyOf .ipc log), inHand (historyOf .ipc log) ≠ some c → closings c log = 1
  unused : ∀ newer x older c, log = newer ++ x :: older → uses c x.effect → closings c older = 0

def stalls : History Answer → Nat
  | [] => 0
  | ⟨.lockClient, _⟩ :: _ => 0
  | ⟨.send _ _, .wouldBlock⟩ :: h => stalls h + 1
  | _ :: h => stalls h

/-- The newest send has failed, or has found no room in the middle of a line for the 201st time. -/
def Failing : History Answer → Prop
  | ⟨.send _ _, .error⟩ :: _ => True
  | ⟨.send _ _, .wouldBlock⟩ :: h => sofar h ≠ [] ∧ 200 ≤ stalls h
  | _ => False

instance (h : History Answer) : Decidable (Failing h) := by
  unfold Failing
  split <;> infer_instance

def Steady (log : Log) : Prop := ∀ h, h <:+ historyOf .game log → ¬ Failing h

instance (log : Log) : Decidable (Steady log) :=
  have : Decidable (∀ h ∈ (historyOf Task.game log).tails, ¬ Failing h) := List.decidableBAll _ _
  decidable_of_iff (∀ h ∈ (historyOf Task.game log).tails, ¬ Failing h)
    (forall_congr' fun h => by rw [List.mem_tails])

def locking : History Answer → Bool
  | [] => false
  | ⟨.lockClient, _⟩ :: _ => true
  | ⟨.unlockClient, _⟩ :: _ => false
  | _ :: h => locking h

def handlePermits (h : History Answer) : Effect → Prop
  | .lockClient => locking h = false
  | .unlockClient => locking h = true
  | .send client _ => holding h = some client ∧ locking h = true
  | .closesocket client => holding h = some client ∧ Failing h
  | .dropClient => ∃ g, g <:+ h ∧ Failing g
  | .running | .accept | .setClient _ | .recv _ | .applyControl _ _ _ | .terminate | .connect
  | .receive _ | .setSock _ | .setLatest _ => False
  | _ => True

def Free (h : History Answer) : Prop := locking h = false ∧ holding h = none

def handlePost : Flow → History Answer → Prop
  | .game _, h => Free h
  | _, _ => False

section Game

variable {h : History Answer}

theorem Performing.free {α : Type} {p : Prog α} {post : α → Prop} (plays : Plays p h post) (free : Free h) :
    Meets handlePermits (fun a after => post a ∧ Free after) p h := by
  apply plays.keeps free
  intro after e kept play
  cases e <;> first | exact ⟨trivial, fun _ => kept⟩ | cases play

structure Sending (client : Socket) (whole p : List UInt8) (spins : Nat) (h : History Answer) : Prop where
  holds : holding h = some client
  locked : locking h = true
  rest : sofar h ++ p = whole
  spun : stalls h = spins

theorem giveUp_handles {client : Socket} (holds : holding h = some client) (locked : locking h = true)
    (failing : Failing h) :
    Meets handlePermits (fun _ after => locking after = true) (Dll.giveUp client) h := by
  simp only [Dll.giveUp, meets_bind, call]
  exact ⟨⟨holds, failing⟩, fun _ => ⟨⟨h, List.suffix_cons _ _, failing⟩, fun _ => locked⟩⟩

theorem sendLoop_handles {client : Socket} (whole : List UInt8) (fuel : Nat) {p : List UInt8} {spins : Nat}
    (sending : Sending client whole p spins h) :
    Meets handlePermits (fun _ after => locking after = true)
      (Dll.sendLoop client whole fuel p spins) h := by
  induction fuel generalizing p spins h with
  | zero => cases p <;> exact sending.locked
  | succ fuel ih =>
    cases p with
    | nil => exact sending.locked
    | cons b p =>
      simp only [Dll.sendLoop, meets_bind, call, meets_call]
      refine ⟨⟨sending.holds, sending.locked⟩, fun sent => ?_⟩
      cases sent with
      | sent n some_ within =>
        refine ih ⟨sending.holds, sending.locked, ?_, sending.spun⟩
        change (sofar h ++ (b :: p).take n) ++ (b :: p).drop n = whole
        rw [List.append_assoc, List.take_append_drop, sending.rest]
      | wouldBlock =>
        dsimp only
        split
        · exact sending.locked
        · rename_i partial_
          have begun : sofar h ≠ [] := by
            intro nothing
            have same := sending.rest
            rw [nothing, List.nil_append] at same
            exact partial_ (congrArg List.length same)
          have spun := sending.spun
          split
          · rename_i many
            exact giveUp_handles (h := ⟨.send client (b :: p), .wouldBlock⟩ :: h) sending.holds
              sending.locked ⟨begun, by omega⟩
          · exact ih ⟨sending.holds, sending.locked, sending.rest, congrArg (· + 1) spun⟩
      | error =>
        exact giveUp_handles (h := ⟨.send client (b :: p), .error⟩ :: h) sending.holds sending.locked
          trivial

theorem pushState_handles (codec : Codec) (g : Statics) (snap : Dll.GameSnapshot) (free : Free h) :
    Meets handlePermits (fun _ => Free) (Dll.pushState codec g snap) h := by
  simp only [Dll.pushState, meets_bind, call, meets_call]
  refine ⟨trivial, fun now => ?_⟩
  split
  · exact free
  · simp only [meets_bind, meets_call]
    refine ⟨free.1, fun client => ?_⟩
    cases client with
    | none => exact ⟨rfl, fun _ => ⟨rfl, rfl⟩⟩
    | some client =>
      simp only [meets_bind]
      refine (sendLoop_handles (h := ⟨.lockClient, some client⟩ :: ⟨.getTickCount, now⟩ :: h)
        (Dll.stateLine codec snap) _ ⟨rfl, rfl, rfl, rfl⟩).mono ?_
      exact fun _ after locked => ⟨locked, fun _ => ⟨rfl, rfl⟩⟩

theorem onFrame_handles (codec : Codec) (g : Statics) (free : Free h) :
    Meets handlePermits (fun _ => Free) (Dll.onFrame codec g) h := by
  simp only [Dll.onFrame, meets_bind, call]
  refine ((buildSnapshot_plays g).free free).mono fun snap read kept => ⟨trivial, fun _ => ?_⟩
  refine (pushState_handles codec g snap (h := ⟨.publish snap, ()⟩ :: read) kept.2).mono fun g' after free => ?_
  split
  · exact ((applyHeldInput_plays g').free free).mono fun _ _ kept => kept.2
  · exact free

theorem gameThread_handles (codec : Codec) (g : Statics) (free : Free h) :
    Meets handlePermits handlePost (Dll.gameThread codec g) h := by
  simp only [Dll.gameThread, meets_bind, call, meets_call]
  refine ⟨trivial, fun next => ?_⟩
  cases next with
  | initializeW2App ddGame => exact free
  | constructGameGlobal =>
    simp only [Dll.hookConstructGameGlobal, meets_bind, call, meets_call]
    exact ⟨trivial, fun _ => free⟩
  | destroyGameGlobal =>
    simp only [Dll.hookDestroyGameGlobal, Dll.onGameTornDown, meets_bind, call]
    exact ⟨trivial, fun _ => ⟨trivial, fun _ => ⟨trivial, fun _ => free⟩⟩⟩
  | turnHandleMessage mtype data =>
    rw [meets_bind]
    apply hookTurnHandleMessage_meets mtype data
    · exact free
    · exact fun team => ⟨trivial, free⟩
    · exact fun _ => onFrame_handles codec g (h := ⟨.nextCall, .turnHandleMessage mtype data⟩ :: h) free

end Game

def clientPermits (h : History Answer) : Effect → Prop
  | .accept => inHand h = none ∧ serving h = none
  | .setClient (some client) => inHand h = some client ∧ serving h = none
  | .setClient none => True
  | .recv client => inHand h = some client
  | .closesocket client => inHand h = some client ∧ serving h = none
  | .running | .applyControl _ _ _ | .terminate => True
  | _ => False

def clientPost : Flow → History Answer → Prop
  | .serving client _, h => inHand h = some client
  | .accepting, h => inHand h = none ∧ serving h = none
  | .stopped, _ | .terminated, _ => True
  | _, _ => False

section Ipc

variable {h : History Answer}

theorem handleLines_handles (codec : Codec) {client : Socket} (lines : List (List UInt8))
    (hand : inHand h = some client) :
    Meets clientPermits (fun _ after => inHand after = some client) (Dll.handleLines codec lines) h := by
  induction lines generalizing h with
  | nil => exact hand
  | cons line lines ih =>
    unfold Dll.handleLines
    split
    · exact ih hand
    · rw [meets_bind]
      unfold Dll.handleCommand
      split
      · exact ih hand
      · split
        · simp only [meets_bind, call]
          exact ⟨trivial, fun _ => hand⟩
        · exact ih hand
        · rename_i action phase value _
          simp only [meets_bind, call]
          exact ⟨trivial, fun _ => ih (h := ⟨.applyControl action phase value, ()⟩ :: h) hand⟩

theorem leaveClient_handles {client : Socket} (hand : inHand h = some client) :
    Meets clientPermits clientPost (Dll.leaveClient client) h := by
  simp only [Dll.leaveClient, meets_bind, call]
  exact ⟨trivial, fun _ => ⟨⟨hand, rfl⟩, fun _ => ⟨rfl, rfl⟩⟩⟩

theorem serveClient_handles (codec : Codec) {client : Socket} (buffer : List UInt8)
    (hand : inHand h = some client) :
    Meets clientPermits clientPost (Dll.serveClient codec client buffer) h := by
  simp only [Dll.serveClient, meets_bind, call, meets_call]
  refine ⟨trivial, fun on => ?_⟩
  split
  · simp only [meets_bind, meets_call]
    refine ⟨hand, fun chunk => ?_⟩
    cases chunk with
    | data bytes =>
      dsimp only
      rw [meets_bind]
      refine (handleLines_handles codec _ (h := ⟨.recv client, .data bytes⟩ :: ⟨.running, on⟩ :: h) hand).mono ?_
      intro going after kept
      split
      · exact kept
      · trivial
    | wouldBlock => exact hand
    | _ => exact leaveClient_handles hand
  · exact leaveClient_handles hand

theorem serverLoop_handles (idle : inHand h = none ∧ serving h = none) :
    Meets clientPermits clientPost Dll.serverLoop h := by
  simp only [Dll.serverLoop, meets_bind, call, meets_call]
  refine ⟨trivial, fun on => ?_⟩
  split
  · simp only [meets_bind, meets_call]
    refine ⟨idle, fun client => ?_⟩
    cases client with
    | none => trivial
    | some client => exact ⟨⟨rfl, idle.2⟩, fun _ => rfl⟩
  · trivial

end Ipc

def closePermits : Task → History Answer → Effect → Prop
  | .game => handlePermits
  | .ipc => clientPermits
  | .reader => readerPermits

def closePost : Task → Flow → History Answer → Prop
  | .game => handlePost
  | .ipc => clientPost
  | .reader => readerPost

theorem close_again_meets (codec : Codec) (i : Task) (flow : Flow) (h : History Answer)
    (done : closePost i flow h) : (again codec flow).Meets (closePermits i) (closePost i) h := by
  cases i with
  | game =>
    cases flow with
    | game g => exact gameThread_handles codec g done
    | _ => exact done.elim
  | ipc =>
    cases flow with
    | accepting => exact serverLoop_handles done
    | serving client buffer => exact serveClient_handles codec buffer done
    | stopped | terminated => exact done
    | _ => exact done.elim
  | reader =>
    cases flow with
    | connecting => exact readerLoop_meets h
    | consuming sock buf => exact consume_meets codec sock buf h
    | _ => exact done.elim

theorem close_start_meets (codec : Codec) (i : Task) :
    (start codec i).Meets (closePermits i) (closePost i) [] := by
  cases i with
  | game => exact gameThread_handles codec {} ⟨rfl, rfl⟩
  | ipc => exact serverLoop_handles ⟨rfl, rfl⟩
  | reader => exact readerLoop_meets []

def closeContract (codec : Codec) : (system codec).Contract where
  permits := closePermits
  post := closePost
  start := close_start_meets codec
  again := close_again_meets codec

structure Arrivals (s : Shared) (ipc : History Answer) : Prop where
  distinct : s.backlog.Nodup
  waiting : ∀ c ∈ s.backlog, c < s.connections ∧ c ∉ accepted ipc
  old : ∀ c ∈ accepted ipc, c < s.connections
  hand : ∀ c, inHand ipc = some c → c ∈ accepted ipc

theorem Arrivals.same {s after : Shared} {ipc ipc' : History Answer} (arrivals : Arrivals s ipc)
    (backlog : after.backlog = s.backlog) (connections : after.connections = s.connections)
    (accepted_ : accepted ipc' = accepted ipc) (hand : ∀ c, inHand ipc' = some c → inHand ipc = some c) :
    Arrivals after ipc' where
  distinct := backlog ▸ arrivals.distinct
  waiting := by
    rw [backlog, connections, accepted_]
    exact arrivals.waiting
  old := by
    rw [connections, accepted_]
    exact arrivals.old
  hand c current := by
    rw [accepted_]
    exact arrivals.hand c (hand c current)

theorem Arrivals.accept {s : Shared} {ipc : History Answer} {client : Socket} {backlog : List Socket}
    (arrivals : Arrivals s ipc) (first : s.backlog = client :: backlog) :
    Arrivals { s with backlog } (⟨.accept, some client⟩ :: ipc) := by
  have distinct := arrivals.distinct
  have waiting := arrivals.waiting
  rw [first] at distinct waiting
  rw [List.nodup_cons] at distinct
  have own := waiting client List.mem_cons_self
  refine ⟨distinct.2, fun c member => ?_, fun c member => ?_, fun c current => ?_⟩
  · obtain ⟨new, unknown⟩ := waiting c (List.mem_cons_of_mem _ member)
    refine ⟨new, ?_⟩
    rw [accepted, List.mem_cons, not_or]
    exact ⟨fun same => distinct.1 (same ▸ member), unknown⟩
  · rcases List.mem_cons.mp member with rfl | member
    · exact own.1
    · exact arrivals.old c member
  · cases current
    exact List.mem_cons_self

theorem Arrivals.connect {s : Shared} {ipc : History Answer} (arrivals : Arrivals s ipc) :
    Arrivals { s with connections := s.connections + 1, backlog := s.backlog ++ [s.connections] } ipc := by
  refine ⟨?_, fun c member => ?_, fun c member => ?_, arrivals.hand⟩
  · have new : s.connections ∉ s.backlog := fun member =>
      Nat.lt_irrefl _ (arrivals.waiting _ member).1
    exact List.nodup_append.mpr ⟨arrivals.distinct, by simp, by
      intro c member d last same
      rw [List.mem_singleton.mp last] at same
      exact new (same ▸ member)⟩
  · rcases List.mem_append.mp member with before | last
    · obtain ⟨small, unknown⟩ := arrivals.waiting c before
      exact ⟨Nat.lt_succ_of_lt small, unknown⟩
    · rw [List.mem_singleton.mp last]
      exact ⟨Nat.lt_succ_self _, fun known => Nat.lt_irrefl _ (arrivals.old _ known)⟩
  · exact Nat.lt_succ_of_lt (arrivals.old c member)

/-- The numbers of the waiting clients are new, `g_client` is the client that is being served, and the
    game thread only has that one. -/
structure Handles (s : Shared) (game ipc : History Answer) : Prop where
  distinct : s.backlog.Nodup
  waiting : ∀ c ∈ s.backlog, c < s.connections ∧ c ∉ accepted ipc
  old : ∀ c ∈ accepted ipc, c < s.connections
  hand : ∀ c, inHand ipc = some c → c ∈ accepted ipc
  client : s.client = serving ipc
  served : ∀ c, serving ipc = some c → inHand ipc = some c
  held : ∀ c, holding game = some c → s.client = some c
  locked : locking game = true → s.locked = true

theorem Handles.arrivals {s : Shared} {game ipc : History Answer} (handles : Handles s game ipc) :
    Arrivals s ipc :=
  ⟨handles.distinct, handles.waiting, handles.old, handles.hand⟩

structure Closings (log : Log) (ipc : History Answer) : Prop where
  open_ : ∀ c, c ∉ accepted ipc ∨ inHand ipc = some c → closings c log = 0
  closed : ∀ c ∈ accepted ipc, inHand ipc ≠ some c → closings c log = 1
  unused : ∀ newer x older c, log = newer ++ x :: older → uses c x.effect → closings c older = 0

theorem Closings.once {log : Log} {ipc : History Answer} (closings_ : Closings log ipc) (c : Socket) :
    closings c log ≤ 1 := by
  by_cases known : c ∈ accepted ipc
  · by_cases current : inHand ipc = some c
    · rw [closings_.open_ c (.inr current)]
      exact Nat.zero_le _
    · rw [closings_.closed c known current]
  · rw [closings_.open_ c (.inl known)]
    exact Nat.zero_le _

def idle : Effect → Bool
  | .lockClient | .dropClient | .unlockClient | .send _ _ | .accept | .setClient _ | .recv _
  | .closesocket _ | .connect => false
  | _ => true

theorem closings_cons {c : Socket} {x : Entry Task Answer Shared} (other : closes c x = false) (log : Log) :
    closings c (x :: log) = closings c log := by
  rw [closings, List.countP_cons_of_neg (by simp [other])]
  rfl

theorem Closings.other {log : Log} {ipc ipc' : History Answer} (closings_ : Closings log ipc)
    {x : Entry Task Answer Shared} (accepted_ : accepted ipc' = accepted ipc) (hand : inHand ipc' = inHand ipc)
    (closes_ : ∀ c, closes c x = false) (uses_ : ∀ c, uses c x.effect → closings c log = 0) :
    Closings (x :: log) ipc' where
  open_ c free := by
    rw [closings_cons (closes_ c)]
    exact closings_.open_ c (by rwa [accepted_, hand] at free)
  closed c known gone := by
    rw [closings_cons (closes_ c)]
    exact closings_.closed c (accepted_ ▸ known) (hand ▸ gone)
  unused newer y older c eq used := by
    cases newer with
    | nil =>
      obtain ⟨rfl, rfl⟩ := List.cons.inj eq
      exact uses_ c used
    | cons z newer => exact closings_.unused newer y older c (List.cons.inj eq).2 used

theorem Shared.Replies.idle {s after : Shared} {e : Effect} {r : Answer e}
    (replies : s.Replies e r after) (other : idle e = true) :
    after.client = s.client ∧ after.locked = s.locked ∧ after.backlog = s.backlog ∧
      after.connections = s.connections := by
  cases e with
  | lockClient | dropClient | unlockClient | send | accept | setClient | recv | closesocket | connect =>
    cases other
  | receive sock =>
    cases r with
    | data bytes => obtain ⟨_, _, _, rfl⟩ := replies; exact ⟨rfl, rfl, rfl, rfl⟩
    | _ => cases replies; exact ⟨rfl, rfl, rfl, rfl⟩
  | nextCall => obtain ⟨_, rfl⟩ := replies; exact ⟨rfl, rfl, rfl, rfl⟩
  | dispatch => obtain ⟨_, _, rfl⟩ := replies; exact ⟨rfl, rfl, rfl, rfl⟩
  | readMemory | loadTurn | readControl => obtain ⟨_, rfl⟩ := replies; exact ⟨rfl, rfl, rfl, rfl⟩
  | _ => cases replies; exact ⟨rfl, rfl, rfl, rfl⟩

theorem idle_history {e : Effect} (other : idle e = true) (r : Answer e) (h : History Answer) :
    accepted (⟨e, r⟩ :: h) = accepted h ∧ inHand (⟨e, r⟩ :: h) = inHand h ∧
      serving (⟨e, r⟩ :: h) = serving h ∧ holding (⟨e, r⟩ :: h) = holding h ∧
      locking (⟨e, r⟩ :: h) = locking h := by
  cases e <;> first | exact ⟨rfl, rfl, rfl, rfl, rfl⟩ | cases other

theorem Handles.same {s after : Shared} {game ipc game' ipc' : History Answer}
    (handles : Handles s game ipc)
    (state : after.client = s.client ∧ after.locked = s.locked ∧ after.backlog = s.backlog ∧
      after.connections = s.connections)
    (ipc_ : accepted ipc' = accepted ipc ∧ inHand ipc' = inHand ipc ∧ serving ipc' = serving ipc)
    (game_ : holding game' = holding game ∧ locking game' = locking game) : Handles after game' ipc' := by
  rcases state with ⟨client, locked, backlog, connections⟩
  obtain ⟨accepted_, hand, serving_⟩ := ipc_
  obtain ⟨holding_, locking_⟩ := game_
  have arrivals := handles.arrivals.same backlog connections accepted_ fun c current => hand ▸ current
  refine ⟨arrivals.distinct, arrivals.waiting, arrivals.old, arrivals.hand, ?_, ?_, ?_, ?_⟩
  · rw [client, serving_]
    exact handles.client
  · rw [serving_, hand]
    exact handles.served
  · rw [holding_, client]
    exact handles.held
  · rw [locking_, locked]
    exact handles.locked

theorem locking_of_holding {h : History Answer} {c : Socket} (holds : holding h = some c) :
    locking h = true := by
  induction h with
  | nil => cases holds
  | cons s h ih =>
    rcases s with ⟨e, r⟩
    cases e with
    | lockClient => rfl
    | unlockClient => cases holds
    | _ => exact ih holds

section Step

variable {s after : Shared} {game ipc : History Answer} {e : Effect} {r : Answer e}

theorem Handles.gameStep (handles : Handles s game ipc) (permitted : handlePermits game e)
    (steady : ∀ h, h <:+ game → ¬ Failing h) (replies : s.Replies e r after) :
    Handles after (⟨e, r⟩ :: game) ipc := by
  cases e with
  | lockClient =>
    obtain ⟨_, rfl, rfl⟩ := replies
    exact { handles with held := fun c holds => holds, locked := fun _ => rfl }
  | unlockClient =>
    cases replies
    exact { handles with held := fun c holds => (by cases holds), locked := fun on => (by cases on) }
  | send client data =>
    have same : after.client = s.client ∧ after.locked = s.locked ∧ after.backlog = s.backlog ∧
        after.connections = s.connections := by
      cases r with
      | sent n some_ within => obtain ⟨_, rfl⟩ := replies; exact ⟨rfl, rfl, rfl, rfl⟩
      | _ => cases replies; exact ⟨rfl, rfl, rfl, rfl⟩
    exact handles.same same ⟨rfl, rfl, rfl⟩ ⟨rfl, rfl⟩
  | closesocket client => exact absurd permitted.2 (steady game List.suffix_rfl)
  | dropClient =>
    obtain ⟨h, earlier, failing⟩ := permitted
    exact absurd failing (steady h earlier)
  | running | accept | setClient | recv | applyControl | terminate | connect | receive | setSock
  | setLatest => exact permitted.elim
  | _ =>
    have kept := idle_history rfl r game
    exact handles.same (replies.idle rfl) ⟨rfl, rfl, rfl⟩ kept.2.2.2

theorem Handles.ipcStep (handles : Handles s game ipc) (permitted : clientPermits ipc e)
    (replies : s.Replies e r after) : Handles after game (⟨e, r⟩ :: ipc) := by
  cases e with
  | accept =>
    cases r with
    | none =>
      cases replies
      exact handles.same ⟨rfl, rfl, rfl, rfl⟩ ⟨rfl, rfl, rfl⟩ ⟨rfl, rfl⟩
    | some client =>
      obtain ⟨backlog, first, rfl⟩ := replies
      have arrivals := handles.arrivals.accept first
      have none_ : serving ipc = none := permitted.2
      refine ⟨arrivals.distinct, arrivals.waiting, arrivals.old, arrivals.hand, handles.client,
        fun c current => ?_, handles.held, handles.locked⟩
      cases none_.symm.trans current
  | setClient client =>
    obtain ⟨unlocked, rfl⟩ := replies
    have free : holding game = none := by
      cases holds : holding game with
      | none => rfl
      | some c =>
        rw [handles.locked (locking_of_holding holds)] at unlocked
        cases unlocked
    refine ⟨handles.distinct, handles.waiting, handles.old, handles.hand, rfl, fun c current => ?_,
      fun c holds => ?_, handles.locked⟩
    · cases client with
      | none => cases current
      | some client =>
        cases current
        exact permitted.1
    · cases free.symm.trans holds
  | recv client =>
    have same : after = s := by
      cases r <;> exact replies
    subst same
    exact handles.same ⟨rfl, rfl, rfl, rfl⟩ ⟨rfl, rfl, rfl⟩ ⟨rfl, rfl⟩
  | closesocket client =>
    cases replies
    refine ⟨handles.distinct, handles.waiting, handles.old, fun c current => (by cases current),
      handles.client, fun c current => ?_, handles.held, handles.locked⟩
    have none_ : serving ipc = none := permitted.2
    cases none_.symm.trans current
  | running | applyControl | terminate =>
    exact handles.same (replies.idle rfl) ⟨rfl, rfl, rfl⟩ ⟨rfl, rfl⟩
  | _ => exact permitted.elim

theorem Handles.readerStep (handles : Handles s game ipc) (reader : History Answer)
    (permitted : readerPermits reader e) (replies : s.Replies e r after) : Handles after game ipc := by
  cases e with
  | connect =>
    cases r with
    | none =>
      cases replies
      exact handles
    | some sock =>
      obtain ⟨_, rfl⟩ := replies
      have arrivals := handles.arrivals.connect
      exact { handles with distinct := arrivals.distinct, waiting := arrivals.waiting, old := arrivals.old }
  | receive | setSock | setLatest =>
    exact handles.same (replies.idle rfl) ⟨rfl, rfl, rfl⟩ ⟨rfl, rfl⟩
  | _ => exact permitted.elim

end Step

theorem Closings.gameStep {s : Shared} {game ipc : History Answer} {log : Log} {x : Entry Task Answer Shared}
    (closings_ : Closings log ipc) (handles : Handles s game ipc) (permitted : handlePermits game x.effect)
    (steady : ∀ h, h <:+ game → ¬ Failing h) : Closings (x :: log) ipc := by
  rcases x with ⟨thread, e, r, before, after⟩
  cases e with
  | send client data =>
    refine closings_.other rfl rfl (fun _ => rfl) ?_
    rintro c rfl
    have current := handles.held client permitted.1
    rw [handles.client] at current
    exact closings_.open_ client (.inr (handles.served client current))
  | closesocket client => exact absurd permitted.2 (steady game List.suffix_rfl)
  | accept | recv | setClient => exact permitted.elim
  | _ => exact closings_.other rfl rfl (fun _ => rfl) fun _ used => used.elim

theorem Closings.ipcStep {s after : Shared} {game ipc : History Answer} {log : Log} {thread : Task}
    {e : Effect} {r : Answer e} (closings_ : Closings log ipc) (handles : Handles s game ipc)
    (permitted : clientPermits ipc e) (replies : s.Replies e r after) :
    Closings (⟨thread, e, r, s, after⟩ :: log) (⟨e, r⟩ :: ipc) := by
  cases e with
  | accept =>
    cases r with
    | none => exact closings_.other rfl rfl (fun _ => rfl) fun _ used => used.elim
    | some client =>
      obtain ⟨backlog, first, rfl⟩ := replies
      have new : client ∉ accepted ipc := by
        apply (handles.waiting client _).2
        rw [first]
        exact List.mem_cons_self
      have old : ∀ c, closings c (⟨thread, .accept, some client, s, { s with backlog }⟩ :: log) =
          closings c log := fun c => closings_cons rfl log
      refine ⟨fun c free => ?_, fun c known gone => ?_, ?_⟩
      · rw [old]
        -- the number of the new client is one that nothing has been closed under
        rcases free with unknown | current
        · exact closings_.open_ c (.inl fun known => unknown (List.mem_cons_of_mem _ known))
        · cases current
          exact closings_.open_ client (.inl new)
      · rw [old]
        rcases List.mem_cons.mp known with rfl | known
        · exact absurd rfl gone
        · apply closings_.closed c known
          rw [permitted.1]
          simp
      · exact (closings_.other rfl rfl (x := ⟨thread, .accept, some client, s, { s with backlog }⟩)
          (fun _ => rfl) fun _ used => used.elim).unused
  | setClient client =>
    exact closings_.other rfl rfl (fun _ => rfl) fun _ used => used.elim
  | recv client =>
    refine closings_.other rfl rfl (fun _ => rfl) ?_
    rintro c rfl
    exact closings_.open_ client (.inr permitted)
  | closesocket client =>
    have current : inHand ipc = some client := permitted.1
    have before := closings_.open_ client (.inr current)
    have own : closings client (⟨thread, .closesocket client, r, s, after⟩ :: log) = 1 := by
      rw [closings, List.countP_cons_of_pos (by simp [closes])]
      exact congrArg (· + 1) before
    have others : ∀ c, c ≠ client →
        closings c (⟨thread, .closesocket client, r, s, after⟩ :: log) = closings c log := by
      intro c differs
      exact closings_cons (by simpa [closes] using differs.symm) log
    refine ⟨fun c free => ?_, fun c known _ => ?_, ?_⟩
    · rcases free with unknown | same
      · have differs : c ≠ client := by
          rintro rfl
          exact unknown (handles.hand c current)
        rw [others c differs]
        exact closings_.open_ c (.inl unknown)
      · cases same
    · by_cases same : c = client
      · subst same
        exact own
      · rw [others c same]
        apply closings_.closed c known
        rw [current]
        exact fun eq => same (Option.some.inj eq).symm
    · intro newer y older c eq used
      cases newer with
      | nil =>
        obtain ⟨rfl, rfl⟩ := List.cons.inj eq
        exact used.elim
      | cons z newer => exact closings_.unused newer y older c (List.cons.inj eq).2 used
  | running | applyControl | terminate =>
    exact closings_.other rfl rfl (fun _ => rfl) fun _ used => used.elim
  | _ => exact permitted.elim

theorem Steady.earlier {x : Entry Task Answer Shared} {log : Log} (steady : Steady (x :: log)) :
    Steady log := by
  intro h part
  refine steady h (part.trans ?_)
  rw [historyOf_cons]
  split
  · exact List.suffix_cons _ _
  · exact List.suffix_rfl

theorem run_handles (codec : Codec) (events : List (Task × Choice)) (steady : Steady (run codec events).log) :
    Handles (run codec events).shared (historyOf .game (run codec events).log)
        (historyOf .ipc (run codec events).log) ∧
      Closings (run codec events).log (historyOf .ipc (run codec events).log) := by
  revert steady
  refine (closeContract codec).run_log {} (P := fun s log => Steady log →
    Handles s (historyOf .game log) (historyOf .ipc log) ∧ Closings log (historyOf .ipc log)) ?_ ?_ events
  · refine fun _ => ⟨⟨.nil, ?_, ?_, ?_, rfl, ?_, ?_, ?_⟩, ⟨fun _ _ => rfl, ?_, ?_⟩⟩
    all_goals simp [accepted, inHand, serving, holding, locking, historyOf]
  · intro x log before answered permitted steady
    have replies := answered_replies answered rfl
    obtain ⟨handles, closings_⟩ := before steady.earlier
    rcases x with ⟨thread, e, r, s, after⟩
    cases thread with
    | game =>
      have calm : ∀ h, h <:+ historyOf .game log → ¬ Failing h := steady.earlier
      exact ⟨handles.gameStep permitted calm replies, closings_.gameStep handles permitted calm⟩
    | ipc => exact ⟨handles.ipcStep permitted replies, closings_.ipcStep handles permitted replies⟩
    | reader =>
      refine ⟨handles.readerStep (historyOf .reader log) permitted replies, ?_⟩
      cases e with
      | connect | receive | setSock | setLatest =>
        exact closings_.other rfl rfl (fun _ => rfl) fun _ used => used.elim
      | _ => exact permitted.elim

/-- As long as no send fails or stalls for good in the middle of a line, every client is closed once and
    never used after that. -/
theorem closedOnce_of_steady (codec : Codec) (events : List (Task × Choice))
    (steady : Steady (run codec events).log) : ClosedOnce (run codec events).log := by
  have closings_ := (run_handles codec events steady).2
  exact ⟨closings_.once, closings_.closed, closings_.unused⟩

def pushesInParts (clock : UInt32) : List (Task × Choice) :=
  [(.game, .calls (.turnHandleMessage .frameFinish none) tinyMemory), (.game, .go), (.game, .go), (.game, .go),
   (.game, .tick clock), (.game, .go), (.game, .bytes 9), (.game, .wait), (.game, .go),
   (.game, .bytes ((Dll.stateLine sampleCodec tinySnapshot).length - 9)), (.game, .go), (.game, .go)]

def leavesAfterPushes : List (Task × Choice) :=
  initialises ++ constructs ++ startsTurn 1 ++ joins ++ pushesInParts 15 ++ pushesInParts 30 ++ leaves

theorem closedOnce_of_leavesAfterPushes :
    ClosedOnce (run sampleCodec leavesAfterPushes).log :=
  closedOnce_of_steady sampleCodec leavesAfterPushes (by decide +kernel)

/-- The push of a frame fails, and the IPC thread goes on with the client that has been closed. -/
def closedTwice : List (Task × Choice) :=
  initialises ++ constructs ++ startsTurn 1 ++ joins ++
    [(.game, .calls (.turnHandleMessage .frameFinish none) tinyMemory), (.game, .go), (.game, .go),
     (.game, .go), (.game, .tick 15), (.game, .go), (.game, .fail), (.game, .go), (.game, .go),
     (.game, .go), (.ipc, .go), (.ipc, .fail), (.ipc, .go), (.ipc, .go)]

theorem closedTwice_closings :
    ¬ ∀ (codec : Codec) (events : List (Task × Choice)), ClosedOnce (run codec events).log := by
  intro always
  have once := (always sampleCodec closedTwice).once 0
  have twice : closings 0 (run sampleCodec closedTwice).log = 2 := by decide +kernel
  rw [twice] at once
  exact absurd once (by decide)

end WebControl.Link
