import WkWebControl.Link.Adopted
import WkWebControl.Link.Clients
import WkWebControl.Link.PushRate

open Effects WebControl Program
open WebControl.Dll (GameSnapshot)

namespace WebControl.Link

def games : History Answer → Int
  | [] => 0
  | ⟨.nextCall, .constructGameGlobal⟩ :: h => games h + 1
  | _ :: h => games h

def snapshots : History Answer → List GameSnapshot
  | [] => []
  | ⟨.publish snap, _⟩ :: h => snapshots h ++ [snap]
  | _ :: h => snapshots h

def fresh : History Answer → Bool
  | [] => false
  | ⟨.publish _, _⟩ :: _ => true
  | ⟨.lockClient, _⟩ :: _ => false
  | _ :: h => fresh h

def spent : History Answer → Bool
  | [] => false
  | ⟨.publish _, _⟩ :: _ => false
  | ⟨.send _ data, .sent n _ _⟩ :: h => if n = data.length then true else spent h
  | _ :: h => spent h

def pushed : History Answer → List (Socket × GameSnapshot)
  | [] => []
  | ⟨.send client data, .sent n _ _⟩ :: h =>
    if n = data.length then pushed h ++ (snapshots h).getLast?.toList.map (client, ·) else pushed h
  | _ :: h => pushed h

def forwardPermits (h : History Answer) : Effect → Prop
  | .lockClient => fresh h = true
  | .send _ _ => ∃ snap, (snapshots h).getLast? = some snap ∧ snap.gameId = games h
  | _ => True

def forwardPost : Flow → History Answer → Prop
  | .game g, h => games h = g.gameId
  | _, _ => False

section Game

variable {h : History Answer} {id : Int}

theorem buildSnapshot_gameId (g : Statics) :
    Performing looks (Dll.buildSnapshot g) h fun snap => snap.gameId = g.gameId := by
  unfold Dll.buildSnapshot
  split
  · rfl
  · simp only [Performing, meets_bind, call, meets_call]
    refine ⟨rfl, fun memory => ?_⟩
    split
    · rfl
    · simp only [meets_bind, meets_call]
      exact ⟨rfl, fun _ => rfl⟩

theorem Performing.sameGame {Q : Effect → Bool} {α : Type} {p : Prog α} {post : α → Prop}
    (performing : Performing Q p h post) (quiet : ∀ e, Q e = true → looks e = true ∨ plays e = true)
    (game : games h = id) : Meets forwardPermits (fun a after => post a ∧ games after = id) p h := by
  apply performing.keeps game
  intro after e kept performed
  rcases quiet e performed with look | play
  · cases e <;> first | exact ⟨trivial, fun _ => kept⟩ | cases look
  · cases e <;> first | exact ⟨trivial, fun _ => kept⟩ | cases play

structure OfGame (id : Int) (h : History Answer) : Prop where
  game : games h = id
  newest : ∃ snap, (snapshots h).getLast? = some snap ∧ snap.gameId = games h

theorem sendLoop_forward (client : Socket) (line : List UInt8) (fuel : Nat) (p : List UInt8) (spins : Nat)
    (ofGame : OfGame id h) :
    Meets forwardPermits (fun _ => OfGame id) (Dll.sendLoop client line fuel p spins) h := by
  have sends : Meets (fun _ e => pushes e = true ∧ neither e = true) (fun _ _ => True)
      (Dll.sendLoop client line fuel p spins) h :=
    ((sendLoop_pushing client line fuel p spins).and (sendLoop_neither client line fuel p spins)).mono
      fun _ _ _ => trivial
  refine (sends.keeps ofGame fun after e kept performed => ?_).mono fun _ _ both => both.2
  cases e with
  | send => exact ⟨kept.newest, fun _ => ⟨kept.game, kept.newest⟩⟩
  | dropClient | unlockClient | closesocket => exact ⟨trivial, fun _ => ⟨kept.game, kept.newest⟩⟩
  | lockClient | getTickCount => cases performed.2
  | _ => cases performed.1

theorem pushState_forward (codec : Codec) (g : Statics) (snap : GameSnapshot) (new : fresh h = true)
    (ofGame : OfGame g.gameId h) :
    Meets forwardPermits (fun (g' : Statics) after => games after = g'.gameId) (Dll.pushState codec g snap) h := by
  simp only [Dll.pushState, meets_bind, call, meets_call]
  refine ⟨trivial, fun now => ?_⟩
  split
  · exact ofGame.game
  · simp only [meets_bind, meets_call]
    refine ⟨new, fun client => ?_⟩
    cases client with
    | none => exact ⟨trivial, fun _ => ofGame.game⟩
    | some client =>
      have locked : OfGame g.gameId (⟨.lockClient, some client⟩ :: ⟨.getTickCount, now⟩ :: h) :=
        ⟨ofGame.game, ofGame.newest⟩
      simp only [meets_bind]
      exact (sendLoop_forward client _ _ _ _ locked).mono fun _ _ kept => ⟨trivial, fun _ => kept.game⟩

theorem onFrame_forward (codec : Codec) {g : Statics} (game : games h = g.gameId) :
    Meets forwardPermits (fun (g' : Statics) after => games after = g'.gameId) (Dll.onFrame codec g) h := by
  simp only [Dll.onFrame, meets_bind, call]
  apply ((buildSnapshot_gameId g).sameGame (fun _ => .inl) game).mono
  rintro snap read ⟨own, game⟩
  refine ⟨trivial, fun _ => ?_⟩
  have newest : OfGame g.gameId (⟨.publish snap, ()⟩ :: read) :=
    ⟨game, snap, List.getLast?_concat, own.trans game.symm⟩
  apply (pushState_forward codec g snap (h := ⟨.publish snap, ()⟩ :: read) rfl newest).mono
  intro g' after game
  split
  · apply ((applyHeldInput_plays g').sameGame (fun _ => .inr) game).mono
    rintro _ last ⟨⟨_, rfl⟩, game⟩
    exact game
  · exact game

theorem gameThread_forward (codec : Codec) {g : Statics} (game : games h = g.gameId) :
    Meets forwardPermits forwardPost (Dll.gameThread codec g) h := by
  simp only [Dll.gameThread, meets_bind, call, meets_call]
  refine ⟨trivial, fun next => ?_⟩
  cases next with
  | initializeW2App ddGame => exact game
  | constructGameGlobal =>
    simp only [Dll.hookConstructGameGlobal, meets_bind, call, meets_call]
    exact ⟨trivial, fun _ => congrArg (· + 1) game⟩
  | destroyGameGlobal =>
    simp only [Dll.hookDestroyGameGlobal, Dll.onGameTornDown, meets_bind, call]
    exact ⟨trivial, fun _ => ⟨trivial, fun _ => ⟨trivial, fun _ => game⟩⟩⟩
  | turnHandleMessage mtype data =>
    rw [meets_bind]
    apply hookTurnHandleMessage_meets mtype data
    · exact game
    · exact fun team => ⟨trivial, game⟩
    · exact fun _ => onFrame_forward codec (h := ⟨.nextCall, .turnHandleMessage mtype data⟩ :: h) game

end Game

theorem newest_published (h : History Answer) : (published h).map Prod.fst = (snapshots h).getLast? := by
  induction h with
  | nil => rfl
  | cons s h ih =>
    rcases s with ⟨e, r⟩
    cases e with
    | publish snap => exact List.getLast?_concat.symm
    | _ => exact ih

structure Pushes (codec : Codec) (h : History Answer) : Prop where
  order : ((pushed h).map Prod.snd).Sublist (if spent h then snapshots h else (snapshots h).dropLast)
  sent : spent h = true → sofar h = line codec h ∧ fresh h = false
  held : ∀ c, holding h = some c → fresh h = false
  ids : (pushed h).Pairwise fun p q => p.2.gameId ≤ q.2.gameId
  past : ∀ p ∈ pushed h, p.2.gameId ≤ games h

section Pushes

variable {codec : Codec} {h : History Answer}

theorem Pushes.published (pushes : Pushes codec h) : ((pushed h).map Prod.snd).Sublist (snapshots h) := by
  apply pushes.order.trans
  split
  · exact List.Sublist.refl _
  · exact List.dropLast_sublist _

theorem Pushes.send (pushes : Pushes codec h) {client : Socket} {data : List UInt8}
    (permitted : pushPermits codec h (.send client data)) (forward : forwardPermits h (.send client data))
    (r : Sent data.length) : Pushes codec (⟨.send client data, r⟩ :: h) := by
  obtain ⟨held, left, rest⟩ := permitted
  have begun : spent h = false := by
    cases all : spent h with
    | false => rfl
    | true =>
      rw [(pushes.sent all).1] at rest
      exact absurd (List.self_eq_append_right.mp rest) left
  cases r with
  | sent n some_ within =>
    by_cases whole : n = data.length
    · obtain ⟨snap, newest, game⟩ := forward
      have after : pushed (⟨.send client data, .sent n some_ within⟩ :: h) = pushed h ++ [(client, snap)] := by
        rw [pushed, if_pos whole, newest]
        rfl
      have last : spent (⟨.send client data, .sent n some_ within⟩ :: h) = true := if_pos whole
      refine ⟨?_, fun _ => ⟨?_, pushes.held client held⟩, pushes.held, ?_, ?_⟩
      · have order := pushes.order
        rw [begun, if_neg Bool.false_ne_true] at order
        rw [after, last, if_pos rfl, List.map_append]
        change (_ ++ [snap]).Sublist (snapshots h)
        rw [← List.dropLast_append_getLast? snap newest]
        exact order.append_right [snap]
      · change sofar h ++ data.take n = line codec h
        rw [rest, whole, List.take_length]
      · rw [after, List.pairwise_append]
        refine ⟨pushes.ids, List.pairwise_singleton _ _, fun p member q new => ?_⟩
        rw [List.mem_singleton.mp new, game]
        exact pushes.past p member
      · intro p member
        rw [after] at member
        rcases List.mem_append.mp member with old | new
        · exact pushes.past p old
        · rw [List.mem_singleton.mp new]
          exact le_of_eq game
    · have same : pushed (⟨.send client data, .sent n some_ within⟩ :: h) = pushed h := if_neg whole
      have still : spent (⟨.send client data, .sent n some_ within⟩ :: h) = spent h := if_neg whole
      refine ⟨?_, ?_, pushes.held, same ▸ pushes.ids, same ▸ pushes.past⟩
      · rw [same, still]
        exact pushes.order
      · rw [still, begun]
        exact fun all => by cases all
  | wouldBlock | error => exact ⟨pushes.order, pushes.sent, pushes.held, pushes.ids, pushes.past⟩

theorem Pushes.step (pushes : Pushes codec h) {e : Effect} (permitted : pushPermits codec h e)
    (forward : forwardPermits h e) (r : Answer e) : Pushes codec (⟨e, r⟩ :: h) := by
  cases e with
  | send client data => exact pushes.send permitted forward r
  | publish snap =>
    refine ⟨?_, fun all => (by cases all), fun c held => ?_, pushes.ids, pushes.past⟩
    · change List.Sublist _ (snapshots h ++ [snap]).dropLast
      rw [List.dropLast_concat]
      exact pushes.published
    · cases permitted.1.symm.trans held
  | lockClient =>
    refine ⟨pushes.order, fun all => ?_, fun _ _ => rfl, pushes.ids, pushes.past⟩
    have old := (pushes.sent all).2
    rw [show fresh h = true from forward] at old
    cases old
  | unlockClient => exact ⟨pushes.order, pushes.sent, fun c held => (by cases held), pushes.ids, pushes.past⟩
  | nextCall =>
    have later : games h ≤ games (⟨.nextCall, r⟩ :: h) := by
      cases r with
      | constructGameGlobal => exact Int.le_add_one (Int.le_refl _)
      | _ => exact Int.le_refl _
    exact ⟨pushes.order, pushes.sent, pushes.held, pushes.ids, fun p member => (pushes.past p member).trans later⟩
  | _ => exact ⟨pushes.order, pushes.sent, pushes.held, pushes.ids, pushes.past⟩

end Pushes

structure Queued (s : Shared) (ipc : History Answer) : Prop where
  accepted : (accepted ipc).Pairwise (· > ·)
  waiting : s.backlog.Pairwise (· < ·)
  later : ∀ a ∈ Link.accepted ipc, ∀ c ∈ s.backlog, a < c
  old : ∀ c ∈ s.backlog, c < s.connections

/-- A push goes to the newest client, so that the pushes follow the connections. -/
structure Routed (game ipc : History Answer) : Prop where
  order : (pushed game).Pairwise fun p q => p.1 ≤ q.1
  known : ∀ p ∈ pushed game, p.1 ∈ accepted ipc

theorem newest_of_inHand {ipc : History Answer} {c : Socket} (hand : inHand ipc = some c) :
    ∃ older, accepted ipc = c :: older := by
  induction ipc with
  | nil => cases hand
  | cons s ipc ih =>
    rcases s with ⟨e, r⟩
    cases e with
    | accept =>
      cases r with
      | none => exact ih hand
      | some client =>
        cases hand
        exact ⟨_, rfl⟩
    | closesocket client => cases hand
    | _ => exact ih hand

def queues : Effect → Bool
  | .accept | .connect => true
  | _ => false

section Queues

variable {codec : Codec} {s after : Shared} {game ipc ipc' : History Answer} {e : Effect} {r : Answer e}

theorem Shared.Replies.queue (replies : s.Replies e r after) (other : queues e = false) :
    after.backlog = s.backlog ∧ after.connections = s.connections := by
  cases e with
  | accept | connect => cases other
  | nextCall | readMemory | loadTurn | readControl | setClient =>
    obtain ⟨_, rfl⟩ := replies
    exact ⟨rfl, rfl⟩
  | dispatch | lockClient =>
    obtain ⟨_, _, rfl⟩ := replies
    exact ⟨rfl, rfl⟩
  | send client data =>
    cases r with
    | sent n some_ within =>
      obtain ⟨_, rfl⟩ := replies
      exact ⟨rfl, rfl⟩
    | _ =>
      cases replies
      exact ⟨rfl, rfl⟩
  | receive sock =>
    cases r with
    | data bytes =>
      obtain ⟨_, _, _, rfl⟩ := replies
      exact ⟨rfl, rfl⟩
    | _ =>
      cases replies
      exact ⟨rfl, rfl⟩
  | _ =>
    cases replies
    exact ⟨rfl, rfl⟩

theorem Queued.other (queued : Queued s ipc) (replies : s.Replies e r after) (none_ : queues e = false)
    (same : Link.accepted ipc' = Link.accepted ipc) : Queued after ipc' := by
  obtain ⟨backlog, connections⟩ := replies.queue none_
  refine ⟨?_, ?_, ?_, ?_⟩
  · rw [same]
    exact queued.accepted
  · rw [backlog]
    exact queued.waiting
  · rw [same, backlog]
    exact queued.later
  · rw [backlog, connections]
    exact queued.old

theorem Queued.accept (queued : Queued s ipc) {client : Socket} {backlog : List Socket}
    (first : s.backlog = client :: backlog) : Queued { s with backlog } (⟨.accept, some client⟩ :: ipc) := by
  obtain ⟨ordered, waiting, later, old⟩ := queued
  rw [first] at waiting later old
  rw [List.pairwise_cons] at waiting
  refine ⟨?_, waiting.2, ?_, fun c member => old c (List.mem_cons_of_mem _ member)⟩
  · rw [Link.accepted, List.pairwise_cons]
    exact ⟨fun a member => later a member client List.mem_cons_self, ordered⟩
  · intro a member c behind
    rcases List.mem_cons.mp member with rfl | before
    · exact waiting.1 c behind
    · exact later a before c (List.mem_cons_of_mem _ behind)

theorem Queued.ipcStep (queued : Queued s ipc) (permitted : clientPermits ipc e)
    (replies : s.Replies e r after) : Queued after (⟨e, r⟩ :: ipc) := by
  cases e with
  | accept =>
    cases r with
    | none =>
      cases replies
      exact ⟨queued.accepted, queued.waiting, queued.later, queued.old⟩
    | some client =>
      obtain ⟨_, first, rfl⟩ := replies
      exact queued.accept first
  | connect => exact permitted.elim
  | _ => exact queued.other replies rfl rfl

theorem Queued.connect (queued : Queued s ipc) (known : ∀ a ∈ Link.accepted ipc, a < s.connections) :
    Queued { s with connections := s.connections + 1, backlog := s.backlog ++ [s.connections] } ipc := by
  refine ⟨queued.accepted, ?_, ?_, ?_⟩
  · change (s.backlog ++ [s.connections]).Pairwise (· < ·)
    rw [List.pairwise_append]
    refine ⟨queued.waiting, List.pairwise_singleton _ _, fun c member new last => ?_⟩
    rw [List.mem_singleton.mp last]
    exact queued.old c member
  · intro a member c behind
    rcases List.mem_append.mp behind with waits | last
    · exact queued.later a member c waits
    · rw [List.mem_singleton.mp last]
      exact known a member
  · intro c member
    rcases List.mem_append.mp member with waits | last
    · exact Nat.lt_succ_of_lt (queued.old c waits)
    · rw [List.mem_singleton.mp last]
      exact Nat.lt_succ_self _

theorem Queued.readerStep (queued : Queued s ipc) (arrivals : Arrivals s ipc) (reader : History Answer)
    (permitted : readerPermits reader e) (replies : s.Replies e r after) : Queued after ipc := by
  cases e with
  | connect =>
    cases r with
    | none =>
      cases replies
      exact queued
    | some sock =>
      obtain ⟨_, rfl⟩ := replies
      exact queued.connect arrivals.old
  | accept => exact permitted.elim
  | _ => exact queued.other replies rfl rfl

theorem accepted_grows (ipc : History Answer) (x : Step Answer) : accepted ipc ⊆ accepted (x :: ipc) := by
  intro c member
  rcases x with ⟨e, r⟩
  cases e with
  | accept =>
    cases r with
    | none => exact member
    | some client => exact List.mem_cons_of_mem _ member
  | _ => exact member

theorem Routed.gameStep (routed : Routed game ipc) (queued : Queued s ipc) (clients : Clients s game ipc)
    (permitted : pushPermits codec game e) : Routed (⟨e, r⟩ :: game) ipc := by
  cases e with
  | send client data =>
    cases r with
    | sent n some_ within =>
      have hand := clients.served client (clients.holds client permitted.1)
      obtain ⟨older, newest⟩ := newest_of_inHand hand
      have order := queued.accepted
      rw [newest, List.pairwise_cons] at order
      have last : ∀ c ∈ accepted ipc, c ≤ client := by
        intro c member
        rw [newest] at member
        rcases List.mem_cons.mp member with rfl | before
        · exact Nat.le_refl _
        · exact Nat.le_of_lt (order.1 c before)
      have own : ∀ p ∈ (snapshots game).getLast?.toList.map (client, ·), p.1 = client := by
        intro p member
        obtain ⟨_, _, rfl⟩ := List.mem_map.mp member
        rfl
      have single : ((snapshots game).getLast?.toList.map (client, ·)).Pairwise
          fun p q => p.1 ≤ q.1 := by
        cases (snapshots game).getLast? with
        | none => exact .nil
        | some snap => exact List.pairwise_singleton _ _
      by_cases whole : n = data.length
      · have after : pushed (⟨.send client data, .sent n some_ within⟩ :: game) =
            pushed game ++ (snapshots game).getLast?.toList.map (client, ·) := if_pos whole
        refine ⟨?_, fun p member => ?_⟩
        · rw [after, List.pairwise_append]
          refine ⟨routed.order, single, fun p member q new => ?_⟩
          rw [own q new]
          exact last p.1 (routed.known p member)
        · rw [after] at member
          rcases List.mem_append.mp member with before | new
          · exact routed.known p before
          · rw [own p new, newest]
            exact List.mem_cons_self
      · have same : pushed (⟨.send client data, .sent n some_ within⟩ :: game) = pushed game := if_neg whole
        exact ⟨same ▸ routed.order, same ▸ routed.known⟩
    | wouldBlock | error => exact ⟨routed.order, routed.known⟩
  | _ => exact ⟨routed.order, routed.known⟩

end Queues

section Run

variable {codec : Codec} {events : List (Task × Choice)}

def forwardContract (codec : Codec) : (system codec).Contract :=
  ((streamContract codec).and (outcomeContract codec)).and
    (.ofThread (S := system codec) (i := .game) (gameThread_forward codec rfl) fun flow h game => by
      cases flow with
      | game g => exact gameThread_forward codec game
      | _ => exact game.elim)

structure PushOrder (codec : Codec) (s : Shared) (game ipc : History Answer) : Prop where
  pushes : Pushes codec game
  queued : Queued s ipc
  routed : Routed game ipc
  clients : Clients s game ipc

theorem PushOrder.entry {x : Entry Task Answer Shared} {log : Log}
    (ordered : PushOrder codec x.before (historyOf .game log) (historyOf .ipc log))
    (answered : (system codec).Answered x)
    (permitted : (forwardContract codec).permits x.thread (historyOf x.thread log) x.effect) :
    PushOrder codec x.after (historyOf .game (x :: log)) (historyOf .ipc (x :: log)) := by
  have replies := answered_replies answered rfl
  obtain ⟨⟨stream, outcome⟩, forward⟩ := permitted
  have clients := clients_keeps x log ordered.clients answered outcome
  rcases x with ⟨thread, e, r, s, after⟩
  cases thread with
  | game =>
    have quiet : queues e = false := by cases e <;> first | rfl | exact stream.elim
    exact ⟨ordered.pushes.step stream (forward rfl) r, ordered.queued.other replies quiet rfl,
      ordered.routed.gameStep ordered.queued ordered.clients stream, clients⟩
  | ipc =>
    have known : Routed (historyOf .game log) (⟨e, r⟩ :: historyOf .ipc log) :=
      ⟨ordered.routed.order, fun p member => accepted_grows _ _ (ordered.routed.known p member)⟩
    exact ⟨ordered.pushes, ordered.queued.ipcStep outcome.1 replies, known, clients⟩
  | reader =>
    have arrivals := ordered.clients.toArrivals
    exact ⟨ordered.pushes, ordered.queued.readerStep arrivals (historyOf .reader log) outcome replies,
      ordered.routed, clients⟩

theorem run_pushOrder (codec : Codec) (events : List (Task × Choice)) :
    PushOrder codec (run codec events).shared (historyOf .game (run codec events).log)
      (historyOf .ipc (run codec events).log) := by
  apply (forwardContract codec).run_log {}
    (P := fun s log => PushOrder codec s (historyOf .game log) (historyOf .ipc log))
  · refine ⟨⟨.slnil, ?_, ?_, .nil, ?_⟩, ⟨.nil, .nil, ?_, ?_⟩, ⟨.nil, ?_⟩, clients_initial⟩
    all_goals simp [spent, holding, pushed, accepted]
  · exact fun x log ordered answered permitted => ordered.entry answered permitted

def shown : History Answer → List Backend.GameSnapshot
  | [] => []
  | ⟨.setLatest (some snap), _⟩ :: g => shown g ++ [snap]
  | _ :: g => shown g

def pushedBefore (k : Nat) (h : History Answer) : List Backend.GameSnapshot :=
  ((pushed h).filter (·.1 < k)).map fun p => Backend.gameSnapshot p.2

theorem filter_upTo {α : Type} (key : α → Nat) {l : List α} (ordered : l.Pairwise fun a b => key a ≤ key b)
    (k : Nat) : l.filter (key · < k) ++ l.filter (key · = k) = l.filter (key · < k + 1) := by
  induction l with
  | nil => rfl
  | cons a l ih =>
    rw [List.pairwise_cons] at ordered
    have rest := ih ordered.2
    simp only [List.filter_cons, decide_eq_true_eq]
    by_cases before : key a < k
    · rw [if_pos before, if_neg (by omega), if_pos (by omega), List.cons_append, rest]
    · have none_ : l.filter (key · < k) = [] := by
        rw [List.filter_eq_nil_iff]
        intro b member
        have := ordered.1 b member
        simp
        omega
      rw [none_, List.nil_append] at rest
      rw [if_neg before, none_, List.nil_append]
      by_cases at_ : key a = k
      · rw [if_pos at_, if_pos (by omega), rest]
      · rw [if_neg at_, if_neg (by omega), rest]

theorem completed_pushed (c : Socket) (h : History Answer) :
    (completed c h).map Prod.fst = ((pushed h).filter (·.1 = c)).map Prod.snd := by
  induction h with
  | nil => rfl
  | cons s h ih =>
    rcases s with ⟨e, r⟩
    cases e with
    | send client data =>
      cases r with
      | sent n some_ within =>
        rw [completed, pushed, ← newest_published]
        by_cases whole : n = data.length
        · by_cases own : client = c
          · rw [if_pos ⟨own, whole⟩, if_pos whole, List.map_append, List.filter_append, List.map_append, ih]
            cases published h <;> simp [own]
          · rw [if_neg fun both => own both.1, if_pos whole, List.filter_append, List.map_append, ih]
            cases published h <;> simp [own]
        · rw [if_neg fun both => whole both.2, if_neg whole, ih]
      | wouldBlock | error => exact ih
    | _ => exact ih

theorem adopted_pushed (standards : Standards codec (run codec events)) {sock : Socket}
    (current : onSock (historyOf .reader (run codec events).log) = some sock) :
    ((adopted (historyOf .reader (run codec events).log)).filterMap (reads codec)).Sublist
      (((pushed (historyOf .game (run codec events).log)).filter (·.1 = sock)).map fun p =>
        Backend.gameSnapshot p.2) := by
  have streams := run_streams codec events
  have order := (adopted_shown codec events).1.trans (taken_lines standards current).sublist
  have readable : ∀ p ∈ completed sock (historyOf .game (run codec events).log),
      (reads codec ∘ fun p => (Dll.stateLine codec p.1).dropLast) p = (some ∘ (Backend.gameSnapshot ∘ Prod.fst)) p := by
    intro p member
    change reads codec (Dll.stateLine codec p.1).dropLast = _
    rw [dropLast_stateLine]
    exact (standards p.1 (streams.framed.completed sock p member).2).carries.reads
  have lines := order.filterMap (reads codec)
  rw [pushedLines, List.filterMap_map, List.filterMap_congr readable, List.filterMap_eq_map, ← List.map_map,
    completed_pushed, List.map_map] at lines
  exact lines

/-- What has been shown is what earlier connections have brought, and after that what is shown from the
    current one. -/
def Brought (codec : Codec) (s : Shared) (game reader : History Answer) : Prop :=
  ∃ past, shown reader = past ++ (adopted reader).filterMap (reads codec) ∧
    past.Sublist (pushedBefore ((onSock reader).getD s.connections) game)

theorem pushedBefore_grows (k : Nat) (h : History Answer) (x : Step Answer) :
    (pushedBefore k h).Sublist (pushedBefore k (x :: h)) := by
  rcases x with ⟨e, r⟩
  cases e with
  | send client data =>
    cases r with
    | sent n some_ within =>
      unfold pushedBefore
      rw [pushed]
      split
      · rw [List.filter_append, List.map_append]
        exact List.sublist_append_left _ _
      · exact List.Sublist.refl _
    | wouldBlock | error => exact List.Sublist.refl _
  | _ => exact List.Sublist.refl _

theorem pushedBefore_mono {k m : Nat} (le : k ≤ m) (h : History Answer) :
    (pushedBefore k h).Sublist (pushedBefore m h) := by
  apply List.Sublist.map
  apply List.monotone_filter_right
  intro p before
  have smaller : p.1 < k := of_decide_eq_true before
  exact decide_eq_true (Nat.lt_of_lt_of_le smaller le)

theorem Brought.all (standards : Standards codec (run codec events))
    (brought : Brought codec (run codec events).shared (historyOf .game (run codec events).log)
      (historyOf .reader (run codec events).log)) :
    (shown (historyOf .reader (run codec events).log)).Sublist
      (pushedBefore (run codec events).shared.connections (historyOf .game (run codec events).log)) := by
  obtain ⟨past, split, earlier⟩ := brought
  have receiver := (run_streams codec events).receiver
  rw [split]
  cases current : onSock (historyOf .reader (run codec events).log) with
  | none =>
    have order := (adopted_shown codec events).1
    rw [receiver.idle current] at order
    rw [List.sublist_nil.mp order, List.filterMap_nil, List.append_nil]
    rw [current] at earlier
    exact earlier
  | some sock =>
    rw [current] at earlier
    have both := earlier.append (adopted_pushed standards current)
    rw [pushedBefore, Option.getD_some, ← List.map_append,
      filter_upTo Prod.fst (run_pushOrder codec events).routed.order] at both
    exact both.trans (pushedBefore_mono (receiver.current sock current).1 _)

section Step

variable {s after : Shared} {game reader : History Answer}

theorem Brought.other (brought : Brought codec s game reader) {game' : History Answer}
    (grows : ∀ k, (pushedBefore k game).Sublist (pushedBefore k game'))
    (connections : after.connections = s.connections) :
    Brought codec after game' reader := by
  obtain ⟨past, split, earlier⟩ := brought
  refine ⟨past, split, ?_⟩
  rw [connections]
  exact earlier.trans (grows _)

theorem Brought.readerStep (brought : Brought codec s game reader)
    (all : (shown reader).Sublist (pushedBefore s.connections game)) {e : Effect} {r : Answer e}
    (permitted : adoptPermits codec reader e) (replies : s.Replies e r after) :
    Brought codec after game (⟨e, r⟩ :: reader) := by
  have ended : shown reader = shown reader ++ [] := (List.append_nil _).symm
  cases e with
  | connect =>
    cases r with
    | none =>
      cases replies
      exact ⟨shown reader, ended, all⟩
    | some sock =>
      obtain ⟨rfl, rfl⟩ := replies
      exact ⟨shown reader, ended, all⟩
  | setLatest latest =>
    cases replies
    cases latest with
    | none => exact ⟨shown reader, ended, all⟩
    | some snap =>
      obtain ⟨past, split, earlier⟩ := brought
      obtain ⟨line, last, read⟩ := Option.bind_eq_some_iff.mp permitted.line
      refine ⟨past, ?_, earlier⟩
      have new : adopted (⟨.setLatest (some snap), r⟩ :: reader) = adopted reader ++ [line] := by
        rw [adopted, last]
        rfl
      rw [new, List.filterMap_append, ← List.append_assoc, ← split, List.filterMap_cons_some read]
      rfl
  | receive sock =>
    obtain ⟨past, split, earlier⟩ := brought
    have same : after.connections = s.connections := (replies.queue rfl).2
    refine ⟨past, split, ?_⟩
    rw [same]
    exact earlier
  | setSock sock =>
    cases replies
    exact brought
  | _ => exact permitted.elim

end Step

def showContract (codec : Codec) : (system codec).Contract :=
  (streamContract codec).and
    (.ofThread (S := system codec) (i := .reader) (readerLoop_adopts ⟨rfl, rfl, rfl⟩ : Meets (adoptPermits codec) _ _ _)
      fun flow h post => by
        cases flow with
        | connecting => exact readerLoop_adopts post
        | consuming sock buf => exact consume_adopts post
        | _ => exact post.elim)

theorem run_shown (codec : Codec) (events : List (Task × Choice)) (standards : Standards codec (run codec events)) :
    Brought codec (run codec events).shared (historyOf .game (run codec events).log)
      (historyOf .reader (run codec events).log) := by
  revert standards
  apply (showContract codec).run_reached {}
    (P := fun s log => (∀ snap, (⟨.publish snap, ()⟩ : Step Answer) ∈ historyOf .game log → codec.Standard snap) →
      Brought codec s (historyOf .game log) (historyOf .reader log))
  · exact fun _ => ⟨[], rfl, List.nil_sublist _⟩
  intro events x state before answered permitted standards
  have replies := answered_replies answered rfl
  obtain ⟨stream, adopts⟩ := permitted
  rcases x with ⟨thread, e, r, s, after⟩
  cases thread with
  | game =>
    have brought := before fun snap member => standards snap (List.mem_cons_of_mem _ member)
    exact brought.other (pushedBefore_grows · _ _) (replies.receiving (pushPermits_takes stream)).2.1
  | ipc =>
    have brought := before standards
    have same := (replies.receiving (ipcPermits_takes stream)).2.1
    exact brought.other (fun _ => List.Sublist.refl _) same
  | reader =>
    have brought := before standards
    change s = _ at state
    rw [state] at brought replies
    exact brought.readerStep (brought.all standards) (adopts rfl) replies

/-- Whatever becomes of the connections, the snapshots that the backend shows are those of frames, each at most
    once and in the order of the frames, and their games follow each other: it never goes back. -/
theorem shown_forward (standards : Standards codec (run codec events)) :
    (shown (historyOf .reader (run codec events).log)).Sublist
      ((snapshots (historyOf .game (run codec events).log)).map Backend.gameSnapshot) ∧
    (shown (historyOf .reader (run codec events).log)).Pairwise fun earlier later => earlier.gameId ≤ later.gameId := by
  have all := (run_shown codec events standards).all standards
  have pushes := (run_pushOrder codec events).pushes
  have order : (pushedBefore (run codec events).shared.connections (historyOf .game (run codec events).log)).Sublist
      ((pushed (historyOf .game (run codec events).log)).map fun p => Backend.gameSnapshot p.2) :=
    List.filter_sublist.map _
  constructor
  · have published := pushes.published.map Backend.gameSnapshot
    rw [List.map_map] at published
    exact (all.trans order).trans published
  · apply List.Pairwise.sublist (all.trans order)
    rw [List.pairwise_map]
    exact pushes.ids

end Run

def secondSnapshot : GameSnapshot := { tinySnapshot with gameId := 2 }

/-- The connection is lost after a frame of the first game, and a frame of the second comes on a new one. -/
def acrossGames : List (Task × Choice) :=
  lastFrame ++ [(.reader, .fail), (.reader, .go), (.reader, .go), (.reader, .go), (.reader, .go)] ++ leaves ++
    [(.ipc, .go), (.ipc, .go), (.ipc, .go)] ++ initialises ++ constructs ++ startsTurn 1 ++
    [(.game, .calls (.turnHandleMessage .frameFinish none) tinyMemory), (.game, .go), (.game, .go), (.game, .go),
     (.game, .tick 30), (.game, .go),
     (.game, .bytes (Dll.stateLine sampleCodec secondSnapshot).length), (.game, .go)] ++
    lineTaken secondSnapshot

theorem shown_forward_acrossGames :
    (shown (historyOf .reader (run plainCodec acrossGames).log)).map (·.gameId) = [1, 2] ∧
      (shown (historyOf .reader (run plainCodec acrossGames).log)).Sublist
        ((snapshots (historyOf .game (run plainCodec acrossGames).log)).map Backend.gameSnapshot) :=
  ⟨by decide +kernel, (shown_forward fun snap _ => plainCodec_standard snap).1⟩

end WebControl.Link
