import WkWebControl.Backend.Contract

open Effects WebControl

namespace WebControl.Backend

inductive StateEffect where
  | backend (e : Effect)
  /-- `self._clients.add(ws)` and `discard(ws)` -/
  | addClient (n : Nat)
  | discardClient (n : Nat)
  /-- `list(self._clients)` -/
  | clients
  /-- `ws.send_json(msg)`; `none` is the envelope "offline". -/
  | sendState (n : Nat) (msg : Option Received)
  /-- The send of `connect`: what is sent is read right then, no `await` lies between. -/
  | sendLatest (n : Nat)
  | receiveText
  /-- `get_state().model_dump()` -/
  | respondState
  | ownTeam (email : String)

@[reducible] def StateAnswer : StateEffect → Type
  | .backend e => Answer e
  | .clients => List Nat
  | .sendState _ _ | .sendLatest _ | .receiveText => Bool
  | .ownTeam _ => Option Int
  | .addClient _ | .discardClient _ | .respondState => Unit

abbrev StateProg := Program StateEffect StateAnswer

inductive StateFlow where
  | backend (flow : Flow)
  | listening (n : Nat)
  | returned

def performs (e : StateEffect) : StateProg (StateAnswer e) := Program.call e

def Program.ofBackend {α : Type} (p : Prog α) : StateProg α :=
  p.translate StateEffect.backend fun _ r => r

def sendOne (msg : Option Received) (n : Nat) : StateProg Unit := do
  if ← performs (.sendState n msg) then return ()
  else performs (.discardClient n)

/-- A round of `_loop` with its sends, those of `asyncio.gather` one by one. -/
def stateLoop : StateProg StateFlow := do
  let snap ← performs (.backend .latestState)
  Program.ofBackend (detectNewGame snap)
  let clients ← performs .clients
  Program.forEach (sendOne snap) clients
  performs (.backend .sleep)
  return .backend .broadcast

def connect (n : Nat) : StateProg Unit := do
  performs (.addClient n)
  if ← performs (.sendLatest n) then return ()
  else performs (.discardClient n)

def wsState (n : Nat) : StateProg StateFlow := do
  let u ← performs (.backend .acceptSocket)
  if u.email = "" then return .returned
  else
    connect n
    return .listening n

/-- A round of the loop of `ws_state`, its `finally` included. -/
def listen (n : Nat) : StateProg StateFlow := do
  if ← performs .receiveText then return .listening n
  else
    performs (.discardClient n)
    return .returned

def monitor : StateProg StateFlow := do
  let _ ← performs (.backend .authenticate)
  performs .respondState
  return .returned

def me : StateProg StateFlow := do
  let u ← performs (.backend .authenticate)
  let _ ← performs (.ownTeam u.email)
  return .returned

inductive StateTask where
  | backend (t : Task)
  | stateSocket (n : Nat)
  | monitor (n : Nat)
  | me (n : Nat)
  deriving DecidableEq

structure StateShared where
  backend : Shared := {}
  clients : List Nat := []
  /-- The id the broadcaster is looking at. -/
  looking : Int := 0
  /-- The first id the broadcaster has seen, and the ids `on_new_game` has run for, the newest
      first. -/
  first : Option Int := none
  newGames : List Int := []

/-- What the environment decides: the order of the clients is that of a set. -/
inductive StateChoice where
  | backend (c : Choice)
  | order (clients : List Nat)

namespace StateShared

def remember (s : StateShared) : Effect → StateShared
  | .lastGameId seen => { s with looking := seen.snapshot.gameId }
  | .clearAll => { s with newGames := s.looking :: s.newGames }
  | .setLastGameId seen => { s with first := s.first.or (some seen.snapshot.gameId) }
  | _ => s

/-- The id the broadcaster has come to. -/
def current (s : StateShared) : Option Int := s.newGames.head?.or s.first

def reply (s : StateShared) (i : StateTask) :
    (e : StateEffect) → StateChoice → Option (StateAnswer e × StateShared)
  | .backend e, .backend c =>
    (s.backend.reply e c).map fun answer =>
      let s := if i = .backend .broadcaster then s.remember e else s
      (answer.1, { s with backend := answer.2 })
  | .addClient n, .backend .go => some ((), { s with clients := n :: s.clients.erase n })
  | .discardClient n, .backend .go => some ((), { s with clients := s.clients.erase n })
  | .clients, .order clients => if clients.Perm s.clients then some (clients, s) else none
  | .sendState _ _, .backend .go => some (true, s)
  | .sendState _ _, .backend .fail => some (false, s)
  | .sendLatest _, .backend .go => some (true, s)
  | .sendLatest _, .backend .fail => some (false, s)
  | .receiveText, .backend .go => some (true, s)
  | .receiveText, .backend .fail => some (false, s)
  | .respondState, .backend .go => some ((), s)
  | .ownTeam email, .backend .go => some (s.backend.store.teamForEmail email, s)
  | _, _ => none

end StateShared

def stateStart : StateTask → StateProg StateFlow
  | .backend .broadcaster => stateLoop
  | .backend t => Program.ofBackend (start t) >>= fun flow => return .backend flow
  | .stateSocket n => wsState n
  | .monitor _ => monitor
  | .me _ => me

def stateAgain : StateTask → StateFlow → StateProg StateFlow
  | .backend .broadcaster, _ => stateLoop
  | _, .backend flow => Program.ofBackend (again flow) >>= fun flow => return .backend flow
  | _, .listening n => listen n
  | _, .returned => return .returned

/-- The backend with the browsers that watch: any number of sockets, of requests for the snapshot
    and of requests for the own team. -/
def stateSystem :
    System StateTask StateEffect StateAnswer StateShared StateChoice StateFlow where
  reply s i e c := s.reply i e c
  start := stateStart
  again := stateAgain

abbrev StateLog := List (Entry StateTask StateAnswer StateShared)

/-- The backend starts anew; the store is what the database holds. -/
def stateRun (store : MappingStore) (events : List (StateTask × StateChoice)) :
    State StateTask StateEffect StateAnswer StateShared StateFlow :=
  stateSystem.run (stateSystem.initial { backend := { store } }) events

end WebControl.Backend
