import Mathlib.Data.List.Perm.Basic
import Mathlib.Data.Prod.Lex
import WkWebControl.Effects.System
import WkWebControl.Backend.Main

open Effects WebControl

namespace WebControl.Backend

/-- A game: the number of its WA process and its id in that process, in the order they are played. -/
abbrev Game : Type := Nat ×ₗ Int

def Received.game (r : Received) : Game := toLex (r.process, r.snapshot.gameId)

/-- What no code can see but claims about games speak of. -/
structure Ghost where
  /-- The game of the newest snapshot that has arrived. -/
  arrived : Option Game := none
  /-- The game of the newest snapshot the broadcaster is through with. -/
  processed : Option Game := none
  /-- The game of the snapshot on which a team was claimed last. -/
  granted : Int → Option Game := fun _ => none

structure Shared where
  latest : Option Received := none
  connected : Bool := false
  store : MappingStore := .empty
  lastGameId : Int := 0
  ghost : Ghost := {}

inductive Task where
  | reader
  | broadcaster
  | session (n : Nat)
  | request (n : Nat)
  | administrator (n : Nat)
  deriving DecidableEq

inductive Choice where
  | go
  | fail
  | user (u : User)
  | incoming (received : Incoming)
  | order (actions : List ControlAction)
  | update (u : LinkUpdate)
  | admin (r : AdminRequest)

namespace Shared

def reply (s : Shared) : (e : Effect) → Choice → Option (Answer e × Shared)
  | .acceptSocket, .user u => some (u, s)
  | .authenticate, .user u => some (u, s)
  | .receiveJson, .incoming received => some (received, s)
  | .sendJson _, .go => some (true, s)
  | .sendJson _, .fail => some (false, s)
  | .iterate held, .order actions =>
    if perm : actions.Perm held then some (⟨actions, perm⟩, s) else none
  | .latestState, .go => some (s.latest, s)
  | .emailForTeam team _, .go => some (s.store.emailForTeam team, s)
  | .teamForEmail email _, .go => some (s.store.teamForEmail email, s)
  | .claim team email seen, .go =>
    let (granted, store) := s.store.claim team email
    if granted then
      some (true, { s with
        store, ghost := { s.ghost with
          granted := Function.update s.ghost.granted team (some seen.game) } })
    else some (false, s)
  -- no socket is the `GameOfflineError`; with one the write can still fail
  | .sendCommand _, .go => some (s.connected, s)
  | .sendCommand _, .fail => some (false, s)
  | .respond _, .go => some ((), s)
  | .nextRequest, .admin r => some (r, s)
  | .deleteMapping team, .go => some ((), { s with store := s.store.deleteMapping team })
  | .clearAll, .go => some ((), { s with store := s.store.clearAll })
  | .lastGameId seen, .go =>
    some (s.lastGameId,
      if seen.snapshot.gameId = s.lastGameId then
        { s with ghost := { s.ghost with processed := some seen.game } }
      else s)
  | .setLastGameId seen, .go =>
    some ((), { s with
      lastGameId := seen.snapshot.gameId
      ghost := { s.ghost with processed := some seen.game } })
  | .sleep, .go => some ((), s)
  | .nextUpdate, .update u => some (u, s)
  | .setSock connected, .go => some ((), { s with connected })
  | .setLatest (some received), .go =>
    some ((), { s with
      latest := some received, ghost := { s.ghost with arrived := some received.game } })
  | .setLatest none, .go => some ((), { s with latest := none })
  | _, _ => none

end Shared

def start : Task → Prog Flow
  | .reader => readerLoop
  | .broadcaster => broadcastLoop
  | .session _ => openControl
  | .request _ => claimRequest
  | .administrator _ => adminRequest

def again : Flow → Prog Flow
  | .control u l => control u l
  | .broadcast => broadcastLoop
  | .read => readerLoop
  | .admin => adminRequest
  | .returned => .done .returned
  | .raised l => .done (.raised l)

/-- The backend: the reader thread, the broadcaster and any number of sessions and requests. -/
def system : System Task Effect Answer Shared Choice Flow where
  reply s _ e c := s.reply e c
  start := start
  again _ flow := again flow

abbrev Log := List (Entry Task Answer Shared)
abbrev Running := State Task Effect Answer Shared Flow

def run (s : Shared) (events : List (Task × Choice)) : Running :=
  system.run (system.initial s) events

def alice : User := .ofHeader "Alice@Example.com"

def bob : User := .ofHeader "bob@example.com"

def buttonFrame (action : ControlAction) (phase : ControlPhase) : Incoming :=
  .json (.obj [("action", .str action.value), ("phase", .str phase.value)])

def gameOn (gameId : Int) (turnTeam : Option Int) : GameSnapshot :=
  { gameId, roundActive := true, numTeams := 2, turnTeam }

def arrives (process : Nat) (snapshot : GameSnapshot) : List (Task × Choice) :=
  [(.reader, .update (.snapshot ⟨process, snapshot⟩)), (.reader, .go)]

def connects : List (Task × Choice) := [(.reader, .update .connected), (.reader, .go)]

def drops : List (Task × Choice) := [(.reader, .update .dropped), (.reader, .go), (.reader, .go)]

def requests (n : Nat) (u : User) : List (Task × Choice) :=
  [(.request n, .user u), (.request n, .go), (.request n, .go), (.request n, .go), (.request n, .go)]

def ticks : List (Task × Choice) :=
  [(.broadcaster, .go), (.broadcaster, .go), (.broadcaster, .go), (.broadcaster, .go)]

/-- The plugin connects, game 1 arrives, and alice claims the team on turn. -/
def opening : List (Task × Choice) :=
  connects ++ arrives 0 (gameOn 1 (some 0)) ++ requests 0 alice

def pressing (action : ControlAction) : List (Task × Choice) :=
  [(.session 0, .user alice), (.session 0, .incoming (buttonFrame action .press)),
   (.session 0, .go), (.session 0, .go), (.session 0, .go)]

end WebControl.Backend
