import WkWebControl.Effects.Program
import WkWebControl.Backend.Protocol
import WkWebControl.Backend.Store

open Effects WebControl

namespace WebControl.Backend

/-- A snapshot as the transport keeps it. `process` numbers the WA process it came from; no code
    can see it, it only tells apart games that got the same id in two processes. -/
structure Received where
  process : Nat
  snapshot : GameSnapshot
  deriving DecidableEq

inductive Incoming where
  | json (msg : Json)
  /-- No text, or a text that is no JSON. -/
  | malformed
  | disconnect

inductive Reply where
  | ok (action : ControlAction) (phase : ControlPhase)
  | unknownAction (raw : Json)
  | unknownPhase (raw : Json)
  | notYourTurn (turnTeam : Option Int)
  | gameOffline

def Reply.isOk : Reply → Bool
  | .ok _ _ => true
  | _ => false

def Reply.encodable : Reply → Bool
  | .unknownAction .unpaired | .unknownPhase .unpaired => false
  | _ => true

inductive ClaimResponse where
  | claimed (team : Int) (email : String)
  | conflict (detail : String)
  | offline
  deriving DecidableEq, Repr

inductive LinkUpdate where
  | connected
  | snapshot (received : Received)
  | dropped

inductive AdminRequest where
  | deleteMapping (team : Int)
  | clearMappings

/-- The points at which a thread of the backend meets another thread, a socket or the database.
    The arguments `seen` name the snapshot a thread has in hand; they are there to be
    spoken about and decide nothing. -/
inductive Effect where
  | acceptSocket
  | receiveJson
  | sendJson (reply : Reply)
  | iterate (held : List ControlAction)
  | latestState
  | emailForTeam (team : Int) (seen : Received)
  | sendCommand (cmd : CommandMessage)
  | authenticate
  | teamForEmail (email : String) (seen : Received)
  | claim (team : Int) (email : String) (seen : Received)
  | respond (response : ClaimResponse)
  | nextRequest
  | deleteMapping (team : Int)
  | clearAll
  | lastGameId (seen : Received)
  | setLastGameId (seen : Received)
  | sleep
  | nextUpdate
  | setSock (connected : Bool)
  | setLatest (latest : Option Received)

/-- `sendJson` answers whether the client is still there, `sendCommand` whether the line was
    written (`false` is the `GameOfflineError`), `iterate` an order to visit a set in. -/
@[reducible] def Answer : Effect → Type
  | .acceptSocket | .authenticate => User
  | .receiveJson => Incoming
  | .sendJson _ | .sendCommand _ | .claim _ _ _ => Bool
  | .iterate held => { order : List ControlAction // order.Perm held }
  | .latestState => Option Received
  | .emailForTeam _ _ => Option String
  | .teamForEmail _ _ => Option Int
  | .lastGameId _ => Int
  | .nextUpdate => LinkUpdate
  | .nextRequest => AdminRequest
  | .respond _ | .deleteMapping _ | .clearAll | .setLastGameId _ | .sleep | .setSock _
  | .setLatest _ => Unit

abbrev Prog := Program Effect Answer

abbrev call (e : Effect) : Prog (Answer e) := Program.call e

structure Held where
  actions : List ControlAction := []
  team : Option Int := none
  deriving DecidableEq

namespace Held

def add (l : Held) (team : Option Int) (action : ControlAction) : Held :=
  ⟨if action ∈ l.actions then l.actions else l.actions ++ [action], team⟩

def discard (l : Held) (team : Option Int) (action : ControlAction) : Held :=
  ⟨l.actions.filter (· ≠ action), team⟩

end Held

inductive Outcome where
  | goOn (l : Held)
  | disconnected (l : Held)
  | raised (l : Held)

inductive Flow where
  | control (u : User) (l : Held)
  | broadcast
  | read
  | admin
  | returned
  /-- An exception other than `WebSocketDisconnect` has left `control`; `l` is what it held. -/
  | raised (l : Held)
  deriving DecidableEq

def str : Option Int → String
  | none => "None"
  | some team => toString team

def releaseMessage (team : Int) (action : ControlAction) : CommandMessage :=
  { team := toString team, action, phase := .release }

def releaseHeld (l : Held) : Prog Held :=
  match l.team with
  | none => return l
  | some team => do
    let order ← call (.iterate l.actions)
    -- a `GameOfflineError` is passed over
    Program.forEach (fun act => do
      let _ ← call (.sendCommand (releaseMessage team act))
      return ()) order.val
    return { l with actions := [] }

/-- `_is_users_turn`; `none` for the `GameOfflineError` of `get_state`. -/
def isUsersTurn (email : String) : Prog (Option (Bool × Option Int)) := do
  match ← call .latestState with
  | none => return none
  | some state =>
    match state.snapshot.turnTeam with
    | none => return some (false, none)
    | some turnTeam =>
      let owner ← call (.emailForTeam turnTeam state)
      return some (owner == some email, some turnTeam)

/-- `ws.send_json(reply)` and back to the head of the loop. The errors quote what the client has
    sent, which the socket then cannot encode if it is `unpaired`. -/
def answer (l : Held) (reply : Reply) : Prog Outcome := do
  if ← call (.sendJson reply) then
    if reply.encodable then return .goOn l else return .raised l
  else return .disconnected l

/-- `msg.get("action")`, `msg.get("phase", "press")` and `msg.get("value", 0)` -/
def actionRaw (fields : List (String × Json)) : Json := (Json.field? fields "action").getD .null

def phaseRaw (fields : List (String × Json)) : Json :=
  (Json.field? fields "phase").getD (.str ControlPhase.press.value)

def valueRaw (fields : List (String × Json)) : Json := (Json.field? fields "value").getD (.int 0)

def handleMessage (u : User) (l : Held) (fields : List (String × Json)) : Prog Outcome :=
  match ControlAction.ofValue? (actionRaw fields) with
  | none => answer l (.unknownAction (actionRaw fields))
  | some action =>
    match ControlPhase.ofValue? (phaseRaw fields) with
    | none => answer l (.unknownPhase (phaseRaw fields))
    | some phase => do
      match ← isUsersTurn u.email with
      | none => answer l .gameOffline
      | some (false, turnTeam) => do
        let l ← releaseHeld l
        answer l (.notYourTurn turnTeam)
      | some (true, turnTeam) =>
        match Python.int? (valueRaw fields) with
        | none => return .raised l
        | some value =>
          if ← call (.sendCommand ⟨str turnTeam, action, phase, value⟩) then
            let l :=
              if action.oneShot then l
              else match phase with
                | .press => l.add turnTeam action
                | .release => l.discard turnTeam action
            answer l (.ok action phase)
          else answer l .gameOffline

/-- One round of the loop of `control`, its `except WebSocketDisconnect` included. -/
def control (u : User) (l : Held) : Prog Flow := do
  let outcome ← (do
    match ← call .receiveJson with
    | .disconnect => return .disconnected l
    | .malformed => return .raised l
    | .json (.obj fields) => handleMessage u l fields
    -- `msg.get` on anything but a dict
    | .json _ => return .raised l)
  match outcome with
  | .goOn l => return .control u l
  | .disconnected l =>
    let _ ← releaseHeld l
    return .returned
  | .raised l => return .raised l

def openControl : Prog Flow := do
  let u ← call .acceptSocket
  if u.email = "" then return .returned else return .control u {}

def claim (u : User) : Prog ClaimResponse := do
  match ← call .latestState with
  | none => return .offline
  | some state =>
    match ← call (.teamForEmail u.email state) with
    | some existing => return .conflict ("You already control team " ++ toString existing)
    | none =>
      match state.snapshot.turnTeam with
      | none => return .conflict "No team is currently taking its turn"
      | some turnTeam =>
        if ← call (.claim turnTeam u.email state) then
          return .claimed turnTeam u.email
        else return .conflict ("Team " ++ toString turnTeam ++ " is already claimed")

def claimRequest : Prog Flow := do
  let u ← call .authenticate
  let response ← claim u
  call (.respond response)
  return .returned

def adminRequest : Prog Flow := do
  match ← call .nextRequest with
  | .deleteMapping team => call (.deleteMapping team)
  | .clearMappings => call .clearAll
  return .admin

/-- `_detect_new_game`, with the callback `_on_new_game` of `lifespan`. -/
def detectNewGame (snap : Option Received) : Prog Unit :=
  match snap with
  | none => return ()
  | some state =>
    if state.snapshot.gameId = 0 then return ()
    else do
      let last ← call (.lastGameId state)
      if state.snapshot.gameId = last then return ()
      else
        if last ≠ 0 then call .clearAll
        call (.setLastGameId state)

def broadcastLoop : Prog Flow := do
  let snap ← call .latestState
  detectNewGame snap
  call .sleep
  return .broadcast

/-- What `_reader_loop` and `_on_line` do to `_sock` and `_latest`. -/
def readerLoop : Prog Flow := do
  match ← call .nextUpdate with
  | .connected => call (.setSock true)
  | .snapshot received => call (.setLatest (some received))
  | .dropped =>
    call (.setSock false)
    call (.setLatest none)
  return .read

end WebControl.Backend
