import Mathlib.Algebra.Group.Nat.Defs
import Mathlib.Algebra.Ring.Int.Defs
import WkWebControl.Lines
import WkWebControl.Link

open Effects WebControl WebControl.Link

namespace WebControl.Dll

/-- The numbers of the `json::type_error` that `json::value` can throw. -/
inductive TypeError where
  | wrongType
  | notAnObject
  deriving DecidableEq, Repr

/-- `json::value(key, default)` for a default string. -/
def valueString (j : Json) (key default : String) : Except TypeError String :=
  match j with
  | .obj fields =>
    match Json.field? fields key with
    | none => return default
    | some (.str text) => return text
    | some _ => throw .wrongType
  | _ => throw .notAnObject

/-- `static_cast<int>` of a number; what has no value in C++ comes out as x86 computes it. -/
def indefinite : Int := -(2 ^ 31)

def intOfDouble : Double → Int
  | .finite q =>
    if -(2 ^ 31) ≤ Json.truncate q ∧ Json.truncate q < 2 ^ 31 then Json.truncate q else indefinite
  | _ => indefinite

/-- Integers of more than 64 bits reach the cast as doubles. -/
def intOfInteger (n : Int) : Int :=
  if -(2 ^ 63) ≤ n ∧ n < 2 ^ 64 then n.bmod (2 ^ 32) else indefinite

def valueInt (j : Json) (key : String) (default : Int) : Except TypeError Int :=
  match j with
  | .obj fields =>
    match Json.field? fields key with
    | none => return default
    | some (.int n) => return intOfInteger n
    | some (.float d) => return intOfDouble d
    | some (.bool b) => return if b then 1 else 0
    | some _ => throw .wrongType
  | _ => throw .notAnObject

/-- What `handleCommand` reads from a parsed line; `none` when it returns early. -/
def readCommand (j : Json) : Except TypeError (Option (ControlAction × ControlPhase × Int)) := do
  let type ← valueString j "type" ""
  if type ≠ kTypeCommand then return none
  match parseAction (← valueString j "action" "") with
  | none => return none
  | some action =>
    let phase := parsePhase (← valueString j "phase" "")
    let value ← valueInt j "value" 0
    return some (action, phase, value)

/-- `handleCommand`; `false` when a `type_error` has left it. -/
def handleCommand (codec : Codec) (line : List UInt8) : Prog Bool :=
  match codec.parse line with
  | none => return true
  | some j =>
    match readCommand j with
    | .error _ => do
      call .terminate
      return false
    | .ok none => return true
    | .ok (some (action, phase, value)) => do
      call (.applyControl action phase value)
      return true

def handleLines (codec : Codec) : List (List UInt8) → Prog Bool
  | [] => return true
  | line :: lines => do
    if line.isEmpty then handleLines codec lines
    else if ← handleCommand codec line then handleLines codec lines
    else return false

/-- `serveClient` returns, and `serverLoop` closes the socket. -/
def leaveClient (client : Socket) : Prog Flow := do
  call (.setClient none)
  call (.closesocket client)
  return .accepting

/-- One round of the loop of `serveClient`. -/
def serveClient (codec : Codec) (client : Socket) (buffer : List UInt8) : Prog Flow := do
  if ← call .running then
    match ← call (.recv client) with
    | .data bytes =>
      let lines := Lines.split newline (buffer ++ bytes)
      if ← handleLines codec lines.1 then return .serving client lines.2
      else return .terminated
    | .wouldBlock => return .serving client buffer
    | .closed | .error => leaveClient client
  else leaveClient client

/-- One round of the loop of `serverLoop`, up to the first round of `serveClient`. -/
def serverLoop : Prog Flow := do
  if ← call .running then
    match ← call .accept with
    | none => return .stopped
    | some client =>
      call (.setClient (some client))
      return .serving client []
  else return .stopped

def stateLine (codec : Codec) (s : GameSnapshot) : List UInt8 := codec.dump (stateJson s) ++ [newline]

def giveUp (client : Socket) : Prog Unit := do
  call (.closesocket client)
  call .dropClient

/-- The loop that sends what is left of `line`. Each round either sends something or is one of at
    most 201 that cannot, so `fuel` is never the reason to stop. -/
def sendLoop (client : Socket) (line : List UInt8) : Nat → List UInt8 → Nat → Prog Unit
  | _, [], _ => return ()
  | 0, _, _ => return ()
  | fuel + 1, p, spins => do
    match ← call (.send client p) with
    | .sent n _ _ => sendLoop client line fuel (p.drop n) spins
    | .wouldBlock =>
      if p.length = line.length then return ()
      else if spins + 1 > 200 then giveUp client
      else sendLoop client line fuel p (spins + 1)
    | .error => giveUp client

def pushState (codec : Codec) (g : Statics) (snapshot : GameSnapshot) : Prog Statics := do
  let now ← call .getTickCount
  if now - g.lastPushTick < 15 then return g
  match ← call .lockClient with
  | none =>
    call .unlockClient
    return g
  | some client =>
    let line := stateLine codec snapshot
    sendLoop client line (line.length + 201) line 0
    call .unlockClient
    return { g with lastPushTick := now }

end WebControl.Dll
