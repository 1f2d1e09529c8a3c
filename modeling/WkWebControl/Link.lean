import WkWebControl.Effects.Program
import WkWebControl.Backend.Protocol
import WkWebControl.Dll.ControlState
import WkWebControl.Dll.Entities

open Effects WebControl

namespace WebControl.Link

abbrev Socket : Type := Nat

def newline : UInt8 := 10

/-- The JSON libraries at the two ends, and the conversions pydantic makes from values of another
    type than a field has. -/
structure Codec where
  /-- `json::parse` -/
  parse : List UInt8 → Option Json
  /-- `json::dump` -/
  dump : Json → List UInt8
  /-- What `model_validate_json` reads from a line. -/
  loads : List UInt8 → Option Json
  laxInt : Json → Option Int
  laxBool : Json → Option Bool

inductive GameCall where
  | initializeW2App (ddGame : UInt32)
  | constructGameGlobal
  | destroyGameGlobal
  | turnHandleMessage (mtype : Dll.TaskMessage) (data : Option Int)

inductive Sent (limit : Nat) where
  | sent (n : Nat) (some_ : 0 < n) (within : n ≤ limit)
  | wouldBlock
  | error

inductive Chunk where
  | data (bytes : List UInt8)
  | closed
  | wouldBlock
  | error

/-- The points at which the game thread, the IPC thread of the plugin and the reader thread of the
    backend meet each other, the network and WA. -/
inductive Effect where
  | nextCall
  | readMemory
  | loadTurn
  | storeTurn (team : Int)
  | publish (snap : Dll.GameSnapshot)
  | getTickCount
  | lockClient
  | dropClient
  | unlockClient
  | send (client : Socket) (data : List UInt8)
  | readControl
  | clearControl
  | writeWeapon (worm : Nat) (index : Int) (entry : UInt32)
  /-- `HandleMessage` of the turn game; `payload` is the leading DWORD of its buffer. -/
  | dispatch (mtype : Dll.TaskMessage) (payload : Int)
  | running
  | accept
  | setClient (client : Option Socket)
  | recv (client : Socket)
  | applyControl (action : Dll.ControlAction) (phase : Dll.ControlPhase) (value : Int)
  | closesocket (client : Socket)
  /-- An exception leaves the function of a `std::thread`. -/
  | terminate
  | connect
  | receive (sock : Socket)
  | setSock (sock : Option Socket)
  | setLatest (snap : Option Backend.GameSnapshot)

@[reducible] def Answer : Effect → Type
  | .nextCall => GameCall
  | .readMemory => Dll.Memory
  | .loadTurn => Int
  | .getTickCount => UInt32
  | .lockClient | .accept | .connect => Option Socket
  | .send _ data => Sent data.length
  | .readControl => Dll.ControlState
  | .running => Bool
  | .recv _ | .receive _ => Chunk
  | .storeTurn _ | .publish _ | .dropClient | .unlockClient | .clearControl | .writeWeapon _ _ _
  | .dispatch _ _ | .setClient _ | .applyControl _ _ _ | .closesocket _ | .terminate | .setSock _
  | .setLatest _ => Unit

abbrev Prog := Program Effect Answer

abbrev call (e : Effect) : Prog (Answer e) := Program.call e

/-- The variables of the plugin that only its game thread uses. -/
structure Statics where
  addrDdGame : UInt32 := 0
  addrGameGlobal : UInt32 := 0
  gameId : Int := 0
  wasFiring : Bool := false
  lastPushTick : UInt32 := 0

inductive Flow where
  | game (g : Statics)
  | accepting
  | serving (client : Socket) (buffer : List UInt8)
  | stopped
  | terminated
  | connecting
  | consuming (sock : Socket) (buf : List UInt8)

end WebControl.Link
