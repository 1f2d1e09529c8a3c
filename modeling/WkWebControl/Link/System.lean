import Mathlib.Logic.Function.Basic
import WkWebControl.Effects.System
import WkWebControl.Backend.Ipc
import WkWebControl.Dll.ControlHooks

open Effects WebControl

namespace WebControl.Link

structure Connection where
  sent : List UInt8 := []
  /-- How many bytes of that the backend has received. -/
  received : Nat := 0
  closed : Bool := false

structure Shared where
  control : Dll.ControlState := {}
  currentTurnTeam : Int := -1
  memory : Dll.Memory := {}
  published : Dll.GameSnapshot := {}
  /-- `g_client` and `g_clientMutex` -/
  client : Option Socket := none
  locked : Bool := false
  terminated : Bool := false
  /-- The connections, how many there have been, and those waiting for `accept`. -/
  net : Socket → Connection := fun _ => {}
  connections : Nat := 0
  backlog : List Socket := []
  /-- `_sock` and `_latest` of the transport -/
  sock : Option Socket := none
  latest : Option Backend.GameSnapshot := none

inductive Task where
  | game
  | ipc
  | reader
  deriving DecidableEq

inductive Choice where
  | go
  | fail
  | wait
  /-- WA has run, changed its memory and calls a hook. -/
  | calls (c : GameCall) (memory : Dll.Memory)
  /-- WA has handled a message, with these messages to its turn game on the way. -/
  | handled (nested : List (Dll.TaskMessage × Option Int)) (memory : Dll.Memory)
  | tick (now : UInt32)
  | bytes (n : Nat)
  | data (bytes : List UInt8)

namespace Shared

def update (s : Shared) (socket : Socket) (c : Connection) : Shared :=
  { s with net := Function.update s.net socket c }

def writeWeapon (m : Dll.Memory) (worm : Nat) (index : Int) (entry : UInt32) : Dll.Memory :=
  { m with turnGame := m.turnGame.map fun tg =>
      { tg with task := tg.task.writeWeapon worm index entry } }

def reply (s : Shared) : (e : Effect) → Choice → Option (Answer e × Shared)
  | .nextCall, .calls c memory => some (c, { s with memory })
  | .readMemory, .go => some (s.memory, s)
  | .loadTurn, .go => some (s.currentTurnTeam, s)
  | .storeTurn team, .go => some ((), { s with currentTurnTeam := team })
  | .publish snap, .go => some ((), { s with published := snap })
  | .getTickCount, .tick now => some (now, s)
  | .lockClient, .go => if s.locked then none else some (s.client, { s with locked := true })
  | .dropClient, .go => some ((), { s with client := none })
  | .unlockClient, .go => some ((), { s with locked := false })
  | .send client data, .bytes n =>
    if fits : (0 < n ∧ n ≤ data.length) ∧ (s.net client).closed = false then
      some (.sent n fits.1.1 fits.1.2, s.update client
        { s.net client with sent := (s.net client).sent ++ data.take n })
    else none
  | .send _ _, .wait => some (.wouldBlock, s)
  | .send _ _, .fail => some (.error, s)
  | .readControl, .go => some (s.control, { s with control := s.control.consume })
  | .clearControl, .go => some ((), { s with control := {} })
  | .writeWeapon worm index entry, .go =>
    some ((), { s with memory := writeWeapon s.memory worm index entry })
  | .dispatch _ _, .handled nested memory =>
    some ((), { s with
      memory
      currentTurnTeam := nested.foldl (fun turn m => Dll.trackTurn turn m.1 m.2) s.currentTurnTeam })
  | .running, .go => some (true, s)
  | .running, .fail => some (false, s)
  | .accept, .go =>
    match s.backlog with
    | client :: backlog => some (some client, { s with backlog })
    | [] => none
  | .accept, .fail => some (none, s)
  | .setClient client, .go => if s.locked then none else some ((), { s with client })
  -- what the backend writes, in pieces of at most 2048 bytes
  | .recv _, .data bytes =>
    if bytes ≠ [] ∧ bytes.length ≤ 2048 then some (.data bytes, s) else none
  | .recv _, .go => some (.closed, s)
  | .recv _, .wait => some (.wouldBlock, s)
  | .recv _, .fail => some (.error, s)
  | .applyControl action phase value, .go =>
    some ((), { s with control := s.control.apply action phase value })
  | .closesocket client, .go => some ((), s.update client { s.net client with closed := true })
  -- the system closes what the process had open
  | .terminate, .go =>
    some ((), { s with terminated := true, net := fun c => { s.net c with closed := true } })
  | .connect, .go =>
    some (some s.connections,
      { s with connections := s.connections + 1, backlog := s.backlog ++ [s.connections] })
  | .connect, .fail => some (none, s)
  | .receive sock, .bytes n =>
    if 0 < n ∧ n ≤ 16384 ∧ (s.net sock).received + n ≤ (s.net sock).sent.length then
      some (.data (((s.net sock).sent.drop (s.net sock).received).take n), s.update sock
        { s.net sock with received := (s.net sock).received + n })
    else none
  | .receive sock, .go =>
    if (s.net sock).closed ∧ (s.net sock).received = (s.net sock).sent.length then
      some (.closed, s)
    else none
  | .receive _, .fail => some (.error, s)
  | .setSock sock, .go => some ((), { s with sock })
  | .setLatest latest, .go => some ((), { s with latest })
  | _, _ => none

/-- A program of the plugin with nothing in between, nothing failing and nothing to wait for. -/
def exec {α : Type} (s : Shared) (p : Prog α) : Option (α × Shared) :=
  Program.exec (fun s e => s.reply e .go) s p

end Shared

def start (codec : Codec) : Task → Prog Flow
  | .game => Dll.gameThread codec {}
  | .ipc => Dll.serverLoop
  | .reader => Backend.TcpIpcTransport.readerLoop

def again (codec : Codec) : Flow → Prog Flow
  | .game g => Dll.gameThread codec g
  | .accepting => Dll.serverLoop
  | .serving client buffer => Dll.serveClient codec client buffer
  | .connecting => Backend.TcpIpcTransport.readerLoop
  | .consuming sock buf => Backend.TcpIpcTransport.consume codec sock buf
  | .stopped => .done .stopped
  | .terminated => .done .terminated

/-- The plugin with its two threads, and the reader thread of the backend at the other end. An
    exception in the plugin ends its process and with it WA. -/
def system (codec : Codec) : System Task Effect Answer Shared Choice Flow where
  reply s i e c := if s.terminated ∧ i ≠ .reader then none else s.reply e c
  start := start codec
  again _ flow := again codec flow

abbrev Log := List (Entry Task Answer Shared)
abbrev Running := State Task Effect Answer Shared Flow

def run (codec : Codec) (events : List (Task × Choice)) : Running :=
  (system codec).run ((system codec).initial {}) events

def returned : Prog Flow → Bool
  | .perform .nextCall _ => true
  | _ => false

def ascii (text : String) : List UInt8 := text.toList.map fun c => UInt8.ofNat c.toNat

mutual

def compact : Json → List UInt8
  | .null | .unpaired | .float _ => ascii "null"
  | .bool b => ascii (if b then "true" else "false")
  | .int n => ascii (toString n)
  | .str text => ascii "\"" ++ ascii text ++ ascii "\""
  | .arr items => ascii "[" ++ compactItems items ++ ascii "]"
  | .obj fields => ascii "\x7b" ++ compactFields fields ++ ascii "\x7d"

def compactItems : List Json → List UInt8
  | [] => []
  | [item] => compact item
  | item :: items => compact item ++ ascii "," ++ compactItems items

def compactFields : List (String × Json) → List UInt8
  | [] => []
  | [(key, value)] => ascii "\"" ++ ascii key ++ ascii "\":" ++ compact value
  | (key, value) :: fields =>
    ascii "\"" ++ ascii key ++ ascii "\":" ++ compact value ++ ascii "," ++ compactFields fields

end

def pressLeft : Backend.CommandMessage := ⟨"0", .moveLeft, .press, 0⟩

def releaseLeft : Backend.CommandMessage := ⟨"0", .moveLeft, .release, 0⟩

def tinyGame : Dll.TurnGame := { task := .mk 0 6 {} {} [] }

def tinyMemory : Dll.Memory := { gameGlobal := 1, turnGame := some tinyGame }

def tinySnapshot : Dll.GameSnapshot := Dll.turnSnapshot { gameId := 1 } tinyMemory tinyGame 1

/-- Readers and a writer that do right by the lines of the sample runs. -/
def sampleCodec : Codec where
  parse line := ([pressLeft, releaseLeft].map Backend.CommandMessage.modelDump).find? fun j =>
    compact j == line
  dump := compact
  loads line := ([{}, tinySnapshot].map Dll.stateJson).find? fun j => compact j == line
  laxInt _ := none
  laxBool _ := none

def commandLine (cmd : Backend.CommandMessage) : List UInt8 := compact cmd.modelDump ++ [newline]

def joins : List (Task × Choice) :=
  [(.reader, .go), (.reader, .go), (.ipc, .go), (.ipc, .go), (.ipc, .go)]

def receives (cmd : Backend.CommandMessage) : List (Task × Choice) :=
  [(.ipc, .go), (.ipc, .data (commandLine cmd)), (.ipc, .go)]

def leaves : List (Task × Choice) := [(.ipc, .go), (.ipc, .go), (.ipc, .go), (.ipc, .go)]

def initialises : List (Task × Choice) := [(.game, .calls (.initializeW2App 1) tinyMemory)]

def constructs : List (Task × Choice) :=
  [(.game, .calls .constructGameGlobal tinyMemory), (.game, .go)]

def destroys : List (Task × Choice) :=
  [(.game, .calls .destroyGameGlobal tinyMemory), (.game, .go), (.game, .go), (.game, .go)]

def startsTurn (team : Int) : List (Task × Choice) :=
  [(.game, .calls (.turnHandleMessage .turnStarted (some team)) tinyMemory), (.game, .go)]

def frames : List (Task × Choice) :=
  [(.game, .calls (.turnHandleMessage .frameFinish none) tinyMemory), (.game, .go), (.game, .go),
   (.game, .go), (.game, .tick 0), (.game, .go)]

def dispatches : List (Task × Choice) :=
  [(.game, .go), (.game, .go), (.game, .handled [] tinyMemory)]

end WebControl.Link
