import WkWebControl.Json.Writer

namespace WebControl.Backend

open WebControl

inductive ControlAction where
  | moveLeft
  | moveRight
  | aimUp
  | aimDown
  | selectWeapon
  | fire
  | jump
  deriving DecidableEq, Repr

namespace ControlAction

def all : List ControlAction :=
  [.moveLeft, .moveRight, .aimUp, .aimDown, .selectWeapon, .fire, .jump]

def value : ControlAction → String
  | moveLeft => "move_left"
  | moveRight => "move_right"
  | aimUp => "aim_up"
  | aimDown => "aim_down"
  | selectWeapon => "select_weapon"
  | fire => "fire"
  | jump => "jump"

/-- `ControlAction(raw)`; `none` for the `ValueError`. A missing field is `None` in Python. -/
def ofValue? : Json → Option ControlAction
  | .str text => all.find? fun a => a.value == text
  | _ => none

def oneShot : ControlAction → Bool
  | selectWeapon | jump => true
  | _ => false

end ControlAction

inductive ControlPhase where
  | press
  | release
  deriving DecidableEq, Repr

namespace ControlPhase

def value : ControlPhase → String
  | press => "press"
  | release => "release"

def ofValue? : Json → Option ControlPhase
  | .str text => [press, release].find? fun p => p.value == text
  | _ => none

end ControlPhase

structure CommandMessage where
  team : String
  action : ControlAction
  phase : ControlPhase
  value : Int := 0
  deriving DecidableEq, Repr

/-- What `to_wire` puts on a line: `model_dump` in field order. -/
def CommandMessage.modelDump (cmd : CommandMessage) : Json :=
  .obj [("type", .str "cmd"), ("team", .str cmd.team), ("action", .str cmd.action.value),
    ("phase", .str cmd.phase.value), ("value", .int cmd.value)]

def CommandMessage.toWire (cmd : CommandMessage) : List UInt8 :=
  Json.utf8 (Json.Style.dumps.write cmd.modelDump ++ ['\n'])

structure WormInfo where
  team : Int
  worm : Int
  active : Bool := false
  posX : Int := 0
  posY : Int := 0
  weapon : Int := 0
  facing : Int := 0
  deriving DecidableEq, Repr

structure TeamInfo where
  teamNumber : Int
  owner : Int := 0
  currentWorm : Int := 0
  isTurnHolder : Bool := false
  isLocal : Bool := false
  worms : List WormInfo := []
  deriving DecidableEq, Repr

structure WeaponAmmo where
  id : Int
  ammo : Int := 0
  delay : Int := 0
  deriving DecidableEq, Repr

structure GameSnapshot where
  gameId : Int := 0
  roundActive : Bool := false
  beforeRoundStart : Bool := false
  numTeams : Int := 0
  round : Int := 0
  currentMachine : Int := -1
  turnTeam : Option Int := none
  turnTimeMs : Option Int := none
  teams : List TeamInfo := []
  weapons : List WeaponAmmo := []
  deriving DecidableEq, Repr

end WebControl.Backend
