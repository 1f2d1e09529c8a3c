import WkWebControl.Json

namespace WebControl.Dll

open WebControl

inductive ControlAction where
  | moveLeft
  | moveRight
  | aimUp
  | aimDown
  | selectWeapon
  | fire
  | jump
  deriving DecidableEq, Repr

inductive ControlPhase where
  | press
  | release
  deriving DecidableEq, Repr

def kTypeCommand : String := "cmd"

def parseAction (s : String) : Option ControlAction :=
  if s = "move_left" then some .moveLeft
  else if s = "move_right" then some .moveRight
  else if s = "aim_up" then some .aimUp
  else if s = "aim_down" then some .aimDown
  else if s = "select_weapon" then some .selectWeapon
  else if s = "fire" then some .fire
  else if s = "jump" then some .jump
  else none

def parsePhase (s : String) : ControlPhase := if s = "release" then .release else .press

structure WormSnapshot where
  team : Int := 0
  worm : Int := 0
  active : Bool := false
  posX : Int := 0
  posY : Int := 0
  weapon : Int := 0
  facing : Int := 0
  deriving DecidableEq, Repr

structure TeamSnapshot where
  teamNumber : Int := 0
  owner : Int := 0
  currentWorm : Int := 0
  isTurnHolder : Bool := false
  isLocal : Bool := false
  worms : List WormSnapshot := []
  deriving DecidableEq, Repr

structure WeaponAmmo where
  id : Int := 0
  ammo : Int := 0
  delay : Int := 0
  deriving DecidableEq, Repr

structure GameSnapshot where
  gameId : Int := 0
  roundActive : Bool := false
  beforeRoundStart : Bool := false
  numTeams : Int := 0
  round : Int := 0
  currentMachine : Int := -1
  turnTeam : Option Int := none
  turnTimeMs : Option Int := none
  teams : List TeamSnapshot := []
  weapons : List WeaponAmmo := []
  deriving DecidableEq, Repr

def orNull : Option Int → Json
  | some n => .int n
  | none => .null

def wormJson (w : WormSnapshot) : Json :=
  .obj [("active", .bool w.active), ("facing", .int w.facing), ("pos_x", .int w.posX),
    ("pos_y", .int w.posY), ("team", .int w.team), ("weapon", .int w.weapon), ("worm", .int w.worm)]

def teamJson (t : TeamSnapshot) : Json :=
  .obj [("current_worm", .int t.currentWorm), ("is_local", .bool t.isLocal),
    ("is_turn_holder", .bool t.isTurnHolder), ("owner", .int t.owner),
    ("team_number", .int t.teamNumber), ("worms", .arr (t.worms.map wormJson))]

def weaponJson (w : WeaponAmmo) : Json :=
  .obj [("ammo", .int w.ammo), ("delay", .int w.delay), ("id", .int w.id)]

/-- `nlohmann::json` keeps the fields of an object sorted by their keys. -/
def stateJson (s : GameSnapshot) : Json :=
  .obj [("before_round_start", .bool s.beforeRoundStart), ("current_machine", .int s.currentMachine),
    ("game_id", .int s.gameId), ("num_teams", .int s.numTeams), ("round", .int s.round),
    ("round_active", .bool s.roundActive), ("teams", .arr (s.teams.map teamJson)),
    ("turn_team", orNull s.turnTeam), ("turn_time_ms", orNull s.turnTimeMs),
    ("weapons", .arr (s.weapons.map weaponJson))]

end WebControl.Dll
