import WkWebControl.Dll.IpcServer

open Effects WebControl WebControl.Link

namespace WebControl.Dll

def getAddrTurnGame (g : Statics) (m : Memory) : Option TurnGame :=
  if g.addrDdGame = 0 then none else m.turnGame

def wormSnapshot (worm : Task) : WormSnapshot where
  team := worm.worm.teamNumber
  worm := worm.worm.wormNumber
  active := worm.worm.active != 0
  posX := worm.worm.posX
  posY := worm.worm.posY
  weapon := worm.worm.selectedWeapon
  facing := worm.worm.facingDirection

/-- `isOwnedByMe` is true: nothing sets `addrDdMain`. -/
def teamSnapshot (activeTeam : Int) (team : Task) : TeamSnapshot where
  teamNumber := team.team.teamNumber
  owner := team.team.owner
  currentWorm := team.team.currentWormNumber
  isTurnHolder := activeTeam ≥ 0 && team.team.teamNumber == activeTeam
  isLocal := true
  worms := team.children.map wormSnapshot

/-- The ammo table has a row of 143 cells for each team; the delays stand 142 bytes further on. -/
def readTurnTeamWeapons (m : Memory) (turnTeam : Option Int) : List WeaponAmmo :=
  match turnTeam, m.ammoTable with
  | some team, some cell => (List.range 70).map fun i =>
      ⟨i + 1, cell (i + 1 + 143 * team), cell (i + 1 + 143 * team + 71)⟩
  | _, _ => []

def turnSnapshot (g : Statics) (m : Memory) (tg : TurnGame) (activeTeam : Int) : GameSnapshot :=
  let turnTeam := if activeTeam ≥ 0 then some activeTeam else none
  { gameId := g.gameId
    roundActive := true
    beforeRoundStart := tg.itsBeforeRoundStart != 0
    numTeams := tg.numberOfTeams
    round := m.round
    currentMachine := m.currentMachine
    turnTeam
    turnTimeMs := some tg.turnTimer1
    teams := (tg.task.traverse.filter (·.classtype == classTypeTeam)).map (teamSnapshot activeTeam)
    weapons := readTurnTeamWeapons m turnTeam }

def buildSnapshot (g : Statics) : Prog GameSnapshot := do
  if g.addrGameGlobal = 0 then return { gameId := g.gameId }
  let m ← call .readMemory
  match getAddrTurnGame g m with
  | none => return { gameId := g.gameId, roundActive := true, currentMachine := m.currentMachine }
  | some tg =>
    let activeTeam ← call .loadTurn
    return turnSnapshot g m tg activeTeam

/-- `sendInput`; without a payload the buffer begins with the team on turn, if there is one. -/
def sendInput (g : Statics) (mtype : TaskMessage) (payload : Int := -1) : Prog Unit := do
  let m ← call .readMemory
  match getAddrTurnGame g m with
  | none => return ()
  | some _ =>
    if payload ≥ 0 then call (.dispatch mtype payload)
    else
      let activeTeam ← call .loadTurn
      call (.dispatch mtype (if activeTeam ≥ 0 then activeTeam else 0))

def findActiveTurnWorm (g : Statics) : Prog (Option Task) := do
  let activeTeam ← call .loadTurn
  if activeTeam < 0 then return none
  let m ← call .readMemory
  match getAddrTurnGame g m with
  | none => return none
  | some tg => return findTurnWorm tg.task activeTeam

def applyWeapon (g : Statics) (weaponId : Int) : Prog Unit := do
  if weaponId < 1 ∨ weaponId > 70 then return ()
  if g.addrGameGlobal = 0 then return ()
  let m ← call .readMemory
  if m.weaponTable = 0 then return ()
  match ← findActiveTurnWorm g with
  | none => return ()
  | some worm =>
    call (.writeWeapon worm.address weaponId (m.weaponTable + 464 * UInt32.ofInt weaponId))
    sendInput g .selectWeapon weaponId

def assertHeld (g : Statics) (held : Bool) (mtype : TaskMessage) : Prog Unit :=
  if held then sendInput g mtype else return ()

def selectPending (g : Statics) (weaponId : Int) : Prog Unit :=
  if weaponId ≥ 0 then applyWeapon g weaponId else return ()

/-- A shot is charged when the button goes down and fired when it comes up. -/
def fireEdge (g : Statics) (firing : Bool) : Prog Unit :=
  if firing ∧ ¬ g.wasFiring then sendInput g .fireWeapon
  else if ¬ firing ∧ g.wasFiring then sendInput g .releaseWeapon
  else return ()

def applyHeldInput (g : Statics) : Prog Statics := do
  let state ← call .readControl
  assertHeld g state.jump .jump
  selectPending g state.selectWeapon
  assertHeld g state.moveLeft .moveLeft
  assertHeld g state.moveRight .moveRight
  assertHeld g state.aimUp .moveUp
  assertHeld g state.aimDown .moveDown
  fireEdge g state.firing
  return { g with wasFiring := state.firing }

def onFrame (codec : Codec) (g : Statics) : Prog Statics := do
  let snap ← buildSnapshot g
  call (.publish snap)
  let g ← pushState codec g snap
  if snap.roundActive then applyHeldInput g else return g

def onGameTornDown (g : Statics) : Prog Statics := do
  call (.storeTurn (-1))
  call .clearControl
  call (.publish {})
  return { g with wasFiring := false }

def hookConstructGameGlobal (g : Statics) : Prog Statics := do
  let m ← call .readMemory
  return { g with addrGameGlobal := m.gameGlobal, gameId := g.gameId + 1 }

def hookDestroyGameGlobal (g : Statics) : Prog Statics := do
  let g ← onGameTornDown { g with addrGameGlobal := 0 }
  return { g with addrDdGame := 0 }

def hookTurnHandleMessage (codec : Codec) (g : Statics) (mtype : TaskMessage) (data : Option Int) :
    Prog Statics :=
  match mtype with
  | .startTurn | .turnStarted => do
    match data with
    | some team => call (.storeTurn team)
    | none => pure ()
    return g
  | .finishTurn | .turnFinished => do
    call (.storeTurn (-1))
    return g
  | .frameFinish => onFrame codec g
  | _ => return g

def gameThread (codec : Codec) (g : Statics) : Prog Flow := do
  match ← call .nextCall with
  | .initializeW2App ddGame => return .game { g with addrDdGame := ddGame }
  | .constructGameGlobal => return .game (← hookConstructGameGlobal g)
  | .destroyGameGlobal => return .game (← hookDestroyGameGlobal g)
  | .turnHandleMessage mtype data => return .game (← hookTurnHandleMessage codec g mtype data)

end WebControl.Dll
