import WkWebControl.Dll.Protocol

namespace WebControl.Dll

structure TeamFields where
  teamNumber : Int := 0
  owner : Int := 0
  currentWormNumber : Int := 0
  deriving DecidableEq, Repr

structure WormFields where
  teamNumber : Int := 0
  wormNumber : Int := 0
  active : Int := 0
  posX : Int := 0
  posY : Int := 0
  selectedWeapon : Int := 0
  selectedWeaponEntry : UInt32 := 0
  facingDirection : Int := 0
  deriving DecidableEq, Repr

/-- A task in the memory of WA. The code casts a `CTask*` to the class it takes it for, so every task
    has what stands at the offsets of either class; `none` is a null pointer in the child array. -/
inductive Task where
  | mk (address : Nat) (classtype : Nat) (team : TeamFields) (worm : WormFields)
    (children : List (Option Task))

namespace Task

def address : Task → Nat
  | mk address _ _ _ _ => address

def classtype : Task → Nat
  | mk _ classtype _ _ _ => classtype

def team : Task → TeamFields
  | mk _ _ team _ _ => team

def worm : Task → WormFields
  | mk _ _ _ worm _ => worm

def children : Task → List Task
  | mk _ _ _ _ children => children.filterMap id

mutual

def traverse : Task → List Task
  | mk address classtype team worm children =>
    mk address classtype team worm children :: traverseChildren children

def traverseChildren : List (Option Task) → List Task
  | [] => []
  | none :: children => traverseChildren children
  | some child :: children => traverse child ++ traverseChildren children

end

mutual

def writeWeapon (target : Nat) (index : Int) (entry : UInt32) : Task → Task
  | mk address classtype team worm children =>
    mk address classtype team
      (if address = target then
        { worm with selectedWeapon := index, selectedWeaponEntry := entry } else worm)
      (writeWeaponChildren target index entry children)

def writeWeaponChildren (target : Nat) (index : Int) (entry : UInt32) :
    List (Option Task) → List (Option Task)
  | [] => []
  | none :: children => none :: writeWeaponChildren target index entry children
  | some child :: children =>
    some (writeWeapon target index entry child) :: writeWeaponChildren target index entry children

end

end Task

def classTypeTeam : Nat := 10

structure TurnGame where
  task : Task
  numberOfTeams : Int := 0
  itsBeforeRoundStart : Int := 0
  turnTimer1 : Int := 0

structure Memory where
  /-- `*(ddGame + 0x488)` -/
  gameGlobal : UInt32 := 0
  /-- `*(gameGlobal + 0x726C)` -/
  currentMachine : Int := 0
  /-- `*(gameGlobal + 0x7238)` -/
  round : Int := 0
  /-- `*(gameGlobal + 0x510)` -/
  weaponTable : UInt32 := 0
  /-- `*(ddGame + 0x8)` -/
  turnGame : Option TurnGame := none
  /-- The cells of the ammo table, `none` when the scan for it fails. -/
  ammoTable : Option (Int → Int) := none

inductive TaskMessage where
  | frameFinish
  | moveLeft
  | moveRight
  | moveUp
  | moveDown
  | jump
  | fireWeapon
  | releaseWeapon
  | selectWeapon
  | startTurn
  | finishTurn
  | turnStarted
  | turnFinished
  | other (value : Nat)
  deriving DecidableEq, Repr

/-- What `hookTurnHandleMessage` does to `g_currentTurnTeam`; `data` is the first DWORD, read as an
    `int`, `none` a null pointer. -/
def trackTurn (current : Int) (mtype : TaskMessage) (data : Option Int) : Int :=
  match mtype with
  | .startTurn | .turnStarted => data.getD current
  | .finishTurn | .turnFinished => -1
  | _ => current

/-- The worm of a team task that `findActiveTurnWorm` settles on: the current one, else the first
    active one. -/
def activeWorm (team : Task) : Option Task :=
  match team.children.find? fun worm => worm.worm.wormNumber == team.team.currentWormNumber with
  | some worm => some worm
  | none => team.children.find? fun worm => worm.worm.active != 0

def findTurnWorm (root : Task) (activeTeam : Int) : Option Task :=
  root.traverse.findSome? fun obj =>
    if obj.classtype = classTypeTeam ∧ obj.team.teamNumber = activeTeam then activeWorm obj else none

end WebControl.Dll
