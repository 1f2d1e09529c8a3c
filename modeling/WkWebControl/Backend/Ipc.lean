import WkWebControl.Lines
import WkWebControl.Link

open Effects WebControl WebControl.Link

namespace WebControl.Backend

def intField (codec : Codec) : Json → Option Int
  | .int n => some n
  | j => codec.laxInt j

def boolField (codec : Codec) : Json → Option Bool
  | .bool b => some b
  | j => codec.laxBool j

def optionalIntField (codec : Codec) : Json → Option (Option Int)
  | .null => some none
  | j => (intField codec j).map some

def listField {α : Type} (read : Json → Option α) : Json → Option (List α)
  | .arr items => items.mapM read
  | _ => none

/-- A field that is there has to be valid; one that is not is `missing`. -/
def field {α : Type} (fields : List (String × Json)) (key : String) (read : Json → Option α)
    (missing : Option α) : Option α :=
  match Json.field? fields key with
  | none => missing
  | some j => read j

def WormInfo.ofJson (codec : Codec) : Json → Option WormInfo
  | .obj fields => do
    let team ← field fields "team" (intField codec) none
    let worm ← field fields "worm" (intField codec) none
    let active ← field fields "active" (boolField codec) (some false)
    let posX ← field fields "pos_x" (intField codec) (some 0)
    let posY ← field fields "pos_y" (intField codec) (some 0)
    let weapon ← field fields "weapon" (intField codec) (some 0)
    let facing ← field fields "facing" (intField codec) (some 0)
    return { team, worm, active, posX, posY, weapon, facing }
  | _ => none

def TeamInfo.ofJson (codec : Codec) : Json → Option TeamInfo
  | .obj fields => do
    let teamNumber ← field fields "team_number" (intField codec) none
    let owner ← field fields "owner" (intField codec) (some 0)
    let currentWorm ← field fields "current_worm" (intField codec) (some 0)
    let isTurnHolder ← field fields "is_turn_holder" (boolField codec) (some false)
    let isLocal ← field fields "is_local" (boolField codec) (some false)
    let worms ← field fields "worms" (listField (WormInfo.ofJson codec)) (some [])
    return { teamNumber, owner, currentWorm, isTurnHolder, isLocal, worms }
  | _ => none

def WeaponAmmo.ofJson (codec : Codec) : Json → Option WeaponAmmo
  | .obj fields => do
    let id ← field fields "id" (intField codec) none
    let ammo ← field fields "ammo" (intField codec) (some 0)
    let delay ← field fields "delay" (intField codec) (some 0)
    return { id, ammo, delay }
  | _ => none

def GameSnapshot.ofJson (codec : Codec) : Json → Option GameSnapshot
  | .obj fields => do
    let gameId ← field fields "game_id" (intField codec) (some 0)
    let roundActive ← field fields "round_active" (boolField codec) (some false)
    let beforeRoundStart ← field fields "before_round_start" (boolField codec) (some false)
    let numTeams ← field fields "num_teams" (intField codec) (some 0)
    let round ← field fields "round" (intField codec) (some 0)
    let currentMachine ← field fields "current_machine" (intField codec) (some (-1))
    let turnTeam ← field fields "turn_team" (optionalIntField codec) (some none)
    let turnTimeMs ← field fields "turn_time_ms" (optionalIntField codec) (some none)
    let teams ← field fields "teams" (listField (TeamInfo.ofJson codec)) (some [])
    let weapons ← field fields "weapons" (listField (WeaponAmmo.ofJson codec)) (some [])
    return { gameId, roundActive, beforeRoundStart, numTeams, round, currentMachine, turnTeam,
             turnTimeMs, teams, weapons }
  | _ => none

def GameSnapshot.fromWire (codec : Codec) (line : List UInt8) : Option GameSnapshot :=
  (codec.loads line).bind (GameSnapshot.ofJson codec)

def wormInfo (w : Dll.WormSnapshot) : WormInfo :=
  ⟨w.team, w.worm, w.active, w.posX, w.posY, w.weapon, w.facing⟩

def teamInfo (t : Dll.TeamSnapshot) : TeamInfo :=
  ⟨t.teamNumber, t.owner, t.currentWorm, t.isTurnHolder, t.isLocal, t.worms.map wormInfo⟩

def weaponAmmo (w : Dll.WeaponAmmo) : WeaponAmmo := ⟨w.id, w.ammo, w.delay⟩

def gameSnapshot (s : Dll.GameSnapshot) : GameSnapshot where
  gameId := s.gameId
  roundActive := s.roundActive
  beforeRoundStart := s.beforeRoundStart
  numTeams := s.numTeams
  round := s.round
  currentMachine := s.currentMachine
  turnTeam := s.turnTeam
  turnTimeMs := s.turnTimeMs
  teams := s.teams.map teamInfo
  weapons := s.weapons.map weaponAmmo

theorem listField_map {α β : Type} {read : Json → Option β} {write : α → Json} {through : α → β}
    (each : ∀ a, read (write a) = some (through a)) (as : List α) :
    listField read (.arr (as.map write)) = some (as.map through) := by
  induction as with
  | nil => rfl
  | cons a as ih =>
    simp only [listField, List.map_cons, List.mapM_cons, each] at ih ⊢
    rw [ih]
    rfl

theorem optionalIntField_orNull (codec : Codec) (n : Option Int) :
    optionalIntField codec (Dll.orNull n) = some n := by
  cases n <;> rfl

theorem WormInfo.ofJson_wormJson (codec : Codec) (w : Dll.WormSnapshot) :
    WormInfo.ofJson codec (Dll.wormJson w) = some (wormInfo w) := rfl

theorem WeaponAmmo.ofJson_weaponJson (codec : Codec) (w : Dll.WeaponAmmo) :
    WeaponAmmo.ofJson codec (Dll.weaponJson w) = some (weaponAmmo w) := rfl

theorem TeamInfo.ofJson_teamJson (codec : Codec) (t : Dll.TeamSnapshot) :
    TeamInfo.ofJson codec (Dll.teamJson t) = some (teamInfo t) := by
  have worms := listField_map (WormInfo.ofJson_wormJson codec) t.worms
  have whole : TeamInfo.ofJson codec (Dll.teamJson t) =
      (listField (WormInfo.ofJson codec) (.arr (t.worms.map Dll.wormJson))).bind fun worms =>
        some ⟨t.teamNumber, t.owner, t.currentWorm, t.isTurnHolder, t.isLocal, worms⟩ := rfl
  rw [whole, worms]
  rfl

theorem GameSnapshot.ofJson_stateJson (codec : Codec) (s : Dll.GameSnapshot) :
    GameSnapshot.ofJson codec (Dll.stateJson s) = some (gameSnapshot s) := by
  have teams := listField_map (TeamInfo.ofJson_teamJson codec) s.teams
  have weapons := listField_map (WeaponAmmo.ofJson_weaponJson codec) s.weapons
  have whole : GameSnapshot.ofJson codec (Dll.stateJson s) =
      (optionalIntField codec (Dll.orNull s.turnTeam)).bind fun turnTeam =>
      (optionalIntField codec (Dll.orNull s.turnTimeMs)).bind fun turnTimeMs =>
      (listField (TeamInfo.ofJson codec) (.arr (s.teams.map Dll.teamJson))).bind fun teams =>
      (listField (WeaponAmmo.ofJson codec) (.arr (s.weapons.map Dll.weaponJson))).bind fun weapons =>
        some { gameId := s.gameId, roundActive := s.roundActive, beforeRoundStart := s.beforeRoundStart,
               numTeams := s.numTeams, round := s.round, currentMachine := s.currentMachine,
               turnTeam, turnTimeMs, teams, weapons } := rfl
  rw [whole, optionalIntField_orNull, optionalIntField_orNull, teams, weapons]
  rfl

namespace TcpIpcTransport

/-- The blanks that `bytes.strip` takes off. -/
def isBlank (b : UInt8) : Bool := b == 32 || (9 ≤ b && b ≤ 13)

def onLine (codec : Codec) (line : List UInt8) : Link.Prog Unit :=
  if line.all isBlank then return ()
  else match GameSnapshot.fromWire codec line with
    | none => return ()
    | some snap => Link.call (.setLatest (some snap))

def readerLoop : Link.Prog Link.Flow := do
  match ← Link.call .connect with
  | none =>
    Link.call (.setLatest none)
    return .connecting
  | some s =>
    Link.call (.setSock (some s))
    return .consuming s []

/-- One round of `_consume`, with the clean-up of `_reader_loop` when it is the last. Of the complete
    lines in the buffer only the newest is looked at. -/
def consume (codec : Codec) (s : Socket) (buf : List UInt8) : Link.Prog Link.Flow := do
  match ← Link.call (.receive s) with
  | .data data =>
    let lines := Lines.split newline (buf ++ data)
    match lines.1.getLast? with
    | some line => onLine codec line
    | none => pure ()
    return .consuming s lines.2
  | _ =>
    Link.call (.setSock none)
    Link.call (.setLatest none)
    return .connecting

end TcpIpcTransport

end WebControl.Backend
