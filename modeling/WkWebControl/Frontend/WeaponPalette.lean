import WkWebControl.Frontend.Holding
import WkWebControl.Link.WeaponValues

open Effects WebControl.Backend
open WebControl.Link (Statics Codec Writes)

namespace WebControl.Frontend

structure WeaponSlot where
  name : String
  weaponId : Int
  row : Nat
  col : Nat
  mouseOnly : Bool
  deriving DecidableEq

def mouseOnlyWeaponIds : List Int := [2, 4, 27, 28, 29, 30, 31, 34, 36, 50, 51, 61]

def rows : List (List (String × Int)) :=
  [[("Jet Pack", 62), ("Low Gravity", 63), ("Fast Walk", 64), ("Laser Sight", 65), ("Invisibility", 66)],
   [("Bazooka", 1), ("Homing Missile", 2), ("Mortar", 3), ("Homing Pigeon", 4), ("Sheep Launcher", 5)],
   [("Grenade", 6), ("Cluster Bomb", 7), ("Banana Bomb", 8), ("Battle Axe", 9), ("Earthquake", 10)],
   [("Shotgun", 11), ("Handgun", 12), ("Uzi", 13), ("Minigun", 14), ("Longbow", 15)],
   [("Fire Punch", 16), ("Dragon Ball", 17), ("Kamikaze", 18), ("Suicide Bomber", 19), ("Prod", 20)],
   [("Dynamite", 21), ("Mine", 22), ("Sheep", 23), ("Super Sheep", 24), ("Mole Bomb", 26)],
   [("Air Strike", 27), ("Napalm Strike", 28), ("Mail Strike", 29), ("Mine Strike", 30), ("Mole Squadron", 31)],
   [("Blow Torch", 32), ("Pneumatic Drill", 33), ("Girder", 34), ("Baseball Bat", 35),
    ("Girder Starter Pack", 36)],
   [("Ninja Rope", 37), ("Bungee", 38), ("Parachute", 39), ("Teleport", 40), ("Scales of Justice", 41)],
   [("Super Banana Bomb", 42), ("Holy Hand Grenade", 43), ("Flame Thrower", 44), ("Salvation Army", 45),
    ("MB Bomb", 46)],
   [("Petrol Bomb", 47), ("Skunk", 48), ("Priceless Ming Vase", 49), ("French Sheep Strike", 50),
    ("Mike's Carpet Bomb", 51)],
   [("Mad Cows", 52), ("Old Woman", 53), ("Concrete Donkey", 54), ("Indian Nuclear Test", 55),
    ("Armageddon", 56)],
   [("Skip Go", 57), ("Surrender", 58), ("Select Worm", 59), ("Freeze", 60), ("Patsy's Magic Bullet", 61)]]

def weaponSlots : List WeaponSlot :=
  rows.zipIdx.flatMap fun (cells, row) => cells.zipIdx.map fun ((name, weaponId), col) =>
    { name, weaponId, row, col, mouseOnly := mouseOnlyWeaponIds.contains weaponId }

/-- `ammoById.get(id)`: of several entries with one key a `Map` keeps the last. -/
def ammoById (weapons : List WeaponAmmo) (id : Int) : Option WeaponAmmo :=
  weapons.reverse.find? fun w => w.id == id

structure Tile where
  hidden : Bool
  available : Bool
  selectable : Bool
  badge : String

def isDeferred (delay round : Int) : Bool := delay > 0 && round ≤ delay

def countText (ammo : Int) : String := if ammo > 0 then "x" ++ toString ammo else ""

def badgeText (ammo delay round : Int) : String :=
  if isDeferred delay round then
    "(" ++ toString (delay - round + 1) ++ ")" ++ (if ammo > 0 then " " ++ countText ammo else "")
  else countText ammo

def tile (weapons : List WeaponAmmo) (round : Int) (slot : WeaponSlot) : Tile :=
  let avail := ammoById weapons slot.weaponId
  let hasData := !weapons.isEmpty
  let ammo := (avail.map WeaponAmmo.ammo).getD (-1)
  let delay := (avail.map WeaponAmmo.delay).getD 0
  let hasAmmo := ammo != 0
  let available := !hasData || (hasAmmo && !isDeferred delay round)
  { hidden := hasData && ammo == 0
    available
    selectable := available && !slot.mouseOnly
    badge := if hasData && hasAmmo then badgeText ammo delay round else "" }

/-- A click on a tile, which goes through where the tile is a button that is not disabled. -/
def click (p : Page) (weapons : List WeaponAmmo) (round : Int) (slot : WeaponSlot) : Page :=
  if !(tile weapons round slot).hidden && (tile weapons round slot).selectable then
    p.handle (.weaponClick slot.weaponId)
  else p

theorem find?_of_unique {α : Type} {p : α → Bool} {x : α} {xs : List α} (member : x ∈ xs) (holds : p x = true)
    (unique : ∀ y ∈ xs, p y = true → y = x) : xs.find? p = some x := by
  cases found : xs.find? p with
  | none => exact absurd holds (List.find?_eq_none.mp found x member)
  | some y => rw [unique y (List.mem_of_find?_eq_some found) (List.find?_some found)]

section Turn

variable (g : Statics) {m : Dll.Memory} (tg : Dll.TurnGame) {activeTeam : Int} {cell : Int → Int}

abbrev turnWeapons (m : Dll.Memory) (activeTeam : Int) : List WeaponAmmo :=
  (gameSnapshot (Dll.turnSnapshot g m tg activeTeam)).weapons

theorem turnWeapons_eq (onTurn : 0 ≤ activeTeam) (table : m.ammoTable = some cell) :
    turnWeapons g tg m activeTeam = (List.range 70).map fun (i : Nat) =>
      ⟨i + 1, cell (i + 1 + 143 * activeTeam), cell (i + 1 + 143 * activeTeam + 71)⟩ := by
  change (Dll.readTurnTeamWeapons m (if activeTeam ≥ 0 then some activeTeam else none)).map weaponAmmo = _
  rw [if_pos onTurn]
  simp only [Dll.readTurnTeamWeapons, table, List.map_map]
  rfl

theorem ammoById_turn (onTurn : 0 ≤ activeTeam) (table : m.ammoTable = some cell) {id : Int}
    (range : 1 ≤ id ∧ id ≤ 70) :
    ammoById (turnWeapons g tg m activeTeam) id =
      some ⟨id, cell (id + 143 * activeTeam), cell (id + 143 * activeTeam + 71)⟩ := by
  rw [ammoById, turnWeapons_eq g tg onTurn table]
  apply find?_of_unique
  · rw [List.mem_reverse, List.mem_map]
    refine ⟨(id - 1).toNat, List.mem_range.mpr (by omega), ?_⟩
    rw [show (((id - 1).toNat : Nat) : Int) + 1 = id by omega]
  · exact beq_self_eq_true id
  · intro w member same
    rw [List.mem_reverse, List.mem_map] at member
    obtain ⟨i, -, rfl⟩ := member
    rw [show (i : Int) + 1 = id from eq_of_beq same]

theorem slot_range {slot : WeaponSlot} (member : slot ∈ weaponSlots) : 1 ≤ slot.weaponId ∧ slot.weaponId ≤ 70 := by
  have all : weaponSlots.all (fun slot => 1 ≤ slot.weaponId ∧ slot.weaponId ≤ 70) = true := by decide
  exact of_decide_eq_true (List.all_eq_true.mp all slot member)

theorem tile_turn (onTurn : 0 ≤ activeTeam) (table : m.ammoTable = some cell) {slot : WeaponSlot}
    (member : slot ∈ weaponSlots) (round : Int) :
    tile (turnWeapons g tg m activeTeam) round slot =
      let ammo := cell (slot.weaponId + 143 * activeTeam)
      let delay := cell (slot.weaponId + 143 * activeTeam + 71)
      { hidden := ammo == 0
        available := ammo != 0 && !isDeferred delay round
        selectable := (ammo != 0 && !isDeferred delay round) && !slot.mouseOnly
        badge := if ammo != 0 then badgeText ammo delay round else "" } := by
  have some_ : (turnWeapons g tg m activeTeam).isEmpty = false := by
    rw [turnWeapons_eq g tg onTurn table]
    rfl
  simp [tile, ammoById_turn g tg onTurn table (slot_range member), some_]

theorem isDeferred_iff (delay round : Int) : isDeferred delay round = true ↔ 0 < delay ∧ round ≤ delay := by
  simp [isDeferred]

/-- In a turn whose ammo table has been found the palette shows, for every tile, what the table says: it is
    hidden where there is no ammo, it can be chosen where the delay is over too and no click on the map is
    needed, and while the delay lasts its badge counts the rounds that are left of it. -/
theorem palette_of_turn (onTurn : 0 ≤ activeTeam) (table : m.ammoTable = some cell) (slot : WeaponSlot)
    (member : slot ∈ weaponSlots) (ammo delay : Int)
    (cells : ammo = cell (slot.weaponId + 143 * activeTeam) ∧ delay = cell (slot.weaponId + 143 * activeTeam + 71)) :
    ((tile (turnWeapons g tg m activeTeam) m.round slot).hidden = true ↔ ammo = 0) ∧
    ((tile (turnWeapons g tg m activeTeam) m.round slot).selectable = true ↔
      ammo ≠ 0 ∧ (delay ≤ 0 ∨ delay < m.round) ∧ slot.mouseOnly = false) ∧
    (ammo ≠ 0 → isDeferred delay m.round = true → ∃ left : Int,
      (tile (turnWeapons g tg m activeTeam) m.round slot).badge =
        "(" ++ toString left ++ ")" ++ (if ammo > 0 then " " ++ countText ammo else "") ∧
      0 < left ∧ ∀ rounds : Nat, isDeferred delay (m.round + rounds) = true ↔ rounds < left) := by
  rw [tile_turn g tg onTurn table member, ← cells.1, ← cells.2]
  refine ⟨beq_iff_eq, ?_, ?_⟩
  · have late : (!isDeferred delay m.round) = true ↔ delay ≤ 0 ∨ delay < m.round := by
      rw [Bool.not_eq_true', ← Bool.not_eq_true, isDeferred_iff]
      omega
    change ((ammo != 0 && !isDeferred delay m.round) && !slot.mouseOnly) = true ↔ _
    rw [Bool.and_eq_true, Bool.and_eq_true, late, bne_iff_ne, Bool.not_eq_true', and_assoc]
  · intro some_ deferred
    refine ⟨delay - m.round + 1, ?_, ?_, fun rounds => ?_⟩
    · change (if ammo != 0 then badgeText ammo delay m.round else "") = _
      rw [if_pos (bne_iff_ne.mpr some_), badgeText, if_pos deferred]
    · rw [isDeferred_iff] at deferred
      omega
    · rw [isDeferred_iff] at deferred ⊢
      omega

end Turn

theorem palette_of_turn_minigun :
    (tile (turnWeapons {} ⟨.mk 0 0 {} {} [], 0, 0, 0⟩
      { round := 1, ammoTable := some fun i => if i = 85 then 3 else 1 } 0) 1
      ⟨"Minigun", 14, 3, 3, false⟩).selectable = false := by
  have shown := (palette_of_turn (m := { round := 1, ammoTable := some fun i => if i = 85 then 3 else 1 }) {}
    ⟨.mk 0 0 {} {} [], 0, 0, 0⟩ (Int.le_refl 0) rfl ⟨"Minigun", 14, 3, 3, false⟩ (by decide) 1 3
    ⟨rfl, rfl⟩).2.1
  rw [← Bool.not_eq_true, shown]
  decide

theorem gated_ofFrame {h : History Answer} {cmd : CommandMessage} {message : ControlMessage}
    (gated : Gated h cmd) (newest : newestFrame h = some message.frame) :
    cmd.action = message.action ∧ cmd.phase = message.phase ∧ cmd.value = message.value := by
  obtain ⟨frame, hand, asked⟩ := gated.asked
  obtain ⟨u, team, seen, fields, rest, rfl, -, -, -, -, -, value⟩ := gated
  cases newest
  cases hand
  obtain ⟨action, phase⟩ := Prod.mk.inj (Option.some.inj ((commandOf_frame message).symm.trans asked))
  exact ⟨action.symm, phase.symm, (Option.some.inj value).symm⟩

/-- A click on a tile of the palette that goes through sends the weapon of that tile; and a command that the
    backend makes of this message has that weapon written for the worm, and no other. -/
theorem click_writes (p : Page) (ready : p.ready = true) (weapons : List WeaponAmmo) (round : Int)
    (slot : WeaponSlot) (member : slot ∈ weaponSlots) :
    (click p weapons round slot = p ∨
      (click p weapons round slot).sent = p.sent ++ [⟨.selectWeapon, .press, slot.weaponId⟩]) ∧
    ∀ (codec : Codec) (h : History Answer) (cmd : CommandMessage), codec.ParsesCommands → Gated h cmd →
      newestFrame h = some (ControlMessage.frame ⟨.selectWeapon, .press, slot.weaponId⟩) →
      ∀ index, Writes codec cmd index ↔ index = slot.weaponId := by
  constructor
  · unfold click
    split
    · right
      simp [Page.handle, Page.send, ready]
    · exact .inl rfl
  · intro codec h cmd parses gated newest index
    obtain ⟨select, press, value⟩ := gated_ofFrame gated newest
    have range := slot_range member
    change cmd.value = slot.weaponId at value
    constructor
    · intro writes
      obtain ⟨-, bits, same, -⟩ := Link.writes_selected parses select writes
      rw [same, Link.intOfInteger_mod bits (by omega), value]
      omega
    · rintro rfl
      rw [← value] at range ⊢
      exact Link.writes_own parses select press range

def grenadeClicked : History Answer :=
  [⟨.emailForTeam 0 ⟨0, gameOn 1 (some 0)⟩, some alice.email⟩, ⟨.latestState, some ⟨0, gameOn 1 (some 0)⟩⟩,
    ⟨.receiveJson, ControlMessage.frame ⟨.selectWeapon, .press, 6⟩⟩, ⟨.acceptSocket, alice⟩]

def grenade : CommandMessage := { team := "0", action := .selectWeapon, phase := .press, value := 6 }

theorem gated_grenade : Gated grenadeClicked grenade :=
  ⟨alice, 0, ⟨0, gameOn 1 (some 0)⟩, _, [⟨.acceptSocket, alice⟩], rfl, rfl, rfl, by decide +kernel,
    by decide +kernel, by decide +kernel, by decide +kernel⟩

theorem click_writes_grenade :
    (click {} [] 0 ⟨"Grenade", 6, 2, 0, false⟩).sent = [⟨.selectWeapon, .press, 6⟩] ∧
    Gated grenadeClicked grenade ∧ ∀ index, Writes Link.plainCodec grenade index ↔ index = 6 := by
  have exact_ := click_writes {} rfl [] 0 ⟨"Grenade", 6, 2, 0, false⟩ (by decide)
  refine ⟨?_, gated_grenade, ?_⟩
  · rcases exact_.1 with same | sent
    · have differs : click {} [] 0 ⟨"Grenade", 6, 2, 0, false⟩ ≠ {} := by
        intro same
        have lengths := congrArg (fun p => p.sent.length) same
        cases lengths
      exact absurd same differs
    · exact sent
  · exact exact_.2 Link.plainCodec grenadeClicked grenade Link.plainCodec_parsesCommands gated_grenade rfl

end WebControl.Frontend
