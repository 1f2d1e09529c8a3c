import Mathlib.Data.List.Forall2
import WkWebControl.Dll.TaskTree
import WkWebControl.Link.System

open Effects WebControl Program
open WebControl.Dll (GameSnapshot TeamSnapshot classTypeTeam)

namespace WebControl.Link

inductive AmmoCell where
  | ammo
  | delay

def AmmoCell.index (team weapon : Int) : AmmoCell → Int
  | ammo => weapon + 143 * team
  | delay => weapon + 143 * team + 71

def AmmoCell.address (table : UInt32) (team weapon : Int) : AmmoCell → UInt32
  | ammo => table + UInt32.ofInt (2 * (weapon + 143 * team))
  | delay => table + UInt32.ofInt (2 * (weapon + 143 * team)) + 142

theorem AmmoCell.index_injective {kind kind' : AmmoCell} {team team' weapon weapon' : Int}
    (weapon_ : 1 ≤ weapon ∧ weapon ≤ 70) (weapon'_ : 1 ≤ weapon' ∧ weapon' ≤ 70)
    (same : kind.index team weapon = kind'.index team' weapon') :
    kind = kind' ∧ team = team' ∧ weapon = weapon' := by
  cases kind with
  | ammo =>
    cases kind' with
    | ammo =>
      simp only [index] at same
      exact ⟨rfl, by omega, by omega⟩
    | delay =>
      simp only [index] at same
      omega
  | delay =>
    cases kind' with
    | ammo =>
      simp only [index] at same
      omega
    | delay =>
      simp only [index] at same
      exact ⟨rfl, by omega, by omega⟩

theorem AmmoCell.address_index (table : UInt32) (team weapon : Int) (kind : AmmoCell) :
    kind.address table team weapon = table + UInt32.ofInt (2 * kind.index team weapon) := by
  cases kind with
  | ammo => rfl
  | delay =>
    have wide : 2 * (weapon + 143 * team + 71) = 2 * (weapon + 143 * team) + 142 := by omega
    rw [address, index, wide, UInt32.ofInt_add, UInt32.add_assoc]
    rfl

theorem ofInt_injective {a b : Int} (small : 0 ≤ a ∧ a < 2 ^ 32) (small' : 0 ≤ b ∧ b < 2 ^ 32)
    (same : UInt32.ofInt a = UInt32.ofInt b) : a = b := by
  have values := congrArg UInt32.toNat same
  simp only [UInt32.ofInt, UInt32.toNat_ofNat'] at values
  rw [Int.emod_eq_of_lt small.1 small.2, Int.emod_eq_of_lt small'.1 small'.2] at values
  omega

theorem AmmoCell.address_injective (table : UInt32) {kind kind' : AmmoCell} {team team' weapon weapon' : Int}
    (team_ : 0 ≤ team) (team'_ : 0 ≤ team')
    (weapon_ : 1 ≤ weapon ∧ weapon ≤ 70) (weapon'_ : 1 ≤ weapon' ∧ weapon' ≤ 70)
    (fits : 2 * (weapon + 143 * team) < 2 ^ 31) (fits' : 2 * (weapon' + 143 * team') < 2 ^ 31)
    (same : kind.address table team weapon = kind'.address table team' weapon') :
    kind = kind' ∧ team = team' ∧ weapon = weapon' := by
  apply index_injective weapon_ weapon'_
  rw [address_index, address_index, UInt32.add_right_inj] at same
  have range : ∀ (kind : AmmoCell) {team weapon : Int}, 0 ≤ team → 1 ≤ weapon →
      2 * (weapon + 143 * team) < 2 ^ 31 →
      0 ≤ 2 * kind.index team weapon ∧ 2 * kind.index team weapon < 2 ^ 32 := by
    intro kind team weapon team_ weapon_ fits
    cases kind <;> simp only [index] <;> omega
  have doubled := ofInt_injective (range kind team_ weapon_.1 fits) (range kind' team'_ weapon'_.1 fits') same
  omega

/-- There is a game, and at this place below its turn game a task of the class `Team`. -/
def TeamAt (g : Statics) (m : Dll.Memory) (place : List Nat) (team : Dll.Task) : Prop :=
  g.addrGameGlobal ≠ 0 ∧ ∃ tg, Dll.getAddrTurnGame g m = some tg ∧ tg.task.at? place = some team ∧
    team.classtype = classTypeTeam

structure Describes (ts : TeamSnapshot) (team : Dll.Task) : Prop where
  teamNumber : ts.teamNumber = team.team.teamNumber
  owner : ts.owner = team.team.owner
  currentWorm : ts.currentWorm = team.team.currentWormNumber
  worms : ts.worms = team.slots.filterMap fun slot => slot.map Dll.wormSnapshot

/-- The teams stand in the snapshot in the order of their places, which is the preorder. -/
structure Faithful (g : Statics) (s : Shared) (snap : GameSnapshot) : Prop where
  offline : g.addrGameGlobal = 0 → snap = { gameId := g.gameId }
  turn : ∀ team, snap.turnTeam = some team ↔ g.addrGameGlobal ≠ 0 ∧
    Dll.getAddrTurnGame g s.memory ≠ none ∧ 0 ≤ team ∧ s.currentTurnTeam = team
  teams : ∃ places : List (List Nat), places.Pairwise (· < ·) ∧
    (∀ place, place ∈ places ↔ ∃ team, TeamAt g s.memory place team) ∧
    places.Forall₂ (fun place ts => ∃ team, TeamAt g s.memory place team ∧ Describes ts team) snap.teams
  holder : ∀ ts ∈ snap.teams, ts.isTurnHolder = true ↔ snap.turnTeam = some ts.teamNumber
  noWeapons : snap.turnTeam = none ∨ s.memory.ammoTable = none → snap.weapons = []
  weapons : ∀ team cell, snap.turnTeam = some team → s.memory.ammoTable = some cell →
    snap.weapons = (List.range 70).map fun i =>
      ⟨i + 1, cell (AmmoCell.ammo.index team (i + 1)), cell (AmmoCell.delay.index team (i + 1))⟩

theorem teamSnapshot_describes (activeTeam : Int) (team : Dll.Task) :
    Describes (Dll.teamSnapshot activeTeam team) team where
  teamNumber := rfl
  owner := rfl
  currentWorm := rfl
  worms := by
    rw [Dll.teamSnapshot, Dll.Task.children_slots, List.map_filterMap]
    rfl

theorem faithful_empty {g : Statics} {s : Shared} {snap : GameSnapshot}
    (none_ : g.addrGameGlobal = 0 ∨ Dll.getAddrTurnGame g s.memory = none)
    (offline : g.addrGameGlobal = 0 → snap = { gameId := g.gameId }) (turn : snap.turnTeam = none)
    (teams : snap.teams = []) (weapons : snap.weapons = []) : Faithful g s snap where
  offline := offline
  turn team := by
    rw [turn]
    simp only [reduceCtorEq, false_iff, not_and]
    intro game turnGame
    rcases none_ with noGame | noTurnGame
    · exact absurd noGame game
    · exact absurd noTurnGame turnGame
  teams := by
    refine ⟨[], .nil, fun place => ?_, by rw [teams]; exact .nil⟩
    simp only [List.not_mem_nil, false_iff]
    rintro ⟨team, game, tg, found, _⟩
    rcases none_ with noGame | noTurnGame
    · exact absurd noGame game
    · rw [noTurnGame] at found
      cases found
  holder ts member := by
    rw [teams] at member
    cases member
  noWeapons _ := weapons
  weapons team cell some_ := by
    rw [turn] at some_
    cases some_

theorem teamPlaces (root : Dll.Task) :
    ∃ places : List (List Nat), places.Pairwise (· < ·) ∧
      (∀ place, place ∈ places ↔ ∃ team, root.at? place = some team ∧ team.classtype = classTypeTeam) ∧
      places.Forall₂ (fun place team => root.at? place = some team)
        (root.traverse.filter (·.classtype == classTypeTeam)) := by
  let isTeam : Option Dll.Task → Bool := fun task => task.any (·.classtype == classTypeTeam)
  refine ⟨root.places.filter (isTeam ∘ root.at?), root.places_sorted.filter _, fun place => ?_, ?_⟩
  · rw [List.mem_filter, Dll.Task.mem_places]
    constructor
    · rintro ⟨⟨team, found⟩, class_⟩
      rw [Function.comp_apply, found] at class_
      exact ⟨team, found, by simpa [isTeam] using class_⟩
    · rintro ⟨team, found, class_⟩
      refine ⟨⟨team, found⟩, ?_⟩
      rw [Function.comp_apply, found]
      simpa [isTeam] using class_
  · have order := congrArg (List.filter isTeam) root.traverse_places
    rw [List.filter_map, List.filter_map] at order
    have pairs : List.Forall₂ (· = ·) _ _ := List.forall₂_eq_eq_eq ▸ order
    rw [List.forall₂_map_left_iff, List.forall₂_map_right_iff] at pairs
    exact pairs

theorem turnSnapshot_faithful {g : Statics} {s : Shared} {tg : Dll.TurnGame} (game : g.addrGameGlobal ≠ 0)
    (turnGame : Dll.getAddrTurnGame g s.memory = some tg) :
    Faithful g s (Dll.turnSnapshot g s.memory tg s.currentTurnTeam) where
  offline none_ := absurd none_ game
  turn team := by
    simp only [Dll.turnSnapshot, turnGame]
    split <;> simp [game] <;> omega
  teams := by
    obtain ⟨places, sorted, complete, pairs⟩ := teamPlaces tg.task
    have at_ (place : List Nat) (team : Dll.Task) : TeamAt g s.memory place team ↔
        tg.task.at? place = some team ∧ team.classtype = classTypeTeam := by
      simp [TeamAt, game, turnGame]
    refine ⟨places, sorted, fun place => by simp only [complete, at_], ?_⟩
    change places.Forall₂ _ (List.map _ _)
    rw [List.forall₂_map_right_iff]
    have known := (List.forall₂_and_left _ _).mpr ⟨fun place member => (complete place).mp member, pairs⟩
    refine known.imp fun place team ⟨⟨team', found', class_⟩, found⟩ => ?_
    cases found.symm.trans found'
    exact ⟨team, (at_ place team).mpr ⟨found, class_⟩, teamSnapshot_describes _ team⟩
  holder ts member := by
    obtain ⟨team, _, rfl⟩ := List.mem_map.mp member
    by_cases onTurn : s.currentTurnTeam ≥ 0
    · simp only [Dll.turnSnapshot, Dll.teamSnapshot, onTurn, decide_true, Bool.true_and, beq_iff_eq,
        if_true, Option.some.injEq]
      exact eq_comm
    · simp [Dll.turnSnapshot, Dll.teamSnapshot, onTurn]
  noWeapons none_ := by
    change Dll.readTurnTeamWeapons s.memory _ = []
    unfold Dll.readTurnTeamWeapons
    split
    · rename_i team cell turn table
      rcases none_ with noTurn | noTable
      · exact absurd (turn.symm.trans noTurn) (by simp)
      · exact absurd (table.symm.trans noTable) (by simp)
    · rfl
  weapons team cell some_ table := by
    change Dll.readTurnTeamWeapons s.memory (Dll.turnSnapshot g s.memory tg s.currentTurnTeam).turnTeam = _
    rw [some_]
    simp only [Dll.readTurnTeamWeapons, table]
    rfl

/-- `buildSnapshot` changes nothing, and its snapshot is faithful: the `Team` tasks of the tree in
    preorder with their worms, the turn, and the weapons of the team on turn, no two cells of which are
    the same. -/
theorem buildSnapshot_faithful (g : Statics) (s : Shared) :
    (∃ snap, s.exec (Dll.buildSnapshot g) = some (snap, s) ∧ Faithful g s snap) ∧
    (∀ (kind kind' : AmmoCell) (team team' weapon weapon' : Int), 0 ≤ team → 0 ≤ team' →
      1 ≤ weapon ∧ weapon ≤ 70 → 1 ≤ weapon' ∧ weapon' ≤ 70 →
      kind.index team weapon = kind'.index team' weapon' →
      kind = kind' ∧ team = team' ∧ weapon = weapon') ∧
    ∀ (table : UInt32) (kind kind' : AmmoCell) (team team' weapon weapon' : Int), 0 ≤ team → 0 ≤ team' →
      1 ≤ weapon ∧ weapon ≤ 70 → 1 ≤ weapon' ∧ weapon' ≤ 70 →
      2 * (weapon + 143 * team) < 2 ^ 31 → 2 * (weapon' + 143 * team') < 2 ^ 31 →
      kind.address table team weapon = kind'.address table team' weapon' →
      kind = kind' ∧ team = team' ∧ weapon = weapon' := by
  refine ⟨?_, fun _ _ _ _ _ _ _ _ => AmmoCell.index_injective,
    fun table _ _ _ _ _ _ => AmmoCell.address_injective table⟩
  unfold Dll.buildSnapshot
  split
  · rename_i none_
    exact ⟨_, rfl, faithful_empty (.inl none_) (fun _ => rfl) rfl rfl rfl⟩
  · rename_i game
    cases turnGame : Dll.getAddrTurnGame g s.memory with
    | none =>
      refine ⟨{ gameId := g.gameId, roundActive := true, currentMachine := s.memory.currentMachine }, ?_,
        faithful_empty (.inr turnGame) (fun none_ => absurd none_ game) rfl rfl rfl⟩
      simp [Shared.exec, Shared.reply, call, turnGame]
    | some tg =>
      refine ⟨_, ?_, turnSnapshot_faithful game turnGame⟩
      simp [Shared.exec, Shared.reply, call, turnGame]

end WebControl.Link
