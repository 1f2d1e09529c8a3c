import WkWebControl.Dll.TaskTree
import WkWebControl.Frontend
import WkWebControl.Link.System

open Effects WebControl Program
open WebControl.Dll (Task TaskTree classTypeTeam)
open WebControl.Link (Shared Statics)

namespace WebControl.Frontend

def activeOrFirst {β : Type} (active : β → Bool) (worms : List β) : Option β :=
  (worms.find? active).or worms.head?

def myTeamWorm {α β : Type} (number : α → Int) (worms : α → List β) (active : β → Bool)
    (teams : List α) (myTeam : Int) : Option β :=
  (teams.find? fun team => number team == myTeam).bind fun team => activeOrFirst active (worms team)

def selectedWorm (snap : Option Backend.GameSnapshot) (myTeam : Option Int) : Option Backend.WormInfo := do
  let snap ← snap
  let myTeam ← myTeam
  myTeamWorm Backend.TeamInfo.teamNumber Backend.TeamInfo.worms Backend.WormInfo.active snap.teams myTeam

def selectedWeaponId (snap : Option Backend.GameSnapshot) (myTeam : Option Int) : Option Int :=
  (selectedWorm snap myTeam).map (·.weapon)

theorem activeOrFirst_map {β γ : Type} (active : γ → Bool) (view : β → γ) (worms : List β) :
    activeOrFirst active (worms.map view) = (activeOrFirst (active ∘ view) worms).map view := by
  rw [activeOrFirst, activeOrFirst, List.find?_map, List.head?_map, Option.map_or]

theorem myTeamWorm_map {α β γ δ : Type} (number : γ → Int) (worms : γ → List δ) (active : δ → Bool)
    (team : α → γ) (children : α → List β) (worm : β → δ)
    (each : ∀ a, worms (team a) = (children a).map worm) (teams : List α) (myTeam : Int) :
    myTeamWorm number worms active (teams.map team) myTeam =
      (myTeamWorm (number ∘ team) children (active ∘ worm) teams myTeam).map worm := by
  rw [myTeamWorm, myTeamWorm, List.find?_map]
  cases found : teams.find? fun a => (number ∘ team) a == myTeam with
  | none =>
    have nothing : teams.find? ((fun b => number b == myTeam) ∘ team) = none := found
    rw [nothing]
    rfl
  | some a =>
    have first : teams.find? ((fun b => number b == myTeam) ∘ team) = some a := found
    rw [first, Option.map_some, Option.bind_some, Option.bind_some, each, activeOrFirst_map]

def isActive (worm : Task) : Bool := worm.worm.active != 0

/-- The worm in the task tree that stands where the page finds the worm it highlights. -/
def highlighted (root : Task) (myTeam : Int) : Option Task :=
  myTeamWorm (fun team => team.team.teamNumber) Task.children isActive
    (root.traverse.filter (·.classtype == classTypeTeam)) myTeam

theorem selectedWorm_turnSnapshot (g : Statics) (m : Dll.Memory) (tg : Dll.TurnGame) (activeTeam myTeam : Int) :
    selectedWorm (some (Backend.gameSnapshot (Dll.turnSnapshot g m tg activeTeam))) (some myTeam) =
      (highlighted tg.task myTeam).map fun worm => Backend.wormInfo (Dll.wormSnapshot worm) := by
  have view := myTeamWorm_map Backend.TeamInfo.teamNumber Backend.TeamInfo.worms Backend.WormInfo.active
    (fun team => Backend.teamInfo (Dll.teamSnapshot activeTeam team))
    Task.children (fun worm => Backend.wormInfo (Dll.wormSnapshot worm))
    (fun team => List.map_map) (tg.task.traverse.filter (·.classtype == classTypeTeam)) myTeam
  change myTeamWorm _ _ _ ((List.map (Dll.teamSnapshot activeTeam) _).map Backend.teamInfo) myTeam = _
  rw [List.map_map]
  exact view

theorem selectedWeaponId_turnSnapshot (g : Statics) (m : Dll.Memory) (tg : Dll.TurnGame)
    (activeTeam myTeam : Int) :
    selectedWeaponId (some (Backend.gameSnapshot (Dll.turnSnapshot g m tg activeTeam))) (some myTeam) =
      (highlighted tg.task myTeam).map fun worm => worm.worm.selectedWeapon := by
  rw [selectedWeaponId, selectedWorm_turnSnapshot, Option.map_map]
  rfl

def isCurrent (team worm : Task) : Bool := worm.worm.wormNumber == team.team.currentWormNumber

def firstTeam (root : Task) (number : Int) : Option Task :=
  root.traverse.find? fun obj => obj.classtype == classTypeTeam && obj.team.teamNumber == number

/-- The team has a current or an active worm; and where it has a current one, that is the first active
    worm, or no worm is active and it is the first of all. -/
def Agrees (team : Task) : Prop :=
  match team.children.find? (isCurrent team) with
  | none => ∃ worm ∈ team.children, isActive worm = true
  | some worm => team.children.find? isActive = some worm ∨
      (∀ other ∈ team.children, isActive other = false) ∧ team.children.head? = some worm

theorem activeWorm_current {team worm : Task} (current : team.children.find? (isCurrent team) = some worm) :
    Dll.activeWorm team = some worm := by
  unfold Dll.activeWorm
  split
  · rename_i found first
    exact first.symm.trans current
  · rename_i none_
    cases none_.symm.trans current

theorem activeWorm_active {team : Task} (noCurrent : team.children.find? (isCurrent team) = none) :
    Dll.activeWorm team = team.children.find? isActive := by
  unfold Dll.activeWorm
  split
  · rename_i found first
    cases first.symm.trans noCurrent
  · rfl

theorem mem_of_activeWorm {team worm : Task} (found : Dll.activeWorm team = some worm) :
    worm ∈ team.children := by
  cases current : team.children.find? (isCurrent team) with
  | some other =>
    rw [activeWorm_current current] at found
    cases found
    exact List.mem_of_find?_eq_some current
  | none =>
    rw [activeWorm_active current] at found
    exact List.mem_of_find?_eq_some found

theorem activeOrFirst_iff {team worm : Task} (found : Dll.activeWorm team = some worm) :
    activeOrFirst isActive team.children = some worm ↔ Agrees team := by
  unfold Agrees activeOrFirst
  cases current : team.children.find? (isCurrent team) with
  | none =>
    rw [activeWorm_active current] at found
    rw [found]
    have some_ : ∃ worm ∈ team.children, isActive worm = true :=
      ⟨worm, List.mem_of_find?_eq_some found, List.find?_some found⟩
    exact iff_of_true rfl some_
  | some other =>
    cases (activeWorm_current current).symm.trans found
    cases active : team.children.find? isActive with
    | some first =>
      rw [Option.some_or]
      refine ⟨.inl, fun either => ?_⟩
      rcases either with same | ⟨nobody, _⟩
      · exact same
      · have on := List.find?_some active
        rw [nobody first (List.mem_of_find?_eq_some active)] at on
        cases on
    | none =>
      have nobody : ∀ worm ∈ team.children, isActive worm = false := by simpa using active
      simp only [Option.none_or, reduceCtorEq, false_or]
      exact ⟨fun first => ⟨nobody, first⟩, And.right⟩

theorem not_agrees {team : Task} (nothing : Dll.activeWorm team = none) : ¬ Agrees team := by
  cases current : team.children.find? (isCurrent team) with
  | some worm =>
    rw [activeWorm_current current] at nothing
    cases nothing
  | none =>
    rw [activeWorm_active current, List.find?_eq_none] at nothing
    unfold Agrees
    rw [current]
    rintro ⟨worm, member, active⟩
    exact nothing worm member active

def teamsOf (root : Task) (number : Int) : List Task :=
  root.traverse.filter fun obj => obj.classtype == classTypeTeam && obj.team.teamNumber == number

theorem firstTeam_eq (root : Task) (number : Int) : firstTeam root number = (teamsOf root number).head? := by
  rw [teamsOf, List.head?_filter, firstTeam]

theorem findTurnWorm_eq (root : Task) (number : Int) :
    Dll.findTurnWorm root number = (teamsOf root number).findSome? Dll.activeWorm := by
  unfold teamsOf Dll.findTurnWorm
  induction root.traverse with
  | nil => rfl
  | cons obj rest ih =>
    by_cases own : obj.classtype = classTypeTeam ∧ obj.team.teamNumber = number
    · rw [List.filter_cons_of_pos (by simpa using own), List.findSome?_cons, List.findSome?_cons, if_pos own, ih]
    · rw [List.filter_cons_of_neg (by simpa using own), List.findSome?_cons, if_neg own, ih]

theorem highlighted_eq (root : Task) (number : Int) :
    highlighted root number =
      (teamsOf root number).head?.bind fun team => activeOrFirst isActive team.children := by
  rw [highlighted, myTeamWorm, List.find?_filter, teamsOf, List.head?_filter]
  simp only [Bool.decide_and, Bool.decide_eq_true]

theorem highlighted_findTurnWorm (tree : TaskTree) (number : Int) {worm : Task}
    (found : Dll.findTurnWorm tree.root number = some worm) :
    highlighted tree.root number = some worm ↔
      ∃ team, firstTeam tree.root number = some team ∧ Agrees team := by
  have apart : (teamsOf tree.root number).Pairwise _ := tree.children_apart.filter _
  rw [findTurnWorm_eq] at found
  rw [highlighted_eq, firstTeam_eq]
  cases teams : teamsOf tree.root number with
  | nil =>
    rw [teams] at found
    cases found
  | cons team later =>
    rw [teams] at found apart
    rw [List.findSome?_cons] at found
    simp only [List.head?_cons, Option.bind_some, Option.some.injEq, exists_eq_left']
    cases own : Dll.activeWorm team with
    | some first =>
      rw [own] at found
      cases found
      exact activeOrFirst_iff own
    | none =>
      rw [own] at found
      obtain ⟨other, member, elsewhere⟩ := List.exists_of_findSome?_eq_some found
      have differs : activeOrFirst isActive team.children ≠ some worm := by
        intro same
        have head : worm ∈ team.children := by
          rcases Option.or_eq_some_iff.mp same with active | ⟨_, first⟩
          · exact List.mem_of_find?_eq_some active
          · exact List.mem_of_head? first
        exact (List.pairwise_cons.mp apart).1 other member worm head worm (mem_of_activeWorm elsewhere) rfl
      exact iff_of_false differs (not_agrees own)

theorem findActiveTurnWorm_exec {g : Statics} {s : Shared} {tg : Dll.TurnGame} {worm : Task}
    (turnGame : Dll.getAddrTurnGame g s.memory = some tg)
    (found : s.exec (Dll.findActiveTurnWorm g) = some (some worm, s)) :
    0 ≤ s.currentTurnTeam ∧ Dll.findTurnWorm tg.task s.currentTurnTeam = some worm := by
  by_cases noTurn : s.currentTurnTeam < 0
  · simp [Shared.exec, Dll.findActiveTurnWorm, Link.call, Shared.reply, noTurn] at found
  · simp only [Shared.exec, Dll.findActiveTurnWorm, Link.call, exec_bind, exec_call, Shared.reply,
      Option.bind_some, noTurn, if_false, turnGame, exec_pure, Option.some.injEq, Prod.mk.injEq,
      and_true] at found
    exact ⟨Int.not_lt.mp noTurn, found⟩

/-- The page of the owner of the team on turn highlights the weapon of the worm that stands in the tree
    where the page finds its own, and that is the worm of the selection exactly where the rules agree. -/
theorem selected_iff_agrees (g : Statics) (s : Shared) (tree : TaskTree) (tg : Dll.TurnGame)
    (task : tg.task = tree.root) (game : g.addrGameGlobal ≠ 0)
    (turnGame : Dll.getAddrTurnGame g s.memory = some tg) {worm : Task}
    (found : s.exec (Dll.findActiveTurnWorm g) = some (some worm, s)) :
    (∃ snap, s.exec (Dll.buildSnapshot g) = some (snap, s) ∧ snap.turnTeam = some s.currentTurnTeam ∧
      selectedWorm (some (Backend.gameSnapshot snap)) (some s.currentTurnTeam) =
        (highlighted tree.root s.currentTurnTeam).map fun worm =>
          Backend.wormInfo (Dll.wormSnapshot worm)) ∧
    (highlighted tree.root s.currentTurnTeam = some worm ↔
      ∃ team, firstTeam tree.root s.currentTurnTeam = some team ∧ Agrees team) := by
  obtain ⟨onTurn, found⟩ := findActiveTurnWorm_exec turnGame found
  rw [task] at found
  refine ⟨⟨Dll.turnSnapshot g s.memory tg s.currentTurnTeam, ?_, ?_, ?_⟩,
    highlighted_findTurnWorm tree s.currentTurnTeam found⟩
  · simp [Shared.exec, Dll.buildSnapshot, game, Link.call, Shared.reply, turnGame]
  · exact if_pos onTurn
  · rw [selectedWorm_turnSnapshot, task]

def twoWorms (stale : Int) : Task :=
  .mk 1 6 {} {} [some (.mk 2 classTypeTeam { currentWormNumber := 1 } {}
    [some (.mk 3 17 {} { wormNumber := 0, active := stale, selectedWeapon := 1 } []), none,
     some (.mk 4 17 {} { wormNumber := 1, active := 1, selectedWeapon := 5 } [])])]

def twoWormsTree (stale : Int) : TaskTree where
  root := twoWorms stale
  distinct := by
    change [1, 2, 3, 4].Nodup
    decide

def onTurn (stale : Int) : Shared :=
  { currentTurnTeam := 0, memory := { gameGlobal := 1, turnGame := some { task := twoWorms stale } } }

theorem selected_iff_agrees_current :
    (highlighted (twoWorms 0) 0).map Task.address = some 4 := by
  have found : (onTurn 0).exec (Dll.findActiveTurnWorm { addrDdGame := 1, addrGameGlobal := 1 }) =
      some (some (.mk 4 17 {} { wormNumber := 1, active := 1, selectedWeapon := 5 } []), onTurn 0) := rfl
  have same := (selected_iff_agrees { addrDdGame := 1, addrGameGlobal := 1 } (onTurn 0) (twoWormsTree 0)
    { task := twoWorms 0 } rfl (by decide) rfl found).2.mpr ⟨_, rfl, .inl rfl⟩
  change highlighted (twoWorms 0) 0 = _ at same
  rw [same]
  rfl

/-- The page highlights the weapon of worm 0, and a selection goes to worm 1. -/
theorem highlighted_stale :
    ¬ ∀ (g : Statics) (s : Shared) (tree : TaskTree) (tg : Dll.TurnGame) (worm : Task),
      tg.task = tree.root → g.addrGameGlobal ≠ 0 → Dll.getAddrTurnGame g s.memory = some tg →
      s.exec (Dll.findActiveTurnWorm g) = some (some worm, s) →
      highlighted tree.root s.currentTurnTeam = some worm := by
  intro always
  have same := always { addrDdGame := 1, addrGameGlobal := 1 } (onTurn 1) (twoWormsTree 1)
    { task := twoWorms 1 } (.mk 4 17 {} { wormNumber := 1, active := 1, selectedWeapon := 5 } []) rfl
    (by decide) rfl rfl
  have addresses := congrArg (Option.map Task.address) same
  exact absurd addresses (by decide)

end WebControl.Frontend
