import WkWebControl.Dll.TaskTree
import WkWebControl.Link.Frame
import WkWebControl.Link.Push
import WkWebControl.Link.Replies

open Effects WebControl Program
open WebControl.Dll (classTypeTeam)

namespace WebControl.Link

def ddGame : History Answer → UInt32
  | [] => 0
  | ⟨.nextCall, .initializeW2App ddGame⟩ :: _ => ddGame
  | ⟨.nextCall, .destroyGameGlobal⟩ :: _ => 0
  | _ :: h => ddGame h

def memoriesRead : History Answer → List Dll.Memory
  | [] => []
  | ⟨.readMemory, m⟩ :: h => m :: memoriesRead h
  | ⟨.nextCall, _⟩ :: _ | ⟨.dispatch _ _, _⟩ :: _ | ⟨.writeWeapon _ _ _, _⟩ :: _ => []
  | _ :: h => memoriesRead h

def turnsRead : History Answer → List Int
  | [] => []
  | ⟨.loadTurn, team⟩ :: h => team :: turnsRead h
  | ⟨.storeTurn _, _⟩ :: _ | ⟨.dispatch _ _, _⟩ :: _ => []
  | _ :: h => turnsRead h

def wroteWeapon : History Answer → Bool
  | [] => false
  | ⟨.nextCall, _⟩ :: _ => false
  | ⟨.writeWeapon _ _ _, _⟩ :: _ => true
  | _ :: h => wroteWeapon h

/-- The weapon table `m` and the tree of `m'` bear a write out, with `turn` the team on turn. -/
structure Writable (m m' : Dll.Memory) (turn : Int) (address : Nat) (index : Int) (entry : UInt32) :
    Prop where
  table : m.weaponTable ≠ 0
  onTurn : 0 ≤ turn
  range : 1 ≤ index ∧ index ≤ 70
  entry : entry = m.weaponTable + 464 * UInt32.ofInt index
  worm : ∃ tg worm, m'.turnGame = some tg ∧ Dll.findTurnWorm tg.task turn = some worm ∧
    worm.address = address

def writePermits (h : History Answer) : Effect → Prop
  | .writeWeapon address index entry => wroteWeapon h = false ∧ gameGlobal h ≠ 0 ∧ ddGame h ≠ 0 ∧
    ∃ m ∈ memoriesRead h, ∃ m' ∈ memoriesRead h, ∃ turn ∈ turnsRead h,
      Writable m m' turn address index entry
  | .running | .accept | .setClient _ | .recv _ | .applyControl _ _ _ | .terminate | .connect
  | .receive _ | .setSock _ | .setLatest _ => False
  | _ => True

def writePost : Flow → History Answer → Prop
  | .game g, h => gameGlobal h = g.addrGameGlobal ∧ ddGame h = g.addrDdGame
  | _, _ => False

structure Addressed (g : Statics) (h : History Answer) : Prop where
  global : gameGlobal h = g.addrGameGlobal
  dd : ddGame h = g.addrDdGame
  going : constructing h = false

def spares : Effect → Bool
  | .nextCall | .writeWeapon _ _ _ => false
  | .running | .accept | .setClient _ | .recv _ | .applyControl _ _ _ | .terminate | .connect
  | .receive _ | .setSock _ | .setLatest _ => false
  | _ => true

section Game

variable {h : History Answer} {g : Statics}

theorem Addressed.kept (addressed : Addressed g h) {e : Effect} (other : e ≠ .nextCall) (r : Answer e) :
    Addressed g (⟨e, r⟩ :: h) := by
  cases e with
  | nextCall => exact absurd rfl other
  | readMemory => exact ⟨by rw [gameGlobal, addressed.going]; exact addressed.global, addressed.dd, rfl⟩
  | _ => exact ⟨addressed.global, addressed.dd, rfl⟩

theorem Addressed.spared (addressed : Addressed g h) {e : Effect} (spare : spares e = true) (r : Answer e) :
    Addressed g (⟨e, r⟩ :: h) := by
  apply addressed.kept
  rintro rfl
  cases spare

theorem wroteWeapon_spared {e : Effect} (spare : spares e = true) (r : Answer e) :
    wroteWeapon (⟨e, r⟩ :: h) = wroteWeapon h := by
  cases e <;> first | rfl | cases spare

theorem Performing.spared {α : Type} {p : Prog α} {Q : Effect → Bool} {post : α → Prop}
    (performing : Performing Q p h post) (spare : ∀ e, Q e = true → spares e = true)
    (addressed : Addressed g h) (written : Bool) (same : wroteWeapon h = written) :
    Meets writePermits (fun a after => post a ∧ Addressed g after ∧ wroteWeapon after = written) p h := by
  refine performing.keeps ⟨addressed, same⟩ fun h e kept performed => ?_
  have spared := spare e performed
  refine ⟨?_, fun r => ⟨kept.1.spared spared r, (wroteWeapon_spared spared r).trans kept.2⟩⟩
  cases e <;> trivial

structure Found (g : Statics) (m : Dll.Memory) (worm : Dll.Task) (h : History Answer) : Prop where
  dd : g.addrDdGame ≠ 0
  read : m ∈ memoriesRead h
  worm : ∃ m' ∈ memoriesRead h, ∃ turn ∈ turnsRead h, 0 ≤ turn ∧
    ∃ tg, m'.turnGame = some tg ∧ Dll.findTurnWorm tg.task turn = some worm

theorem getAddrTurnGame_some {g : Statics} {m : Dll.Memory} {tg : Dll.TurnGame}
    (found : Dll.getAddrTurnGame g m = some tg) : g.addrDdGame ≠ 0 ∧ m.turnGame = some tg := by
  unfold Dll.getAddrTurnGame at found
  split at found
  · cases found
  · rename_i some_
    exact ⟨some_, found⟩

theorem findActiveTurnWorm_writes {m : Dll.Memory} (read : m ∈ memoriesRead h) (addressed : Addressed g h)
    (fresh : wroteWeapon h = false) :
    Meets writePermits (fun worm after => Addressed g after ∧ wroteWeapon after = false ∧
      ∀ w, worm = some w → Found g m w after) (Dll.findActiveTurnWorm g) h := by
  simp only [Dll.findActiveTurnWorm, meets_bind, call, meets_call]
  refine ⟨trivial, fun team => ?_⟩
  have addressed := addressed.spared (e := .loadTurn) rfl team
  split
  · exact ⟨addressed, fresh, fun w found => by cases found⟩
  · rename_i onTurn
    simp only [meets_bind, meets_call]
    refine ⟨trivial, fun memory => ?_⟩
    have addressed := addressed.spared (e := .readMemory) rfl memory
    split
    · exact ⟨addressed, fresh, fun w found => by cases found⟩
    · rename_i tg turnGame
      refine ⟨addressed, fresh, fun w found => ?_⟩
      obtain ⟨dd, some_⟩ := getAddrTurnGame_some turnGame
      exact ⟨dd, List.mem_cons_of_mem _ read, memory, List.mem_cons_self, team, List.mem_cons_self,
        Int.not_lt.mp onTurn, tg, some_, found⟩

theorem dispatching_spares {m : Dll.TaskMessage} (e : Effect) (performed : dispatching m e = true) :
    spares e = true := by
  cases e <;> first | rfl | cases performed

theorem applyWeapon_writes (weaponId : Int) (addressed : Addressed g h) (fresh : wroteWeapon h = false) :
    Meets writePermits (fun _ => Addressed g) (Dll.applyWeapon g weaponId) h := by
  unfold Dll.applyWeapon
  split
  · exact addressed
  · rename_i range
    split
    · exact addressed
    · rename_i game
      simp only [meets_bind, call, meets_call]
      refine ⟨trivial, fun m => ?_⟩
      have addressed := addressed.spared (e := .readMemory) rfl m
      split
      · exact addressed
      · rename_i table
        rw [meets_bind]
        apply (findActiveTurnWorm_writes (h := ⟨.readMemory, m⟩ :: h) List.mem_cons_self addressed fresh).mono
        rintro worm after ⟨addressed, fresh, found⟩
        cases worm with
        | none => exact addressed
        | some worm =>
          obtain ⟨dd, read, m', read', turn, loaded, onTurn, tg, turnGame, own⟩ := found worm rfl
          have writable : Writable m m' turn worm.address weaponId
              (m.weaponTable + 464 * UInt32.ofInt weaponId) :=
            ⟨table, onTurn, by omega, rfl, tg, worm, turnGame, own, rfl⟩
          rw [meets_bind]
          refine ⟨⟨fresh, ?_, ?_, m, read, m', read', turn, loaded, writable⟩, fun _ => ?_⟩
          · rw [addressed.global]
            exact game
          · rw [addressed.dd]
            exact dd
          · have kept : Addressed g (⟨.writeWeapon worm.address weaponId
                (m.weaponTable + 464 * UInt32.ofInt weaponId), ()⟩ :: after) :=
              ⟨addressed.global, addressed.dd, rfl⟩
            exact ((sendInput_dispatching g .selectWeapon weaponId).spared dispatching_spares kept true
              rfl).mono fun _ _ all => all.2.1

theorem selectPending_writes (weaponId : Int) (addressed : Addressed g h) (fresh : wroteWeapon h = false) :
    Meets writePermits (fun _ => Addressed g) (Dll.selectPending g weaponId) h := by
  unfold Dll.selectPending
  split
  · exact applyWeapon_writes weaponId addressed fresh
  · exact addressed

theorem assertHeld_writes (held : Bool) (m : Dll.TaskMessage) (addressed : Addressed g h) :
    Meets writePermits (fun _ after => Addressed g after ∧ wroteWeapon after = wroteWeapon h)
      (Dll.assertHeld g held m) h :=
  ((assertHeld_dispatching g held m).spared dispatching_spares addressed _ rfl).mono fun _ _ all => all.2

theorem fireEdge_writes (firing : Bool) (addressed : Addressed g h) :
    Meets writePermits (fun _ => Addressed g) (Dll.fireEdge g firing) h := by
  unfold Dll.fireEdge
  split
  · exact ((sendInput_dispatching g _ _).spared dispatching_spares addressed _ rfl).mono fun _ _ all => all.2.1
  · split
    · exact ((sendInput_dispatching g _ _).spared dispatching_spares addressed _ rfl).mono fun _ _ all => all.2.1
    · exact addressed

theorem applyHeldInput_writes (addressed : Addressed g h) (fresh : wroteWeapon h = false) :
    Meets writePermits (fun g' after => writePost (.game g') after) (Dll.applyHeldInput g) h := by
  unfold Dll.applyHeldInput
  simp only [meets_bind, call, meets_call]
  refine ⟨trivial, fun state => ?_⟩
  have addressed := addressed.spared (e := .readControl) rfl state
  apply (assertHeld_writes state.jump .jump addressed).mono
  rintro _ jumped ⟨addressed, same⟩
  apply (selectPending_writes state.selectWeapon addressed (same.trans fresh)).mono
  intro _ _ addressed
  apply (assertHeld_writes state.moveLeft .moveLeft addressed).mono
  rintro _ _ ⟨addressed, _⟩
  apply (assertHeld_writes state.moveRight .moveRight addressed).mono
  rintro _ _ ⟨addressed, _⟩
  apply (assertHeld_writes state.aimUp .moveUp addressed).mono
  rintro _ _ ⟨addressed, _⟩
  apply (assertHeld_writes state.aimDown .moveDown addressed).mono
  rintro _ _ ⟨addressed, _⟩
  apply (fireEdge_writes state.firing addressed).mono
  exact fun _ _ addressed => ⟨addressed.global, addressed.dd⟩

theorem onFrame_writes (codec : Codec) (addressed : Addressed g h) (fresh : wroteWeapon h = false) :
    Meets writePermits (fun g' after => writePost (.game g') after) (Dll.onFrame codec g) h := by
  simp only [Dll.onFrame, meets_bind, call]
  apply ((buildSnapshot_looks g).spared ?_ addressed _ fresh).mono
  · rintro snap read ⟨_, addressed, fresh⟩
    refine ⟨trivial, fun _ => ?_⟩
    have published := addressed.spared (e := .publish snap) rfl ()
    apply ((pushState_pushing g codec snap (h := ⟨.publish snap, ()⟩ :: read)).spared ?_ published _ fresh).mono
    · rintro g' pushed ⟨⟨tick, rfl⟩, addressed, fresh⟩
      have same : Addressed { g with lastPushTick := tick } pushed :=
        ⟨addressed.global, addressed.dd, addressed.going⟩
      split
      · exact applyHeldInput_writes same fresh
      · exact ⟨same.global, same.dd⟩
    · intro e performed
      cases e <;> first | rfl | cases performed
  · intro e performed
    cases e <;> first | rfl | cases performed

theorem gameThread_writes (codec : Codec) (post : writePost (.game g) h) :
    Meets writePermits writePost (Dll.gameThread codec g) h := by
  obtain ⟨global, dd⟩ := post
  simp only [Dll.gameThread, meets_bind, call, meets_call]
  refine ⟨trivial, fun next => ?_⟩
  cases next with
  | initializeW2App ddGame => exact ⟨global, rfl⟩
  | constructGameGlobal =>
    simp only [Dll.hookConstructGameGlobal, meets_bind, call, meets_call]
    exact ⟨trivial, fun _ => ⟨rfl, dd⟩⟩
  | destroyGameGlobal =>
    simp only [Dll.hookDestroyGameGlobal, Dll.onGameTornDown, meets_bind, call]
    exact ⟨trivial, fun _ => ⟨trivial, fun _ => ⟨trivial, fun _ => ⟨rfl, rfl⟩⟩⟩⟩
  | turnHandleMessage mtype data =>
    rw [meets_bind]
    apply hookTurnHandleMessage_meets mtype data
    · exact ⟨global, dd⟩
    · exact fun team => ⟨trivial, global, dd⟩
    · exact fun _ => onFrame_writes codec (h := ⟨.nextCall, .turnHandleMessage mtype data⟩ :: h)
        ⟨global, dd, rfl⟩ rfl

end Game

def weaponPermits (codec : Codec) : Task → History Answer → Effect → Prop
  | .game => writePermits
  | .ipc => ipcPermits codec
  | .reader => readerPermits

def weaponPost : Task → Flow → History Answer → Prop
  | .game => writePost
  | .ipc => ipcPost
  | .reader => readerPost

def weaponContract (codec : Codec) : (system codec).Contract where
  permits := weaponPermits codec
  post := weaponPost
  start i := by
    cases i with
    | game => exact gameThread_writes codec ⟨rfl, rfl⟩
    | ipc => exact input_start_meets codec .ipc
    | reader => exact input_start_meets codec .reader
  again i flow h done := by
    cases i with
    | game =>
      cases flow with
      | game g => exact gameThread_writes codec done
      | _ => exact done.elim
    | ipc => exact input_again_meets codec .ipc flow h done
    | reader => exact input_again_meets codec .reader flow h done

def changesMemory : Effect → Bool
  | .nextCall | .dispatch _ _ | .writeWeapon _ _ _ => true
  | _ => false

def changesTurn : Effect → Bool
  | .storeTurn _ | .dispatch _ _ => true
  | _ => false

theorem Shared.Replies.gameState {s after : Shared} {e : Effect} {r : Answer e}
    (replies : s.Replies e r after) :
    (changesMemory e = false → after.memory = s.memory) ∧
      (changesTurn e = false → after.currentTurnTeam = s.currentTurnTeam) := by
  cases e with
  | nextCall =>
    obtain ⟨_, rfl⟩ := replies
    exact ⟨fun other => (by cases other), fun _ => rfl⟩
  | dispatch => exact ⟨fun other => (by cases other), fun other => (by cases other)⟩
  | writeWeapon =>
    cases replies
    exact ⟨fun other => (by cases other), fun _ => rfl⟩
  | storeTurn =>
    cases replies
    exact ⟨fun _ => rfl, fun other => (by cases other)⟩
  | send client data =>
    cases r with
    | sent n _ _ => obtain ⟨_, rfl⟩ := replies; exact ⟨fun _ => rfl, fun _ => rfl⟩
    | _ => cases replies; exact ⟨fun _ => rfl, fun _ => rfl⟩
  | accept =>
    cases r with
    | none => cases replies; exact ⟨fun _ => rfl, fun _ => rfl⟩
    | some client => obtain ⟨_, _, rfl⟩ := replies; exact ⟨fun _ => rfl, fun _ => rfl⟩
  | connect =>
    cases r with
    | none => cases replies; exact ⟨fun _ => rfl, fun _ => rfl⟩
    | some sock => obtain ⟨_, rfl⟩ := replies; exact ⟨fun _ => rfl, fun _ => rfl⟩
  | receive sock =>
    cases r with
    | data bytes => obtain ⟨_, _, _, rfl⟩ := replies; exact ⟨fun _ => rfl, fun _ => rfl⟩
    | _ => cases replies; exact ⟨fun _ => rfl, fun _ => rfl⟩
  | lockClient => obtain ⟨_, _, rfl⟩ := replies; exact ⟨fun _ => rfl, fun _ => rfl⟩
  | readMemory | loadTurn | readControl | setClient =>
    obtain ⟨_, rfl⟩ := replies
    exact ⟨fun _ => rfl, fun _ => rfl⟩
  | _ => cases replies; exact ⟨fun _ => rfl, fun _ => rfl⟩

structure Seen (s : Shared) (h : History Answer) : Prop where
  memories : ∀ m ∈ memoriesRead h, m = s.memory
  turns : ∀ team ∈ turnsRead h, team = s.currentTurnTeam

theorem Seen.same {s after : Shared} {h h' : History Answer} (seen : Seen s h)
    (memories : memoriesRead h' = [] ∨ memoriesRead h' = memoriesRead h ∧ after.memory = s.memory)
    (turns : turnsRead h' = [] ∨ turnsRead h' = turnsRead h ∧ after.currentTurnTeam = s.currentTurnTeam) :
    Seen after h' where
  memories m member := by
    rcases memories with none_ | ⟨same, memory⟩
    · rw [none_] at member
      cases member
    · rw [same] at member
      rw [memory]
      exact seen.memories m member
  turns team member := by
    rcases turns with none_ | ⟨same, turn⟩
    · rw [none_] at member
      cases member
    · rw [same] at member
      rw [turn]
      exact seen.turns team member

theorem Seen.gameStep {s after : Shared} {h : History Answer} {e : Effect} {r : Answer e}
    (seen : Seen s h) (replies : s.Replies e r after) : Seen after (⟨e, r⟩ :: h) := by
  obtain ⟨memory, turn⟩ := replies.gameState
  cases e with
  | readMemory =>
    obtain ⟨rfl, rfl⟩ := replies
    refine ⟨fun m member => ?_, seen.turns⟩
    rcases List.mem_cons.mp member with rfl | member
    · rfl
    · exact seen.memories m member
  | loadTurn =>
    obtain ⟨rfl, rfl⟩ := replies
    refine ⟨seen.memories, fun team member => ?_⟩
    rcases List.mem_cons.mp member with rfl | member
    · rfl
    · exact seen.turns team member
  | dispatch => exact seen.same (.inl rfl) (.inl rfl)
  | nextCall | writeWeapon => exact seen.same (.inl rfl) (.inr ⟨rfl, turn rfl⟩)
  | storeTurn => exact seen.same (.inr ⟨rfl, memory rfl⟩) (.inl rfl)
  | _ => exact seen.same (.inr ⟨rfl, memory rfl⟩) (.inr ⟨rfl, turn rfl⟩)

section Run

variable {codec : Codec} {events : List (Task × Choice)}

theorem run_seen {newer older : Log} {x : Entry Task Answer Shared}
    (split : (run codec events).log = newer ++ x :: older) :
    Seen x.before (historyOf .game older) ∧ (system codec).Answered x ∧
      weaponPermits codec x.thread (historyOf x.thread older) x.effect := by
  refine (weaponContract codec).run_before {} (P := fun s log => Seen s (historyOf .game log))
    ⟨fun _ member => absurd member List.not_mem_nil, fun _ member => absurd member List.not_mem_nil⟩
    ?_ events split
  intro x log seen answered permitted
  have replies := answered_replies answered rfl
  rcases x with ⟨thread, e, r, s, after⟩
  cases thread with
  | game => exact seen.gameStep replies
  | ipc =>
    obtain ⟨memory, turn⟩ := replies.gameState
    cases e with
    | running | accept | setClient | recv | closesocket | applyControl | terminate =>
      exact seen.same (.inr ⟨rfl, memory rfl⟩) (.inr ⟨rfl, turn rfl⟩)
    | _ => exact permitted.elim
  | reader =>
    obtain ⟨memory, turn⟩ := replies.gameState
    cases e with
    | connect | receive | setSock | setLatest =>
      exact seen.same (.inr ⟨rfl, memory rfl⟩) (.inr ⟨rfl, turn rfl⟩)
    | _ => exact permitted.elim

/-- The worm that is written to: a child of a team with the number of the one on turn, the first with the
    number of the team's current worm, or without one the first active worm. -/
structure Target (root : Dll.Task) (turn : Int) (worm : Dll.Task) : Prop where
  team : ∃ place team, root.at? place = some team ∧ team.classtype = classTypeTeam ∧
    team.team.teamNumber = turn ∧ some worm ∈ team.slots ∧
    (team.children.find? (fun w => w.worm.wormNumber == team.team.currentWormNumber) = some worm ∨
      (∀ w ∈ team.children, w.worm.wormNumber ≠ team.team.currentWormNumber) ∧
        team.children.find? (fun w => w.worm.active != 0) = some worm)

theorem target_of_findTurnWorm {root worm : Dll.Task} {turn : Int}
    (found : Dll.findTurnWorm root turn = some worm) : Target root turn worm := by
  obtain ⟨team, visited, chosen⟩ := List.exists_of_findSome?_eq_some found
  split at chosen
  · rename_i own
    obtain ⟨place, _, there⟩ : ∃ place ∈ root.places, root.at? place = some team := by
      rw [← List.mem_map, Dll.Task.traverse_places]
      exact List.mem_map_of_mem visited
    have slot : ∀ w ∈ team.children, some w ∈ team.slots := by
      intro w member
      rw [Dll.Task.children_slots] at member
      simpa using member
    unfold Dll.activeWorm at chosen
    split at chosen
    · rename_i w current
      cases chosen
      exact ⟨place, team, there, own.1, own.2, slot _ (List.mem_of_find?_eq_some current), .inl current⟩
    · rename_i nobody
      have none_ : ∀ w ∈ team.children, w.worm.wormNumber ≠ team.team.currentWormNumber := by
        simpa using nobody
      exact ⟨place, team, there, own.1, own.2, slot _ (List.mem_of_find?_eq_some chosen), .inr ⟨none_, chosen⟩⟩
  · cases chosen

/-- What is true when a weapon is written. -/
structure WeaponWrite (s : Shared) (h : History Answer) (address : Nat) (index : Int) (entry : UInt32) :
    Prop where
  game : gameGlobal h ≠ 0 ∧ ddGame h ≠ 0
  table : s.memory.weaponTable ≠ 0
  onTurn : 0 ≤ s.currentTurnTeam
  range : 1 ≤ index ∧ index ≤ 70
  entry : entry = s.memory.weaponTable + 464 * UInt32.ofInt index
  worm : ∃ tg worm, s.memory.turnGame = some tg ∧ Target tg.task s.currentTurnTeam worm ∧
    worm.address = address
  first : wroteWeapon h = false

def OnlyWeapon (before after : Dll.Memory) (address : Nat) (index : Int) (entry : UInt32) : Prop :=
  ∃ tg task, before.turnGame = some tg ∧ after = { before with turnGame := some { tg with task } } ∧
    ∀ place, Option.Rel (Dll.Task.Rewritten address index entry) (tg.task.at? place) (task.at? place)

theorem onlyWeapon_writeWeapon {m : Dll.Memory} {tg : Dll.TurnGame} (turnGame : m.turnGame = some tg)
    (address : Nat) (index : Int) (entry : UInt32) :
    OnlyWeapon m (Shared.writeWeapon m address index entry) address index entry := by
  refine ⟨tg, tg.task.writeWeapon address index entry, turnGame, ?_, fun place => ?_⟩
  · rw [Shared.writeWeapon, turnGame]
    rfl
  · rw [Dll.Task.at?_writeWeapon]
    cases tg.task.at? place with
    | none => exact .none
    | some task => exact .some (Dll.Task.writeWeapon_rewritten address index entry task)

/-- The plugin changes nothing in the memory of WA but the weapon of the worm on turn, once in a call at
    most. -/
theorem weapon_writes (codec : Codec) (events : List (Task × Choice)) (newer older : Log)
    (x : Entry Task Answer Shared) (split : (run codec events).log = newer ++ x :: older) :
    (∀ address index entry, x.effect = .writeWeapon address index entry →
      WeaponWrite x.before (historyOf .game older) address index entry ∧
        OnlyWeapon x.before.memory x.after.memory address index entry) ∧
    (changesMemory x.effect = false → x.after.memory = x.before.memory) := by
  obtain ⟨seen, answered, permitted⟩ := run_seen split
  have replies := answered_replies answered rfl
  refine ⟨fun address index entry writes => ?_, replies.gameState.1⟩
  rcases x with ⟨thread, e, r, s, after⟩
  cases writes
  cases thread with
  | ipc => exact permitted.elim
  | reader => exact permitted.elim
  | game =>
    obtain ⟨first, game, dd, m, read, m', read', turn, loaded, writable⟩ := permitted
    have table := seen.memories m read
    have tree := seen.memories m' read'
    have onTurn := seen.turns turn loaded
    subst table tree onTurn
    obtain ⟨tg, worm, turnGame, found, own⟩ := writable.worm
    have stepped : after = { s with memory := Shared.writeWeapon s.memory address index entry } := replies
    subst stepped
    exact ⟨⟨⟨game, dd⟩, writable.table, writable.onTurn, writable.range, writable.entry,
      ⟨tg, worm, turnGame, target_of_findTurnWorm found, own⟩, first⟩,
      onlyWeapon_writeWeapon turnGame address index entry⟩

end Run

def selectHoming : Backend.CommandMessage := ⟨"0", .selectWeapon, .press, 2⟩

def commandCodec (cmds : List Backend.CommandMessage) : Codec where
  parse line := (cmds.map Backend.CommandMessage.modelDump).find? fun j => compact j == line
  dump := compact
  loads _ := none
  laxInt _ := none
  laxBool _ := none

def oneTeam : Dll.Memory where
  gameGlobal := 1
  weaponTable := 1000
  turnGame := some { task := .mk 1 6 {} {} [none, some (.mk 2 classTypeTeam { currentWormNumber := 1 } {}
    [none, some (.mk 3 17 {} { wormNumber := 1, active := 1, selectedWeapon := 1 } [])])] }

def selects : List (Task × Choice) :=
  initialises ++ constructs ++ startsTurn 0 ++ joins ++ receives selectHoming ++
    [(.game, .calls (.turnHandleMessage .frameFinish none) oneTeam), (.game, .go), (.game, .go),
     (.game, .go), (.game, .tick 0), (.game, .go), (.game, .go), (.game, .go), (.game, .go), (.game, .go)]

def written? (x : Entry Task Answer Shared) : Option (Nat × Int × UInt32) :=
  match x.effect with
  | .writeWeapon address index entry => some (address, index, entry)
  | _ => none

theorem effect_of_written {x : Entry Task Answer Shared} {address : Nat} {index : Int} {entry : UInt32}
    (wrote : written? x = some (address, index, entry)) : x.effect = .writeWeapon address index entry := by
  rcases x with ⟨thread, e, r, s, after⟩
  cases e with
  | writeWeapon address' index' entry' =>
    cases wrote
    rfl
  | _ => cases wrote

theorem weapon_writes_homing :
    ∃ x older, (run (commandCodec [selectHoming]) selects).log = x :: older ∧
      WeaponWrite x.before (historyOf .game older) 3 2 1928 ∧
      OnlyWeapon x.before.memory x.after.memory 3 2 1928 := by
  have newest : (run (commandCodec [selectHoming]) selects).log.head?.bind written? = some (3, 2, 1928) := by
    decide +kernel
  obtain ⟨x, head, wrote⟩ := Option.bind_eq_some_iff.mp newest
  obtain ⟨older, log⟩ := List.head?_eq_some_iff.mp head
  exact ⟨x, older, log, (weapon_writes (commandCodec [selectHoming]) selects [] older x log).1 3 2 1928
    (effect_of_written wrote)⟩

end WebControl.Link
