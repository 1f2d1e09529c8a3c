import WkWebControl.Dll.FireCalls
import WkWebControl.Link.WeaponWrites

open Effects WebControl Program
open WebControl.Dll (TaskMessage)

namespace WebControl.Link

def isShot : TaskMessage → Bool
  | .fireWeapon | .releaseWeapon => true
  | _ => false

def shots : History Answer → List TaskMessage
  | [] => []
  | ⟨.clearControl, _⟩ :: _ => []
  | ⟨.dispatch m _, _⟩ :: h => if isShot m then m :: shots h else shots h
  | _ :: h => shots h

def frameShots : History Answer → Nat
  | [] => 0
  | ⟨.nextCall, _⟩ :: _ => 0
  | ⟨.dispatch m _, _⟩ :: h => if isShot m then frameShots h + 1 else frameShots h
  | _ :: h => frameShots h

/-- How often since the last teardown the level of fire was not the one read before. -/
def levelEdges : History Answer → Nat
  | [] => 0
  | ⟨.clearControl, _⟩ :: _ => 0
  | ⟨.readControl, state⟩ :: h =>
    if Dll.ControlState.firing state = wasFiring h then levelEdges h else levelEdges h + 1
  | _ :: h => levelEdges h

/-- `n` shots, the newest first: each is charged before it is released. -/
def volley : Nat → List TaskMessage
  | 0 => []
  | n + 1 => (if n % 2 = 0 then .fireWeapon else .releaseWeapon) :: volley n

def findsTurnGame : Step Answer → History Answer → Bool
  | ⟨.readMemory, m⟩, older => constructing older || (ddGame older != 0 && (Dll.Memory.turnGame m).isSome)
  | _, _ => true

/-- In every frame of a live game the turn game is present. -/
def TurnGamePresent : History Answer → Prop := Along fun s older => findsTurnGame s older = true

instance (h : History Answer) : Decidable (TurnGamePresent h) :=
  inferInstanceAs (Decidable (Along (fun s older => findsTurnGame s older = true) h))

theorem length_volley (n : Nat) : (volley n).length = n := by
  induction n with
  | zero => rfl
  | succ n ih => rw [volley, List.length_cons, ih]

theorem volley_injective {m n : Nat} (same : volley m = volley n) : m = n := by
  rw [← length_volley m, same, length_volley]

theorem head_volley (n : Nat) : (volley n).head? = some .fireWeapon ↔ n % 2 = 1 := by
  cases n with
  | zero => simp [volley]
  | succ n =>
    rw [volley, List.head?_cons]
    split
    · rename_i even
      simp only [true_iff]
      omega
    · simp only [Option.some.injEq, reduceCtorEq, false_iff]
      omega

theorem wasFiring_iff (h : History Answer) : wasFiring h = true ↔ levelEdges h % 2 = 1 := by
  induction h with
  | nil => simp [wasFiring, levelEdges]
  | cons s h ih =>
    rcases s with ⟨e, r⟩
    cases e with
    | clearControl => simp [wasFiring, levelEdges]
    | readControl =>
      simp only [wasFiring, levelEdges]
      split
      · rename_i same
        rw [same]
        exact ih
      · rename_i other
        rw [Bool.eq_not_of_ne other, Bool.not_eq_true', ← Bool.not_eq_true, ih]
        omega
    | _ => exact ih

def Fired (h : History Answer) : Prop := TurnGamePresent h → shots h = volley (levelEdges h)

def firePermits (h : History Answer) : Effect → Prop
  | .readControl => Fired h
  | .dispatch m _ => isShot m = true →
    frameShots h = 0 ∧ (TurnGamePresent h → volley (levelEdges h) = m :: shots h)
  | _ => True

def firePost : Flow → History Answer → Prop
  | .game g, h => writePost (.game g) h ∧ wasFiring h = g.wasFiring ∧ Fired h
  | _, _ => False

structure Owing (g : Statics) (firing : Bool) (owed : List TaskMessage) (h : History Answer) : Prop where
  addressed : Addressed g h
  firing : wasFiring h = firing
  first : frameShots h = 0
  owed : TurnGamePresent h → volley (levelEdges h) = owed ++ shots h

def fireless : Effect → Bool
  | .nextCall | .readControl | .clearControl => false
  | .dispatch m _ => !isShot m
  | _ => true

section Frame

variable {h : History Answer} {g : Statics} {firing : Bool} {owed : List TaskMessage}

theorem Owing.keep (owing : Owing g firing owed h) {e : Effect} (quiet : fireless e = true) (r : Answer e) :
    Owing g firing owed (⟨e, r⟩ :: h) := by
  have addressed : Addressed g (⟨e, r⟩ :: h) := by
    apply owing.addressed.kept
    rintro rfl
    cases quiet
  cases e with
  | nextCall | readControl | clearControl => cases quiet
  | dispatch m payload =>
    have other : isShot m = false := by simpa [fireless] using quiet
    refine ⟨addressed, owing.firing, ?_, fun present => ?_⟩
    · rw [frameShots, other]
      exact owing.first
    · rw [shots, other]
      exact owing.owed present.tail
  | _ => exact ⟨addressed, owing.firing, owing.first, fun present => owing.owed present.tail⟩

theorem Performing.fireless {α : Type} {p : Prog α} {Q : Effect → Bool} {post : α → Prop}
    (performing : Performing Q p h post) (quiet : ∀ e, Q e = true → fireless e = true)
    (owing : Owing g firing owed h) :
    Meets firePermits (fun a after => post a ∧ Owing g firing owed after) p h := by
  refine performing.keeps owing fun h e kept performed => ?_
  have silent := quiet e performed
  refine ⟨?_, fun r => kept.keep silent r⟩
  cases e with
  | readControl => cases silent
  | dispatch m payload =>
    intro shot
    rw [Link.fireless, shot] at silent
    cases silent
  | _ => trivial

theorem looks_fireless (e : Effect) (own : looks e = true) : fireless e = true := by
  cases e <;> first | rfl | cases own

theorem pushes_fireless (e : Effect) (own : pushes e = true) : fireless e = true := by
  cases e <;> first | rfl | cases own

theorem dispatching_fireless {m : TaskMessage} (other : isShot m = false) (e : Effect)
    (own : dispatching m e = true) : fireless e = true := by
  cases e with
  | dispatch m' payload =>
    have same : m' = m := eq_of_beq own
    rw [fireless, same, other]
    rfl
  | _ => first | rfl | cases own

theorem selecting_fireless (e : Effect) (own : selecting e = true) : fireless e = true := by
  cases e with
  | dispatch => exact dispatching_fireless (m := .selectWeapon) rfl _ own
  | _ => first | rfl | cases own

theorem assertHeld_fires (held : Bool) {m : TaskMessage} (other : isShot m = false)
    (owing : Owing g firing owed h) :
    Meets firePermits (fun _ => Owing g firing owed) (Dll.assertHeld g held m) h :=
  ((assertHeld_dispatching g held m).fireless (dispatching_fireless other) owing).mono fun _ _ both => both.2

theorem selectPending_fires (weaponId : Int) (owing : Owing g firing owed h) :
    Meets firePermits (fun _ => Owing g firing owed) (Dll.selectPending g weaponId) h :=
  ((selectPending_selecting g weaponId).fireless selecting_fireless owing).mono fun _ _ both => both.2

def owedFor (firing was : Bool) : List TaskMessage :=
  if firing ∧ ¬ was then [.fireWeapon] else if ¬ firing ∧ was then [.releaseWeapon] else []

theorem Owing.read (owing : Owing g g.wasFiring [] h) (state : Dll.ControlState) :
    Owing g state.firing (owedFor state.firing g.wasFiring) (⟨.readControl, state⟩ :: h) where
  addressed := owing.addressed.kept (e := .readControl) (fun same => by cases same) state
  firing := rfl
  first := owing.first
  owed present := by
    have before := owing.owed present.tail
    have parity := wasFiring_iff h
    rw [owing.firing] at parity
    change volley (if state.firing = wasFiring h then levelEdges h else levelEdges h + 1) = _ ++ shots h
    rw [owing.firing]
    cases firing : state.firing <;> cases was : g.wasFiring
    · exact before
    · rw [if_neg (by decide), volley, if_neg (by have := parity.mp was; omega), before]
      rfl
    · have even : levelEdges h % 2 = 0 := by
        rw [was] at parity
        have := mt parity.mpr Bool.false_ne_true
        omega
      rw [if_neg (by decide), volley, if_pos even, before]
      rfl
    · exact before

structure Settled (g : Statics) (firing : Bool) (h : History Answer) : Prop where
  addressed : Addressed g h
  firing : wasFiring h = firing
  fired : Fired h

theorem sendInput_fires {m : TaskMessage} (shot : isShot m = true) (owing : Owing g firing [m] h) :
    Meets firePermits (fun _ => Settled g firing) (Dll.sendInput g m) h := by
  simp only [Dll.sendInput, meets_bind, call, meets_call]
  refine ⟨trivial, fun memory => ?_⟩
  have read := owing.keep (e := .readMemory) rfl memory
  have sent : ∀ {h}, Owing g firing [m] h → ∀ payload, firePermits h (.dispatch m payload) ∧
      Settled g firing (⟨.dispatch m payload, ()⟩ :: h) := by
    intro h owing payload
    have addressed := owing.addressed.kept (e := .dispatch m payload) (fun same => by cases same) ()
    refine ⟨fun _ => ⟨owing.first, owing.owed⟩, addressed, owing.firing, fun present => ?_⟩
    rw [shots, if_pos shot]
    exact (owing.owed present.tail).symm
  split
  · rename_i absent
    refine ⟨read.addressed, read.firing, fun present => ?_⟩
    have finds := present.head
    rw [findsTurnGame, owing.addressed.going, Bool.false_or, Bool.and_eq_true, bne_iff_ne,
      owing.addressed.dd] at finds
    rw [Dll.getAddrTurnGame, if_neg finds.1] at absent
    rw [absent] at finds
    cases finds.2
  · split
    · exact ⟨(sent read (-1)).1, fun _ => (sent read (-1)).2⟩
    · simp only [meets_bind, meets_call]
      refine ⟨trivial, fun team => ?_⟩
      have loaded := read.keep (e := .loadTurn) rfl team
      exact ⟨(sent loaded _).1, fun _ => (sent loaded _).2⟩

theorem fireEdge_fires (owing : Owing g firing (owedFor firing g.wasFiring) h) :
    Meets firePermits (fun _ => Settled g firing) (Dll.fireEdge g firing) h := by
  unfold Dll.fireEdge
  unfold owedFor at owing
  split
  · rename_i press
    rw [if_pos press] at owing
    exact sendInput_fires rfl owing
  · rename_i other
    rw [if_neg other] at owing
    split
    · rename_i release
      rw [if_pos release] at owing
      exact sendInput_fires rfl owing
    · rename_i same
      rw [if_neg same] at owing
      exact ⟨owing.addressed, owing.firing, fun present => (owing.owed present).symm⟩

theorem applyHeldInput_fires (owing : Owing g g.wasFiring [] h) :
    Meets firePermits (fun g' after => firePost (.game g') after) (Dll.applyHeldInput g) h := by
  unfold Dll.applyHeldInput
  simp only [meets_bind, call, meets_call]
  refine ⟨fun present => (owing.owed present).symm, fun state => ?_⟩
  apply (assertHeld_fires state.jump rfl (owing.read state)).mono
  intro _ _ owing
  apply (selectPending_fires state.selectWeapon owing).mono
  intro _ _ owing
  apply (assertHeld_fires state.moveLeft rfl owing).mono
  intro _ _ owing
  apply (assertHeld_fires state.moveRight rfl owing).mono
  intro _ _ owing
  apply (assertHeld_fires state.aimUp rfl owing).mono
  intro _ _ owing
  apply (assertHeld_fires state.aimDown rfl owing).mono
  intro _ _ owing
  apply (fireEdge_fires owing).mono
  exact fun _ _ settled => ⟨⟨settled.addressed.global, settled.addressed.dd⟩, settled.firing, settled.fired⟩

theorem onFrame_fires (codec : Codec) (owing : Owing g g.wasFiring [] h) :
    Meets firePermits (fun g' after => firePost (.game g') after) (Dll.onFrame codec g) h := by
  simp only [Dll.onFrame, meets_bind, call]
  apply ((buildSnapshot_looks g).fireless looks_fireless owing).mono
  rintro snap read ⟨_, owing⟩
  refine ⟨trivial, fun _ => ?_⟩
  have published := owing.keep (e := .publish snap) rfl ()
  apply ((pushState_pushing g codec snap (h := ⟨.publish snap, ()⟩ :: read)).fireless pushes_fireless
    published).mono
  rintro g' pushed ⟨⟨tick, rfl⟩, owing⟩
  have same : Addressed { g with lastPushTick := tick } pushed :=
    ⟨owing.addressed.global, owing.addressed.dd, owing.addressed.going⟩
  split
  · exact applyHeldInput_fires ⟨same, owing.firing, owing.first, owing.owed⟩
  · exact ⟨⟨same.global, same.dd⟩, owing.firing, fun present => (owing.owed present).symm⟩

theorem gameThread_fires (codec : Codec) (post : firePost (.game g) h) :
    Meets firePermits firePost (Dll.gameThread codec g) h := by
  obtain ⟨⟨global, dd⟩, firing, fired⟩ := post
  simp only [Dll.gameThread, meets_bind, call, meets_call]
  refine ⟨trivial, fun next => ?_⟩
  cases next with
  | initializeW2App ddGame => exact ⟨⟨global, rfl⟩, firing, fun present => fired present.tail⟩
  | constructGameGlobal =>
    simp only [Dll.hookConstructGameGlobal, meets_bind, call, meets_call]
    exact ⟨trivial, fun _ => ⟨⟨rfl, dd⟩, firing, fun present => fired present.tail.tail⟩⟩
  | destroyGameGlobal =>
    simp only [Dll.hookDestroyGameGlobal, Dll.onGameTornDown, meets_bind, call]
    exact ⟨trivial, fun _ => ⟨trivial, fun _ => ⟨trivial, fun _ => ⟨⟨rfl, rfl⟩, rfl, fun _ => rfl⟩⟩⟩⟩
  | turnHandleMessage mtype data =>
    rw [meets_bind]
    apply hookTurnHandleMessage_meets mtype data
    · exact ⟨⟨global, dd⟩, firing, fun present => fired present.tail⟩
    · exact fun team => ⟨trivial, ⟨global, dd⟩, firing, fun present => fired present.tail.tail⟩
    · exact fun _ => onFrame_fires codec (h := ⟨.nextCall, .turnHandleMessage mtype data⟩ :: h)
        ⟨⟨global, dd, rfl⟩, firing, rfl, fun present => (fired present.tail).symm⟩

end Frame

structure Firing (h : History Answer) : Prop where
  present : TurnGamePresent h
  fired : shots h = volley (levelEdges h) ∨ ∃ m, volley (levelEdges h) = m :: shots h
  once : frameShots h ≤ 1

theorem Firing.step {s : Step Answer} {h : History Answer} (before : Firing h)
    (permits : firePermits h s.1) (finds : findsTurnGame s h = true) : Firing (s :: h) := by
  obtain ⟨present, fired, once⟩ := before
  have still : TurnGamePresent (s :: h) := .cons finds present
  rcases s with ⟨e, r⟩
  cases e with
  | readControl =>
    have all : shots h = volley (levelEdges h) := permits present
    refine ⟨still, ?_, once⟩
    change shots h = volley (if Dll.ControlState.firing r = wasFiring h then levelEdges h else levelEdges h + 1) ∨
      ∃ m, volley (if Dll.ControlState.firing r = wasFiring h then levelEdges h else levelEdges h + 1) = m :: shots h
    rw [all]
    split
    · exact .inl rfl
    · exact .inr ⟨_, rfl⟩
  | dispatch m payload =>
    by_cases shot : isShot m = true
    · obtain ⟨none_, owed⟩ := permits shot
      refine ⟨still, .inl ?_, ?_⟩
      · rw [shots, if_pos shot]
        exact (owed present).symm
      · rw [frameShots, if_pos shot, none_]
    · refine ⟨still, ?_, ?_⟩
      · rw [shots, if_neg shot]
        exact fired
      · rw [frameShots, if_neg shot]
        exact once
  | clearControl => exact ⟨still, .inl rfl, once⟩
  | nextCall => exact ⟨still, fired, Nat.zero_le 1⟩
  | _ => exact ⟨still, fired, once⟩

theorem Firing.volley {h : History Answer} (firing : Firing h) : ∃ n, shots h = Link.volley n := by
  rcases firing.fired with all | ⟨m, owed⟩
  · exact ⟨_, all⟩
  · cases edges : levelEdges h with
    | zero =>
      rw [edges] at owed
      cases owed
    | succ n =>
      rw [edges] at owed
      exact ⟨n, (List.cons.inj owed).2.symm⟩

section Run

variable {codec : Codec} {events : List (Task × Choice)}

theorem game_start_fires (codec : Codec) : (start codec .game).Meets firePermits firePost [] :=
  gameThread_fires codec ⟨⟨rfl, rfl⟩, rfl, fun _ => rfl⟩

theorem game_again_fires (codec : Codec) (flow : Flow) (h : History Answer) (post : firePost flow h) :
    (again codec flow).Meets firePermits firePost h := by
  cases flow with
  | game g => exact gameThread_fires codec post
  | _ => exact post.elim

theorem run_firing (present : TurnGamePresent (historyOf .game (run codec events).log)) :
    Firing (historyOf .game (run codec events).log) := by
  have permitted : Permitted firePermits (historyOf .game (run codec events).log) :=
    System.run_permitted (S := system codec) (game_start_fires codec) (game_again_fires codec) {} events
  have along := Along.and permitted present
  apply along.keeps Firing
  · exact ⟨.nil, .inl rfl, Nat.zero_le 1⟩
  · exact fun s h before both => before.step both.1 both.2

theorem run_settled (back : returned ((run codec events).residual .game) = true) :
    ∃ g, (run codec events).residual .game = Dll.gameThread codec g ∧
      wasFiring (historyOf .game (run codec events).log) = g.wasFiring ∧
      Fired (historyOf .game (run codec events).log) := by
  have flows : ∀ flow h, firePost flow h → ∃ g, flow = .game g := by
    intro flow h post
    cases flow with
    | game g => exact ⟨g, rfl⟩
    | _ => exact post.elim
  obtain ⟨g, head, _, was, fired⟩ := run_returned (fun _ _ => gameThread_fires codec) flows
    ⟨⟨rfl, rfl⟩, rfl, fun _ => rfl⟩ back
  exact ⟨g, head, was, fired⟩

end Run

/-- At any moment the shots of a game are charged and released by turns, with at most one in a call, and
    between two calls `g_wasFiring` says whether the last one has been charged. -/
theorem shots_alternate (codec : Codec) (events : List (Task × Choice))
    (present : TurnGamePresent (historyOf .game (run codec events).log)) :
    (∃ n, shots (historyOf .game (run codec events).log) = volley n) ∧
    frameShots (historyOf .game (run codec events).log) ≤ 1 ∧
    (returned ((run codec events).residual .game) = true →
      ∃ g, (run codec events).residual .game = Dll.gameThread codec g ∧
        (g.wasFiring = true ↔ (shots (historyOf .game (run codec events).log)).head? = some .fireWeapon)) := by
  have firing := run_firing present
  refine ⟨firing.volley, firing.once, fun back => ?_⟩
  obtain ⟨g, head, was, fired⟩ := run_settled back
  refine ⟨g, head, ?_⟩
  rw [fired present, head_volley, ← was, wasFiring_iff]

def pressFire : Backend.CommandMessage := ⟨"0", .fire, .press, 0⟩

def releaseFire : Backend.CommandMessage := ⟨"0", .fire, .release, 0⟩

def charges : List (Task × Choice) :=
  initialises ++ constructs ++ startsTurn 0 ++ joins ++ receives pressFire ++ frames ++ dispatches

theorem shots_alternate_charged :
    ∃ g, (run (commandCodec [pressFire]) charges).residual .game = Dll.gameThread (commandCodec [pressFire]) g ∧
      g.wasFiring = true := by
  have charged : (shots (historyOf .game (run (commandCodec [pressFire]) charges).log)).head? =
      some .fireWeapon := by decide +kernel
  obtain ⟨_, _, between⟩ := shots_alternate (commandCodec [pressFire]) charges (by decide +kernel)
  obtain ⟨g, head, was⟩ := between (by decide +kernel)
  exact ⟨g, head, was.mpr charged⟩

end WebControl.Link
