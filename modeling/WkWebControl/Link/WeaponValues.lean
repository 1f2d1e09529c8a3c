import WkWebControl.Backend.TurnGating
import WkWebControl.Link.WeaponWrites
import WkWebControl.Link.Wire

open Effects WebControl Program
open WebControl.Backend (CommandMessage)

namespace WebControl.Link

def selectRead : History Answer → Int
  | [] => -1
  | ⟨.readControl, state⟩ :: _ => Dll.ControlState.selectWeapon state
  | _ :: h => selectRead h

def indexPermits (h : History Answer) : Effect → Prop
  | .writeWeapon _ index _ => index = selectRead h ∧ 1 ≤ index ∧ index ≤ 70
  | _ => True

section Frame

variable {h : History Answer} {g : Statics} {weaponId : Int}

theorem Performing.selecting {α : Type} {p : Prog α} {Q : Effect → Bool} {post : α → Prop}
    (performing : Performing Q p h post) (quiet : ∀ e, Q e = true → ∃ m, dispatching m e = true)
    (same : selectRead h = weaponId) :
    Meets indexPermits (fun _ after => selectRead after = weaponId) p h := by
  have step : ∀ h e, selectRead h = weaponId → Q e = true →
      indexPermits h e ∧ ∀ r, selectRead (⟨e, r⟩ :: h) = weaponId := by
    intro h e kept performed
    obtain ⟨m, dispatches⟩ := quiet e performed
    cases e <;> first | exact ⟨trivial, fun _ => kept⟩ | cases dispatches
  exact (performing.keeps same step).mono fun _ _ both => both.2

theorem applyWeapon_selects (same : selectRead h = weaponId) :
    Meets indexPermits (fun _ after => selectRead after = weaponId) (Dll.applyWeapon g weaponId) h := by
  unfold Dll.applyWeapon
  split
  · exact same
  · rename_i range
    split
    · exact same
    · simp only [meets_bind, call, meets_call]
      refine ⟨trivial, fun m => ?_⟩
      split
      · exact same
      · rw [meets_bind]
        apply ((findActiveTurnWorm_looks g (h := ⟨.readMemory, m⟩ :: h)).selecting ?_ same).mono
        · intro worm after same
          cases worm with
          | none => exact same
          | some worm =>
            rw [meets_bind]
            refine ⟨⟨same.symm, by omega⟩, fun _ => ?_⟩
            exact (sendInput_dispatching g .selectWeapon weaponId).selecting (fun _ own => ⟨_, own⟩) same
        · intro e looks_
          refine ⟨.jump, ?_⟩
          cases e <;> first | rfl | cases looks_

theorem selectPending_selects (same : selectRead h = weaponId) :
    Meets indexPermits (fun _ after => selectRead after = weaponId) (Dll.selectPending g weaponId) h := by
  unfold Dll.selectPending
  split
  · exact applyWeapon_selects same
  · exact same

theorem assertHeld_selects (held : Bool) (m : Dll.TaskMessage) (same : selectRead h = weaponId) :
    Meets indexPermits (fun _ after => selectRead after = weaponId) (Dll.assertHeld g held m) h :=
  (assertHeld_dispatching g held m).selecting (fun _ own => ⟨m, own⟩) same

theorem fireEdge_selects (firing : Bool) (same : selectRead h = weaponId) :
    Meets indexPermits (fun _ after => selectRead after = weaponId) (Dll.fireEdge g firing) h := by
  unfold Dll.fireEdge
  split
  · exact (sendInput_dispatching g _ _).selecting (fun _ own => ⟨_, own⟩) same
  · split
    · exact (sendInput_dispatching g _ _).selecting (fun _ own => ⟨_, own⟩) same
    · exact same

theorem applyHeldInput_selects :
    Meets indexPermits (fun _ _ => True) (Dll.applyHeldInput g) h := by
  unfold Dll.applyHeldInput
  simp only [meets_bind, call, meets_call]
  refine ⟨trivial, fun state => ?_⟩
  have read : selectRead (⟨.readControl, state⟩ :: h) = Dll.ControlState.selectWeapon state := rfl
  apply (assertHeld_selects _ _ read).mono
  intro _ _ read
  apply (selectPending_selects read).mono
  intro _ _ read
  apply (assertHeld_selects _ _ read).mono
  intro _ _ read
  apply (assertHeld_selects _ _ read).mono
  intro _ _ read
  apply (assertHeld_selects _ _ read).mono
  intro _ _ read
  apply (assertHeld_selects _ _ read).mono
  intro _ _ read
  exact (fireEdge_selects _ read).mono fun _ _ _ => trivial

end Frame

def Has64Bits (n : Int) : Prop := -(2 ^ 63) ≤ n ∧ n < 2 ^ 64

/-- `json::parse` keeps to the grammar on the lines of commands, except that it may refuse a number that
    has no 64 bits. -/
def Codec.ParsesCommands (codec : Codec) : Prop :=
  ∀ (cmd : CommandMessage) (fields : List (String × Json)), cmd.modelDump = .obj fields →
    (∃ found, codec.parse (commandText cmd) = some (.obj found) ∧
      ∀ key, Json.field? found key = Json.field? fields key) ∨
    codec.parse (commandText cmd) = none ∧ ¬ Has64Bits cmd.value

theorem plainCodec_parsesCommands : plainCodec.ParsesCommands := by
  intro cmd fields dump
  have read : Json.read (commandText cmd) = some cmd.modelDump :=
    Json.Style.dumps.read_text (modelDump_plain cmd)
  rw [dump] at read
  exact .inl ⟨fields, read, fun _ => rfl⟩

/-- A weapon that a frame can write when nothing else has been selected before the command. -/
def Writes (codec : Codec) (cmd : CommandMessage) (index : Int) : Prop :=
  ∃ (s after : Shared) (g g' : Statics) (answer : History Answer → (e : Effect) → Answer e)
    (steps : History Answer) (address : Nat) (entry : UInt32),
    s.control.selectWeapon = -1 ∧
    s.exec (Dll.handleCommand codec (commandText cmd)) = some (true, after) ∧
    (∀ h, answer h .readControl = after.control) ∧
    (Dll.applyHeldInput g).exec (answering answer) [] = some (g', steps) ∧
    (⟨.writeWeapon address index entry, ()⟩ : Step Answer) ∈ steps

section Command

variable {codec : Codec} {cmd : CommandMessage}

theorem handleCommand_exec (parses : codec.ParsesCommands) (s : Shared) :
    s.exec (Dll.handleCommand codec (commandText cmd)) = some (true, { s with
        control := s.control.apply cmd.action.plugin cmd.phase.plugin (Dll.intOfInteger cmd.value) }) ∨
      s.exec (Dll.handleCommand codec (commandText cmd)) = some (true, s) ∧ ¬ Has64Bits cmd.value := by
  rcases parses cmd _ rfl with ⟨found, parsed, same⟩ | ⟨refused, wide⟩
  · have command := Backend.readCommand_modelDump cmd
    rw [CommandMessage.modelDump, ← readCommand_congr same] at command
    left
    unfold Dll.handleCommand
    simp [parsed, command, Shared.exec, call, Shared.reply]
  · right
    refine ⟨?_, wide⟩
    unfold Dll.handleCommand
    simp [refused, Shared.exec]

theorem intOfInteger_wide {n : Int} (wide : ¬ Has64Bits n) : Dll.intOfInteger n < 1 := by
  rw [Dll.intOfInteger, if_neg (by exact wide)]
  decide

theorem intOfInteger_bits {n : Int} (bits : Has64Bits n) : Dll.intOfInteger n = n.bmod (2 ^ 32) := by
  rw [Dll.intOfInteger, if_pos (by exact bits)]

theorem intOfInteger_range {n : Int} (bits : Has64Bits n) :
    (1 ≤ Dll.intOfInteger n ∧ Dll.intOfInteger n ≤ 70) ↔ (1 ≤ n % 2 ^ 32 ∧ n % 2 ^ 32 ≤ 70) := by
  rw [intOfInteger_bits bits, Int.bmod_def]
  split <;> omega

theorem intOfInteger_mod {n : Int} (bits : Has64Bits n) (range : 1 ≤ n % 2 ^ 32 ∧ n % 2 ^ 32 ≤ 70) :
    Dll.intOfInteger n = n % 2 ^ 32 := by
  rw [intOfInteger_bits bits, Int.bmod_def]
  split <;> omega

theorem written_selected {g g' : Statics} {answer : History Answer → (e : Effect) → Answer e}
    {steps : History Answer} {control : Dll.ControlState} (read : ∀ h, answer h .readControl = control)
    (ran : (Dll.applyHeldInput g).exec (answering answer) [] = some (g', steps))
    {address : Nat} {index : Int} {entry : UInt32}
    (member : (⟨.writeWeapon address index entry, ()⟩ : Step Answer) ∈ steps) :
    (index = -1 ∨ index = control.selectWeapon) ∧ 1 ≤ index ∧ index ≤ 70 := by
  obtain ⟨_, _, same, _, permitted⟩ := (applyHeldInput_selects (h := [])).exec answer
  rw [ran] at same
  cases same
  have along := (permitted .nil).and (exec_answered ran .nil)
  have kept := along.keeps (fun h => (selectRead h = -1 ∨ selectRead h = control.selectWeapon) ∧
    ∀ address index entry, (⟨.writeWeapon address index entry, ()⟩ : Step Answer) ∈ h →
      (index = -1 ∨ index = control.selectWeapon) ∧ 1 ≤ index ∧ index ≤ 70)
    ⟨.inl rfl, fun _ _ _ member => absurd member List.not_mem_nil⟩ ?_
  · exact kept.2 address index entry member
  · rintro ⟨e, r⟩ h ⟨selected, before⟩ ⟨permits, answered⟩
    constructor
    · cases e with
      | readControl =>
        right
        change Dll.ControlState.selectWeapon r = control.selectWeapon
        rw [show r = answer h .readControl from answered, read]
      | _ => exact selected
    · intro address index entry member
      rcases List.mem_cons.mp member with same | member
      · cases same
        rcases permits with ⟨own, range⟩
        exact ⟨own ▸ selected, range⟩
      · exact before address index entry member

/-- Nothing is written but what a press has left in the input, and that within the range. -/
theorem writes_selected (parses : codec.ParsesCommands) (select : cmd.action = .selectWeapon) {index : Int}
    (writes : Writes codec cmd index) :
    cmd.phase = .press ∧ Has64Bits cmd.value ∧ index = Dll.intOfInteger cmd.value ∧ 1 ≤ index ∧ index ≤ 70 := by
  obtain ⟨s, after, g, g', answer, steps, address, entry, nothing, handled, read, ran, member⟩ := writes
  obtain ⟨own, range⟩ := written_selected read ran member
  rcases handleCommand_exec parses s with whole | ⟨whole, _⟩
  · cases whole.symm.trans handled
    rw [select] at own
    cases phase : cmd.phase with
    | release =>
      rw [phase] at own
      change index = -1 ∨ index = s.control.selectWeapon at own
      omega
    | press =>
      rw [phase] at own
      change index = -1 ∨ index = Dll.intOfInteger cmd.value at own
      have exact_ : index = Dll.intOfInteger cmd.value := by omega
      refine ⟨rfl, ?_, exact_, range⟩
      by_contra wide
      have low := intOfInteger_wide wide
      omega
  · cases whole.symm.trans handled
    omega

def oneTeamAnswers (control : Dll.ControlState) (_ : History Answer) : (e : Effect) → Answer e
  | .readControl => control
  | .readMemory => oneTeam
  | .loadTurn => (0 : Int)
  | .nextCall => .constructGameGlobal
  | .getTickCount => (0 : UInt32)
  | .lockClient | .accept | .connect => none
  | .send _ _ => .wouldBlock
  | .running => true
  | .recv _ | .receive _ => .closed
  | .storeTurn _ | .publish _ | .dropClient | .unlockClient | .clearControl | .writeWeapon _ _ _
  | .dispatch _ _ | .setClient _ | .applyControl _ _ _ | .closesocket _ | .terminate | .setSock _
  | .setLatest _ => ()

def selectingSteps (weaponId : Int) : History Answer :=
  [⟨.dispatch .selectWeapon weaponId, ()⟩, ⟨.readMemory, oneTeam⟩,
   ⟨.writeWeapon 3 weaponId (1000 + 464 * UInt32.ofInt weaponId), ()⟩, ⟨.readMemory, oneTeam⟩,
   ⟨.loadTurn, (0 : Int)⟩, ⟨.readMemory, oneTeam⟩,
   ⟨.readControl, ({ selectWeapon := weaponId } : Dll.ControlState)⟩]

theorem applyHeldInput_oneTeam {weaponId : Int} (range : 1 ≤ weaponId ∧ weaponId ≤ 70) :
    (Dll.applyHeldInput { addrDdGame := 1, addrGameGlobal := 1 }).exec
        (answering (oneTeamAnswers { selectWeapon := weaponId })) [] =
      some ({ addrDdGame := 1, addrGameGlobal := 1 }, selectingSteps weaponId) := by
  have asked : weaponId ≥ 0 := by omega
  have inRange : ¬ (weaponId < 1 ∨ weaponId > 70) := by omega
  have selected : (Dll.selectPending { addrDdGame := 1, addrGameGlobal := 1 } weaponId).exec
      (answering (oneTeamAnswers { selectWeapon := weaponId }))
      [⟨.readControl, ({ selectWeapon := weaponId } : Dll.ControlState)⟩] =
      some ((), selectingSteps weaponId) := by
    rw [Dll.selectPending, if_pos asked, Dll.applyWeapon, if_neg inRange]
    simp only [Dll.sendInput, if_pos asked]
    rfl
  unfold Dll.applyHeldInput
  simp only [call, exec_bind, exec_call, answering, Option.bind_some, oneTeamAnswers, Dll.assertHeld,
    Bool.false_eq_true, if_false, exec_pure]
  rw [selected]
  rfl

theorem writes_of_press (parses : codec.ParsesCommands) (select : cmd.action = .selectWeapon)
    (phase : cmd.phase = .press) (range : 1 ≤ Dll.intOfInteger cmd.value ∧ Dll.intOfInteger cmd.value ≤ 70) :
    Writes codec cmd (Dll.intOfInteger cmd.value) := by
  rcases handleCommand_exec parses {} with handled | ⟨_, wide⟩
  · rw [select, phase] at handled
    refine ⟨{}, _, { addrDdGame := 1, addrGameGlobal := 1 }, _, oneTeamAnswers _, _, 3,
      1000 + 464 * UInt32.ofInt (Dll.intOfInteger cmd.value), rfl, handled, fun _ => rfl,
      applyHeldInput_oneTeam range, ?_⟩
    exact .tail _ (.tail _ (.head _))
  · have low := intOfInteger_wide wide
    omega

/-- The conversions leave the weapon a press asks for as it is, or leave nothing to write. -/
def Survives (cmd : CommandMessage) : Prop :=
  cmd.phase = .press → Has64Bits cmd.value → 1 ≤ cmd.value % 2 ^ 32 ∧ cmd.value % 2 ^ 32 ≤ 70 →
    1 ≤ cmd.value ∧ cmd.value ≤ 70

theorem writes_iff_survives (parses : codec.ParsesCommands) (select : cmd.action = .selectWeapon) :
    (∀ index, Writes codec cmd index → index = cmd.value ∧ 1 ≤ index ∧ index ≤ 70) ↔ Survives cmd := by
  constructor
  · intro exactly phase bits range
    have narrow := (intOfInteger_range bits).mpr range
    obtain ⟨same, kept⟩ := exactly _ (writes_of_press parses select phase narrow)
    rw [← same]
    exact kept
  · intro survives index writes
    obtain ⟨phase, bits, rfl, kept⟩ := writes_selected parses select writes
    have range := (intOfInteger_range bits).mp kept
    have small := survives phase bits range
    have narrowed := intOfInteger_mod bits range
    refine ⟨?_, kept⟩
    rw [narrowed]
    omega

theorem writes_own (parses : codec.ParsesCommands) (select : cmd.action = .selectWeapon)
    (phase : cmd.phase = .press) (range : 1 ≤ cmd.value ∧ cmd.value ≤ 70) : Writes codec cmd cmd.value := by
  have bits : Has64Bits cmd.value := ⟨by omega, by omega⟩
  have same : Dll.intOfInteger cmd.value = cmd.value := by
    rw [intOfInteger_mod bits (by omega)]
    omega
  have writes := writes_of_press parses select phase (by omega)
  rwa [same] at writes

end Command

/-- Of every selection that the backend accepts: the weapon written for it is the number that was asked
    for, and one outside 1..70 writes nothing, exactly if the conversions spare that number. -/
theorem selection_exact (codec : Codec) (parses : codec.ParsesCommands) (s : Backend.Shared)
    (events : List (Backend.Task × Backend.Choice)) (newer older : Backend.Log)
    (x : Entry Backend.Task Backend.Answer Backend.Shared) (cmd : CommandMessage)
    (split : (Backend.run s events).log = newer ++ x :: older) (sent : x.step = ⟨.sendCommand cmd, true⟩)
    (select : cmd.action = .selectWeapon) :
    (∃ n, x.thread = .session n ∧ Backend.GatedAt n older cmd) ∧
      ((∀ index, Writes codec cmd index → index = cmd.value ∧ 1 ≤ index ∧ index ≤ 70) ↔ Survives cmd) ∧
      (cmd.phase = .press → 1 ≤ cmd.value ∧ cmd.value ≤ 70 → Writes codec cmd cmd.value) := by
  refine ⟨?_, writes_iff_survives parses select, writes_own parses select⟩
  obtain ⟨n, own, gated | released⟩ := Backend.command_gated_or_released s events split sent
  · exact ⟨n, own, gated⟩
  · have held := released.2.1
    rw [select] at held
    cases held

def asksFor (n : Int) : List (Backend.Task × Backend.Choice) :=
  Backend.opening ++
    [(.session 0, .user Backend.alice), (.session 0, .incoming (.json (.obj [("action", .str "select_weapon"), ("value", .int n)]))),
     (.session 0, .go), (.session 0, .go), (.session 0, .go)]

theorem selection_exact_grenade :
    ∃ x older, (Backend.run {} (asksFor 5)).log = x :: older ∧
      Writes plainCodec ⟨"0", .selectWeapon, .press, 5⟩ 5 ∧
      ∀ index, Writes plainCodec ⟨"0", .selectWeapon, .press, 5⟩ index → index = 5 := by
  have newest : (Backend.run {} (asksFor 5)).log.head?.bind (fun x => Backend.accepted x.step) =
      some ⟨"0", .selectWeapon, .press, 5⟩ := by decide +kernel
  obtain ⟨x, head, sent⟩ := Option.bind_eq_some_iff.mp newest
  obtain ⟨older, log⟩ := List.head?_eq_some_iff.mp head
  obtain ⟨_, exactly, own⟩ := selection_exact plainCodec plainCodec_parsesCommands {} (asksFor 5) [] older x
    _ log (Backend.step_of_accepted sent) rfl
  refine ⟨x, older, log, own rfl (by decide), fun index writes => ?_⟩
  exact (exactly.mpr (fun _ _ _ => by decide) index writes).1

/-- 2^32 + 1 is asked for, and the bazooka is written. -/
theorem selection_wraps :
    ¬ ∀ (events : List (Backend.Task × Backend.Choice)) (newer older : Backend.Log)
      (x : Entry Backend.Task Backend.Answer Backend.Shared) (cmd : CommandMessage),
      (Backend.run {} events).log = newer ++ x :: older → x.step = ⟨.sendCommand cmd, true⟩ →
      cmd.action = .selectWeapon →
      ∀ index, Writes plainCodec cmd index → index = cmd.value ∧ 1 ≤ index ∧ index ≤ 70 := by
  intro always
  have newest : (Backend.run {} (asksFor 4294967297)).log.head?.bind (fun x => Backend.accepted x.step) =
      some ⟨"0", .selectWeapon, .press, 4294967297⟩ := by decide +kernel
  obtain ⟨x, head, sent⟩ := Option.bind_eq_some_iff.mp newest
  obtain ⟨older, log⟩ := List.head?_eq_some_iff.mp head
  have exactly := always (asksFor 4294967297) [] older x _ log (Backend.step_of_accepted sent) rfl
  have writes : Writes plainCodec ⟨"0", .selectWeapon, .press, 4294967297⟩ _ :=
    writes_of_press plainCodec_parsesCommands rfl rfl (by decide)
  cases (exactly _ writes).1

end WebControl.Link
