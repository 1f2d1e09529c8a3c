import Mathlib.Data.List.Perm.Subperm
import WkWebControl.Link.WeaponWrites

open Effects WebControl Program
open WebControl.Dll (ControlAction ControlState TaskMessage)

namespace WebControl.Link

/-- The messages that `applyHeldInput` can send, in its order. -/
def inputOrder : List TaskMessage :=
  [.jump, .selectWeapon, .moveLeft, .moveRight, .moveUp, .moveDown, .fireWeapon, .releaseWeapon]

/-- Which of them the input asks for, with `was` the level of fire in the frame before. -/
def due (state : ControlState) (was : Bool) : TaskMessage → Bool
  | .jump => state.jump
  | .selectWeapon => state.selectWeapon ≥ 0
  | .moveLeft => state.moveLeft
  | .moveRight => state.moveRight
  | .moveUp => state.aimUp
  | .moveDown => state.aimDown
  | .fireWeapon => state.firing && !was
  | .releaseWeapon => !state.firing && was
  | _ => false

def dispatched : History Answer → List TaskMessage
  | [] => []
  | ⟨.nextCall, _⟩ :: _ => []
  | ⟨.dispatch m _, _⟩ :: h => dispatched h ++ [m]
  | _ :: h => dispatched h

def lastCall : History Answer → Option GameCall
  | [] => none
  | ⟨.nextCall, c⟩ :: _ => some c
  | _ :: h => lastCall h

/-- The call the game is in is that of a frame. -/
def FrameCalled (h : History Answer) : Prop := ∃ data, lastCall h = some (.turnHandleMessage .frameFinish data)

/-- Whenever this call has looked for the turn game, it was there. -/
def turnGameThere : History Answer → Bool
  | [] => true
  | ⟨.nextCall, _⟩ :: _ => true
  | ⟨.readMemory, m⟩ :: h => (ddGame h != 0 && (Dll.Memory.turnGame m).isSome) && turnGameThere h
  | _ :: h => turnGameThere h

def orderPermits (h : History Answer) : Effect → Prop
  | .readControl => dispatched h = [] ∧ FrameCalled h
  | .dispatch m _ => ∃ state was done rest, currentInput h = some (state, was) ∧ due state was m = true ∧
      inputOrder = done ++ m :: rest ∧ (dispatched h).Sublist (done.filter (due state was))
  | .running | .accept | .setClient _ | .recv _ | .applyControl _ _ _ | .terminate | .connect
  | .receive _ | .setSock _ | .setLatest _ => False
  | _ => True

/-- In a frame that has read its input, and is through with the messages `done`. -/
structure Stage (g : Statics) (state : ControlState) (was : Bool) (done : List TaskMessage)
    (h : History Answer) : Prop where
  addressed : Addressed g h
  firing : wasFiring h = state.firing
  input : currentInput h = some (state, was)
  sent : (dispatched h).Sublist (done.filter (due state was))
  all : turnGameThere h = true → ∀ m ∈ done, m ≠ .selectWeapon → due state was m = true → m ∈ dispatched h

structure Unread (g : Statics) (h : History Answer) : Prop where
  frame : FrameCalled h
  addressed : Addressed g h
  firing : wasFiring h = g.wasFiring
  input : currentInput h = none
  nothing : dispatched h = []

def FrameSent (h : History Answer) : Prop :=
  turnGameThere h = true → ∀ state was, currentInput h = some (state, was) →
    ∀ m ∈ inputOrder, m ≠ .selectWeapon → due state was m = true → m ∈ dispatched h

def orderPost : Flow → History Answer → Prop
  | .game g, h => writePost (.game g) h ∧ wasFiring h = g.wasFiring ∧ FrameSent h
  | _, _ => False

section Game

variable {h : History Answer} {g : Statics} {state : ControlState} {was : Bool} {done rest : List TaskMessage}

def steady : Effect → Bool
  | .nextCall | .readControl | .clearControl | .dispatch _ _ => false
  | .running | .accept | .setClient _ | .recv _ | .applyControl _ _ _ | .terminate | .connect
  | .receive _ | .setSock _ | .setLatest _ => false
  | _ => true

theorem permits_steady {e : Effect} (calm : steady e = true) : orderPermits h e := by
  cases e <;> trivial

theorem Stage.keep (stage : Stage g state was done h) {e : Effect} (calm : steady e = true) (r : Answer e) :
    Stage g state was done (⟨e, r⟩ :: h) := by
  have addressed : Addressed g (⟨e, r⟩ :: h) := by
    apply stage.addressed.kept
    rintro rfl
    cases calm
  cases e with
  | readMemory =>
    refine ⟨addressed, stage.firing, stage.input, stage.sent, fun there => stage.all ?_⟩
    rw [turnGameThere, Bool.and_eq_true] at there
    exact there.2
  | _ => first
    | exact ⟨addressed, stage.firing, stage.input, stage.sent, stage.all⟩
    | cases calm

theorem Unread.keep (unread : Unread g h) {e : Effect} (calm : steady e = true) (r : Answer e) :
    Unread g (⟨e, r⟩ :: h) := by
  have addressed : Addressed g (⟨e, r⟩ :: h) := by
    apply unread.addressed.kept
    rintro rfl
    cases calm
  cases e <;> first
    | exact ⟨unread.frame, addressed, unread.firing, unread.input, unread.nothing⟩
    | cases calm

theorem Performing.unread {α : Type} {p : Prog α} {Q : Effect → Bool} {post : α → Prop}
    (performing : Performing Q p h post) (calm : ∀ e, Q e = true → steady e = true) (unread : Unread g h) :
    Meets orderPermits (fun a after => post a ∧ Unread g after) p h := by
  apply performing.keeps unread
  intro after e kept own
  exact ⟨permits_steady (calm e own), fun r => kept.keep (calm e own) r⟩

theorem looks_steady (e : Effect) (own : looks e = true) : steady e = true := by
  cases e <;> first | rfl | cases own

theorem pushes_steady (e : Effect) (own : pushes e = true) : steady e = true := by
  cases e <;> first | rfl | cases own

theorem Stage.skip (stage : Stage g state was done h) {m : TaskMessage}
    (quiet : m = .selectWeapon ∨ due state was m = false) : Stage g state was (done ++ [m]) h where
  addressed := stage.addressed
  firing := stage.firing
  input := stage.input
  sent := by
    rw [List.filter_append]
    exact stage.sent.trans (List.sublist_append_left _ _)
  all there m' member other on := by
    rcases List.mem_append.mp member with old | new
    · exact stage.all there m' old other on
    · rw [List.mem_singleton] at new
      subst new
      rcases quiet with same | off
      · exact absurd same other
      · rw [off] at on
        cases on

theorem Stage.send (stage : Stage g state was done h) {m : TaskMessage} (on : due state was m = true)
    (payload : Int) : Stage g state was (done ++ [m]) (⟨.dispatch m payload, ()⟩ :: h) where
  addressed := stage.addressed.kept (e := .dispatch m payload) (fun same => by cases same) ()
  firing := stage.firing
  input := stage.input
  sent := by
    change (dispatched h ++ [m]).Sublist _
    rw [List.filter_append, List.filter_cons_of_pos on]
    exact stage.sent.append (List.Sublist.refl _)
  all there m' member other due' := by
    change m' ∈ dispatched h ++ [m]
    rcases List.mem_append.mp member with old | new
    · exact List.mem_append_left _ (stage.all there m' old other due')
    · exact List.mem_append_right _ new

theorem sendInput_stage {m : TaskMessage} (stage : Stage g state was done h) (on : due state was m = true)
    (order : inputOrder = done ++ m :: rest) (payload : Int) :
    Meets orderPermits (fun _ => Stage g state was (done ++ [m])) (Dll.sendInput g m payload) h := by
  simp only [Dll.sendInput, meets_bind, call, meets_call]
  refine ⟨trivial, fun memory => ?_⟩
  have read := stage.keep (e := .readMemory) rfl memory
  split
  · rename_i absent
    refine ⟨read.addressed, read.firing, read.input, ?_, ?_⟩
    · rw [List.filter_append]
      exact read.sent.trans (List.sublist_append_left _ _)
    · intro there
      rw [turnGameThere, Bool.and_eq_true, Bool.and_eq_true, bne_iff_ne, stage.addressed.dd] at there
      rw [Dll.getAddrTurnGame, if_neg there.1.1] at absent
      rw [absent] at there
      cases there.1.2
  · split
    · exact ⟨⟨state, was, done, rest, read.input, on, order, read.sent⟩, fun _ => read.send on payload⟩
    · simp only [meets_bind, meets_call]
      refine ⟨trivial, fun team => ?_⟩
      have loaded := read.keep (e := .loadTurn) rfl team
      exact ⟨⟨state, was, done, rest, loaded.input, on, order, loaded.sent⟩, fun _ => loaded.send on _⟩

theorem assertHeld_stage {held : Bool} {m : TaskMessage} (stage : Stage g state was done h)
    (same : due state was m = held) (order : inputOrder = done ++ m :: rest) :
    Meets orderPermits (fun _ => Stage g state was (done ++ [m])) (Dll.assertHeld g held m) h := by
  unfold Dll.assertHeld
  split
  · rename_i on
    exact sendInput_stage stage (same.trans on) order (-1)
  · rename_i off
    exact stage.skip (.inr (same.trans (Bool.not_eq_true _ ▸ off)))

theorem findActiveTurnWorm_stage (stage : Stage g state was done h) :
    Meets orderPermits (fun _ => Stage g state was done) (Dll.findActiveTurnWorm g) h := by
  apply ((findActiveTurnWorm_looks g).keeps stage _).mono fun _ _ both => both.2
  intro after e kept own
  exact ⟨permits_steady (looks_steady e own), fun r => kept.keep (looks_steady e own) r⟩

theorem selectPending_stage (stage : Stage g state was done h)
    (order : inputOrder = done ++ .selectWeapon :: rest) :
    Meets orderPermits (fun _ => Stage g state was (done ++ [.selectWeapon]))
      (Dll.selectPending g state.selectWeapon) h := by
  have skipped : ∀ {h}, Stage g state was done h → Stage g state was (done ++ [.selectWeapon]) h :=
    fun stage => stage.skip (.inl rfl)
  unfold Dll.selectPending Dll.applyWeapon
  split
  · rename_i asked
    split
    · exact skipped stage
    · split
      · exact skipped stage
      · simp only [meets_bind, call, meets_call]
        refine ⟨trivial, fun memory => ?_⟩
        have read := stage.keep (e := .readMemory) rfl memory
        split
        · exact skipped read
        · rw [meets_bind]
          apply (findActiveTurnWorm_stage read).mono
          intro worm after found
          cases worm with
          | none => exact skipped found
          | some worm =>
            rw [meets_bind]
            have on : due state was .selectWeapon = true := decide_eq_true asked
            exact ⟨trivial, fun _ => sendInput_stage (found.keep (e := .writeWeapon _ _ _) rfl ()) on order _⟩
  · exact skipped stage

theorem fireEdge_stage (order : inputOrder = done ++ [.fireWeapon, .releaseWeapon])
    (stage : Stage g state g.wasFiring done h) :
    Meets orderPermits (fun _ => Stage g state g.wasFiring inputOrder) (Dll.fireEdge g state.firing) h := by
  have last : inputOrder = (done ++ [.fireWeapon]) ++ [.releaseWeapon] := by
    rw [order, List.append_assoc]
    rfl
  unfold Dll.fireEdge
  split
  · rename_i press
    have on : due state g.wasFiring .fireWeapon = true := by simpa [due] using press
    have off : due state g.wasFiring .releaseWeapon = false := by simp [due, press.1]
    apply (sendInput_stage stage on order (-1)).mono
    intro _ after fired
    rw [last]
    exact fired.skip (.inr off)
  · rename_i noPress
    have off : due state g.wasFiring .fireWeapon = false := by simpa [due] using noPress
    have passed := stage.skip (.inr off)
    split
    · rename_i release
      have on : due state g.wasFiring .releaseWeapon = true := by simpa [due] using release
      rw [last]
      exact sendInput_stage passed on last (-1)
    · rename_i noRelease
      have none_ : due state g.wasFiring .releaseWeapon = false := by simpa [due] using noRelease
      rw [last]
      exact passed.skip (.inr none_)

theorem Stage.post (stage : Stage g state was inputOrder h) :
    orderPost (.game { g with wasFiring := state.firing }) h := by
  refine ⟨⟨stage.addressed.global, stage.addressed.dd⟩, stage.firing, ?_⟩
  intro there state' was' input
  cases stage.input.symm.trans input
  exact stage.all there

theorem applyHeldInput_stage (unread : Unread g h) :
    Meets orderPermits (fun g' => orderPost (.game g')) (Dll.applyHeldInput g) h := by
  unfold Dll.applyHeldInput
  simp only [meets_bind, call, meets_call]
  refine ⟨⟨unread.nothing, unread.frame⟩, fun state => ?_⟩
  have begun : Stage g state g.wasFiring [] (⟨.readControl, state⟩ :: h) :=
    { addressed := unread.addressed.kept (e := .readControl) (fun same => by cases same) state
      firing := rfl
      input := by rw [currentInput, unread.firing]
      sent := by
        change (dispatched h).Sublist []
        rw [unread.nothing]
      all := fun _ m member => absurd member List.not_mem_nil }
  apply (assertHeld_stage (m := .jump) begun rfl rfl).mono
  intro _ _ stage
  apply (selectPending_stage stage rfl).mono
  intro _ _ stage
  apply (assertHeld_stage (m := .moveLeft) stage rfl rfl).mono
  intro _ _ stage
  apply (assertHeld_stage (m := .moveRight) stage rfl rfl).mono
  intro _ _ stage
  apply (assertHeld_stage (m := .moveUp) stage rfl rfl).mono
  intro _ _ stage
  apply (assertHeld_stage (m := .moveDown) stage rfl rfl).mono
  intro _ _ stage
  apply (fireEdge_stage rfl stage).mono
  exact fun _ _ stage => stage.post

theorem Unread.post (unread : Unread g h) : orderPost (.game g) h := by
  refine ⟨⟨unread.addressed.global, unread.addressed.dd⟩, unread.firing, ?_⟩
  intro _ state was input
  cases unread.input.symm.trans input

theorem onFrame_stage (codec : Codec) (unread : Unread g h) :
    Meets orderPermits (fun g' => orderPost (.game g')) (Dll.onFrame codec g) h := by
  simp only [Dll.onFrame, meets_bind, call]
  apply ((buildSnapshot_looks g).unread looks_steady unread).mono
  rintro snap read ⟨_, unread⟩
  refine ⟨trivial, fun _ => ?_⟩
  have published := unread.keep (e := .publish snap) rfl ()
  apply ((pushState_pushing g codec snap (h := ⟨.publish snap, ()⟩ :: read)).unread pushes_steady
    published).mono
  rintro g' pushed ⟨⟨tick, rfl⟩, unread⟩
  have same : Unread { g with lastPushTick := tick } pushed :=
    ⟨unread.frame, ⟨unread.addressed.global, unread.addressed.dd, unread.addressed.going⟩, unread.firing,
      unread.input, unread.nothing⟩
  split
  · exact applyHeldInput_stage same
  · exact same.post

theorem gameThread_stage (codec : Codec) (post : orderPost (.game g) h) :
    Meets orderPermits orderPost (Dll.gameThread codec g) h := by
  obtain ⟨⟨global, dd⟩, firing, -⟩ := post
  simp only [Dll.gameThread, meets_bind, call, meets_call]
  refine ⟨trivial, fun next => ?_⟩
  have nothing : ∀ {h : History Answer}, currentInput h = none → FrameSent h := by
    intro h none_ _ state was input
    cases none_.symm.trans input
  cases next with
  | initializeW2App ddGame => exact ⟨⟨global, rfl⟩, firing, nothing rfl⟩
  | constructGameGlobal =>
    simp only [Dll.hookConstructGameGlobal, meets_bind, call, meets_call]
    exact ⟨trivial, fun _ => ⟨⟨rfl, dd⟩, firing, nothing rfl⟩⟩
  | destroyGameGlobal =>
    simp only [Dll.hookDestroyGameGlobal, Dll.onGameTornDown, meets_bind, call]
    exact ⟨trivial, fun _ => ⟨trivial, fun _ => ⟨trivial, fun _ => ⟨⟨rfl, rfl⟩, rfl, nothing rfl⟩⟩⟩⟩
  | turnHandleMessage mtype data =>
    rw [meets_bind]
    apply hookTurnHandleMessage_meets mtype data
    · exact ⟨⟨global, dd⟩, firing, nothing rfl⟩
    · exact fun team => ⟨trivial, ⟨global, dd⟩, firing, nothing rfl⟩
    · intro frame
      exact onFrame_stage codec (h := ⟨.nextCall, .turnHandleMessage mtype data⟩ :: h)
        ⟨⟨data, by rw [← frame]; rfl⟩, ⟨global, dd, rfl⟩, firing, rfl, rfl⟩

end Game

def orderContractPermits (codec : Codec) : Task → History Answer → Effect → Prop
  | .game => orderPermits
  | .ipc => ipcPermits codec
  | .reader => readerPermits

def orderContractPost : Task → Flow → History Answer → Prop
  | .game => orderPost
  | .ipc => ipcPost
  | .reader => readerPost

theorem orderPost_start : orderPost (.game {}) [] :=
  ⟨⟨rfl, rfl⟩, rfl, fun _ _ _ input => by cases input⟩

def orderContract (codec : Codec) : (system codec).Contract where
  permits := orderContractPermits codec
  post := orderContractPost
  start i := by
    cases i with
    | game => exact gameThread_stage codec orderPost_start
    | ipc => exact input_start_meets codec .ipc
    | reader => exact input_start_meets codec .reader
  again i flow h done := by
    cases i with
    | game =>
      cases flow with
      | game g => exact gameThread_stage codec done
      | _ => exact done.elim
    | ipc => exact input_again_meets codec .ipc flow h done
    | reader => exact input_again_meets codec .reader flow h done

structure Ordered (h : History Answer) : Prop where
  frame : currentInput h ≠ none → FrameCalled h
  idle : currentInput h = none → dispatched h = []
  order : ∀ state was, currentInput h = some (state, was) →
    (dispatched h).Sublist (inputOrder.filter (due state was))

theorem ordered {h : History Answer} (permitted : Permitted orderPermits h) : Ordered h := by
  induction permitted with
  | nil => exact ⟨fun some_ => absurd rfl some_, fun _ => rfl, fun _ _ input => by cases input⟩
  | @cons s h allowed older ih =>
    rcases s with ⟨e, r⟩
    cases e with
    | nextCall => exact ⟨fun some_ => absurd rfl some_, fun _ => rfl, fun _ _ input => by cases input⟩
    | readControl =>
      obtain ⟨nothing, frame⟩ := allowed
      refine ⟨fun _ => frame, fun none_ => (by cases none_), fun state was _ => ?_⟩
      change (dispatched h).Sublist _
      rw [nothing]
      exact List.nil_sublist _
    | dispatch m payload =>
      obtain ⟨state, was, done, rest, input, on, order, sent⟩ := allowed
      refine ⟨ih.frame, ?_, ?_⟩
      · intro none_
        cases input.symm.trans none_
      · intro state' was' input'
        cases input.symm.trans input'
        change (dispatched h ++ [m]).Sublist _
        rw [order, List.filter_append, List.filter_cons_of_pos on]
        exact sent.append (List.Sublist.cons_cons _ (List.nil_sublist _))
    | _ => exact ⟨ih.frame, ih.idle, ih.order⟩

theorem run_ordered (codec : Codec) (events : List (Task × Choice)) :
    Ordered (historyOf .game (run codec events).log) := by
  apply ordered
  exact System.run_permitted (S := system codec) (gameThread_stage codec orderPost_start)
    ((orderContract codec).again .game) {} events

theorem run_frameSent {codec : Codec} {events : List (Task × Choice)}
    (back : returned ((run codec events).residual .game) = true) :
    FrameSent (historyOf .game (run codec events).log) := by
  have flows : ∀ flow h, orderPost flow h → ∃ g, flow = .game g := by
    intro flow h post
    cases flow with
    | game g => exact ⟨g, rfl⟩
    | _ => exact post.elim
  obtain ⟨g, -, -, -, sent⟩ := run_returned (fun _ _ => gameThread_stage codec) flows orderPost_start back
  exact sent

theorem eq_of_sublist_of_subset {α : Type} {l l' : List α} (sub : l.Sublist l') (nodup : l'.Nodup)
    (all : l' ⊆ l) : l = l' :=
  sub.eq_of_length_le (nodup.subperm all).length_le

def walks : List (Task × Choice) :=
  initialises ++ constructs ++ joins ++ receives pressLeft ++ frames ++ dispatches

/-- Only a frame reads the input. In each frame the messages that its input asks for are dispatched in one
    order, each at most once; and a frame that always finds the turn game leaves none of them out, but for
    the choice of a weapon. -/
theorem frame_dispatches (codec : Codec) (events : List (Task × Choice)) :
    (currentInput (historyOf .game (run codec events).log) ≠ none →
      FrameCalled (historyOf .game (run codec events).log)) ∧
    (currentInput (historyOf .game (run codec events).log) = none →
      dispatched (historyOf .game (run codec events).log) = []) ∧
    ∀ state was, currentInput (historyOf .game (run codec events).log) = some (state, was) →
      (dispatched (historyOf .game (run codec events).log)).Sublist (inputOrder.filter (due state was)) ∧
      (returned ((run codec events).residual .game) = true →
        turnGameThere (historyOf .game (run codec events).log) = true →
        (dispatched (historyOf .game (run codec events).log)).filter (· ≠ .selectWeapon) =
          inputOrder.filter fun m => m ≠ .selectWeapon && due state was m) := by
  have ordered := run_ordered codec events
  refine ⟨ordered.frame, ordered.idle, fun state was input => ?_⟩
  have sub := ordered.order state was input
  refine ⟨sub, fun back there => ?_⟩
  rw [← List.filter_filter]
  apply eq_of_sublist_of_subset (sub.filter _)
  · exact (List.Nodup.filter _ (by decide)).filter _
  · intro m member
    rw [List.mem_filter, List.mem_filter] at member
    obtain ⟨⟨known, on⟩, other⟩ := member
    have sent := run_frameSent back there state was input m known (of_decide_eq_true other) on
    exact List.mem_filter.mpr ⟨sent, other⟩

theorem frame_dispatches_walks :
    (dispatched (historyOf .game (run sampleCodec walks).log)).Sublist
      (inputOrder.filter (due { moveLeft := true } false)) ∧
    (dispatched (historyOf .game (run sampleCodec walks).log)).filter (· ≠ .selectWeapon) =
      inputOrder.filter fun m => m ≠ .selectWeapon && due { moveLeft := true } false m := by
  obtain ⟨sub, all⟩ := (frame_dispatches sampleCodec walks).2.2 { moveLeft := true } false (by decide +kernel)
  exact ⟨sub, all (by decide +kernel) (by decide +kernel)⟩

def isDispatch (m : TaskMessage) : Effect → Bool
  | .dispatch m' _ => m' == m
  | _ => false

def isPress (a : ControlAction) : Effect → Bool
  | .applyControl b phase _ => b == a && phase == .press
  | _ => false

def readAsks (a : ControlAction) : Step Answer → Bool
  | ⟨.readControl, state⟩ => ControlState.asks state a
  | _ => false

def countDispatches (m : TaskMessage) (log : Log) : Nat := log.countP fun x => isDispatch m x.effect

def countPresses (a : ControlAction) (log : Log) : Nat := log.countP fun x => isPress a x.effect

def awaits (m : TaskMessage) (h : History Answer) : Bool :=
  match currentInput h with
  | some (state, was) => due state was m && !(dispatched h).contains m
  | none => false

theorem awaits_of_due {m : TaskMessage} {h : History Answer} {state : ControlState} {was : Bool}
    {done rest : List TaskMessage} (input : currentInput h = some (state, was))
    (on : due state was m = true) (order : inputOrder = done ++ m :: rest)
    (sent : (dispatched h).Sublist (done.filter (due state was))) : awaits m h = true := by
  have nodup : (done ++ m :: rest).Nodup := by
    rw [← order]
    decide
  have fresh : m ∉ dispatched h := by
    intro member
    have before := List.mem_of_mem_filter (sent.subset member)
    exact (List.nodup_append.mp nodup).2.2 m before m List.mem_cons_self rfl
  simp [awaits, input, on, fresh]

theorem awaits_step {m : TaskMessage} {a : ControlAction}
    (asks : ∀ state was, due state was m = state.asks a) {s : Step Answer} {h : History Answer}
    (permitted : orderPermits h s.1) :
    (awaits m (s :: h)).toNat + (isDispatch m s.1).toNat ≤ (awaits m h).toNat + (readAsks a s).toNat := by
  rcases s with ⟨e, r⟩
  cases e with
  | readControl =>
    have nothing : dispatched h = [] := permitted.1
    have read : awaits m (⟨.readControl, r⟩ :: h) = readAsks a ⟨.readControl, r⟩ := by
      change (due r (wasFiring h) m && !(dispatched h).contains m) = _
      rw [nothing, asks]
      exact Bool.and_true _
    rw [read]
    change _ + 0 ≤ _
    omega
  | dispatch m' payload =>
    obtain ⟨state, was, done, rest, input, on, order, sent⟩ := permitted
    by_cases same : m' = m
    · subst same
      rw [awaits_of_due input on order sent]
      have spent : awaits m' (⟨.dispatch m' payload, r⟩ :: h) = false := by
        simp [awaits, currentInput, dispatched, input]
      rw [spent, isDispatch, beq_self_eq_true]
      exact Nat.le_add_right _ _
    · have kept : awaits m (⟨.dispatch m' payload, r⟩ :: h) = awaits m h := by
        simp [awaits, currentInput, dispatched, input, Ne.symm same]
      rw [kept, isDispatch, beq_false_of_ne same]
      exact Nat.le_add_right _ _
  | nextCall => exact Nat.zero_le _
  | _ => exact Nat.le_add_right _ _

theorem asks_step {a : ControlAction} (once : ∀ state : ControlState, state.consume.asks a = false)
    {s after : Shared} {e : Effect} {r : Answer e} (replies : s.Replies e r after) :
    (after.control.asks a).toNat + (readAsks a ⟨e, r⟩).toNat ≤ (s.control.asks a).toNat + (isPress a e).toNat := by
  have control := replies.control
  cases e with
  | readControl =>
    have read : r = s.control := replies.1
    change after.control = s.control.consume at control
    rw [control, once, read]
    change 0 + (s.control.asks a).toNat ≤ _
    omega
  | clearControl =>
    change after.control = {} at control
    rw [control, ControlState.asks_neutral]
    exact Nat.zero_le _
  | applyControl b phase value =>
    change after.control = s.control.apply b phase value at control
    change _ + 0 ≤ _
    rw [control, isPress]
    cases asked : (s.control.apply b phase value).asks a with
    | false => exact Nat.zero_le _
    | true =>
      rcases ControlState.asks_apply asked with before | ⟨rfl, rfl⟩
      · rw [before]
        exact Nat.le_add_right _ _
      · rw [beq_self_eq_true]
        exact Nat.le_add_left _ _
  | _ =>
    change after.control = s.control at control
    rw [control]
    exact Nat.le_add_right _ _

/-- What has been dispatched, is still to be dispatched or waits for the next frame has been pressed. -/
def Covered (m : TaskMessage) (a : ControlAction) (s : Shared) (log : Log) : Prop :=
  countDispatches m log + (awaits m (historyOf .game log)).toNat + (s.control.asks a).toNat ≤ countPresses a log

theorem countP_toNat {α : Type} (p : α → Bool) (x : α) (xs : List α) :
    (x :: xs).countP p = xs.countP p + (p x).toNat := by
  rw [List.countP_cons]
  cases p x <;> rfl

theorem covered {m : TaskMessage} {a : ControlAction} (asks : ∀ state was, due state was m = state.asks a)
    (once : ∀ state : ControlState, state.consume.asks a = false) (codec : Codec)
    (events : List (Task × Choice)) : Covered m a (run codec events).shared (run codec events).log := by
  refine (orderContract codec).run_log {} (P := Covered m a) ?_ ?_ events
  · change 0 + 0 + (ControlState.asks {} a).toNat ≤ 0
    rw [ControlState.asks_neutral]
    exact Nat.le_refl 0
  intro x log before answered permitted
  have control := asks_step once (answered_replies answered rfl)
  have step : (awaits m (historyOf .game (x :: log))).toNat + (isDispatch m x.effect).toNat ≤
      (awaits m (historyOf .game log)).toNat + (readAsks a x.step).toNat := by
    rcases x with ⟨thread, e, r, s, after⟩
    cases thread with
    | game => exact awaits_step asks (s := ⟨e, r⟩) permitted
    | ipc =>
      cases e with
      | dispatch => exact permitted.elim
      | _ => exact Nat.le_add_right _ _
    | reader =>
      cases e with
      | dispatch => exact permitted.elim
      | _ => exact Nat.le_add_right _ _
  unfold Covered countDispatches countPresses at before ⊢
  rw [countP_toNat, countP_toNat]
  change _ + (readAsks a x.step).toNat ≤ _ at control
  omega

/-- Over a whole run a worm jumps at most as often, and is given a weapon at most as often, as the
    backend has asked for it: no frame repeats a one-shot of an earlier one. -/
theorem oneShots_pressed (codec : Codec) (events : List (Task × Choice)) :
    countDispatches .jump (run codec events).log ≤ countPresses .jump (run codec events).log ∧
    countDispatches .selectWeapon (run codec events).log ≤
      countPresses .selectWeapon (run codec events).log := by
  constructor
  · have all := covered (m := .jump) (a := .jump) (fun _ _ => rfl) (fun _ => rfl) codec events
    unfold Covered at all
    omega
  · have all := covered (m := .selectWeapon) (a := .selectWeapon) (fun _ _ => rfl) (fun _ => rfl) codec events
    unfold Covered at all
    omega

end WebControl.Link
