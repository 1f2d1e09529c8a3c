import WkWebControl.Link.Frame

open Effects WebControl Program
open WebControl.Dll (ControlAction ControlPhase ControlState TaskMessage)

namespace WebControl.Link

def wasFiring : History Answer → Bool
  | [] => false
  | ⟨.readControl, state⟩ :: _ => ControlState.firing state
  | ⟨.clearControl, _⟩ :: _ => false
  | _ :: h => wasFiring h

/-- The state of the input the current call has read, and `g_wasFiring` at that time. -/
def currentInput : History Answer → Option (ControlState × Bool)
  | [] => none
  | ⟨.readControl, state⟩ :: h => some (state, wasFiring h)
  | ⟨.nextCall, _⟩ :: _ => none
  | _ :: h => currentInput h

def turnSeen : History Answer → Option Int
  | [] => none
  | ⟨.loadTurn, team⟩ :: _ => some team
  | ⟨.nextCall, _⟩ :: _ => none
  | _ :: h => turnSeen h

/-- The input messages, and the action that is asked for when one is dispatched. -/
def requests : TaskMessage → Option ControlAction
  | .moveLeft => some .moveLeft
  | .moveRight => some .moveRight
  | .moveUp => some .aimUp
  | .moveDown => some .aimDown
  | .jump => some .jump
  | .selectWeapon => some .selectWeapon
  | .fireWeapon => some .fire
  | _ => none

/-- A message is due when the input asks for its action; a shot also has to be a change. -/
def Due (state : ControlState) (was : Bool) : TaskMessage → Prop
  | .releaseWeapon => state.firing = false ∧ was = true
  | .fireWeapon => state.firing = true ∧ was = false
  | m => ∃ a, requests m = some a ∧ state.asks a = true

theorem Due.asks {state : ControlState} {was : Bool} {m : TaskMessage} {a : ControlAction}
    (due : Due state was m) (request : requests m = some a) : state.asks a = true := by
  cases m with
  | fireWeapon => cases request; exact due.1
  | releaseWeapon => cases request
  | _ =>
    obtain ⟨b, same, asked⟩ := due
    cases request.symm.trans same
    exact asked

def gamePermits (h : History Answer) : Effect → Prop
  | .dispatch m _ => ∃ state was, currentInput h = some (state, was) ∧ Due state was m ∧
      (m = .selectWeapon → ∃ team, turnSeen h = some team ∧ 0 ≤ team)
  | .nextCall | .readMemory | .loadTurn | .storeTurn _ | .publish _ | .getTickCount | .lockClient
  | .dropClient | .unlockClient | .send _ _ | .readControl | .clearControl | .writeWeapon _ _ _
  | .closesocket _ => True
  | _ => False

def gamePost : Flow → History Answer → Prop
  | .game g, h => wasFiring h = g.wasFiring
  | _, _ => False

def InFrame (state : ControlState) (was : Bool) (h : History Answer) : Prop :=
  currentInput h = some (state, was) ∧ wasFiring h = state.firing

theorem dispatch_meets {state : ControlState} {was : Bool} {h : History Answer} (g : Statics)
    (m : TaskMessage) (payload : Int) (frame : InFrame state was h) (due : Due state was m)
    (turn : m = .selectWeapon → 0 ≤ payload ∧ ∃ team, turnSeen h = some team ∧ 0 ≤ team) :
    Meets gamePermits (fun _ => InFrame state was) (Dll.sendInput g m payload) h := by
  unfold Dll.sendInput
  simp only [meets_bind, call, meets_call]
  refine ⟨trivial, fun memory => ?_⟩
  split
  · exact frame
  · split
    · exact ⟨⟨state, was, frame.1, due, fun weapon => (turn weapon).2⟩, fun _ => frame⟩
    · rename_i none_
      simp only [meets_bind, meets_call]
      refine ⟨trivial, fun team => ⟨⟨state, was, frame.1, due, fun weapon => ?_⟩, fun _ => frame⟩⟩
      exact absurd (turn weapon).1 none_

theorem assertHeld_meets {state : ControlState} {was : Bool} {h : History Answer} (g : Statics)
    (held : Bool) (m : TaskMessage) (frame : InFrame state was h) (due : held = true → Due state was m)
    (other : m ≠ .selectWeapon) :
    Meets gamePermits (fun _ => InFrame state was) (Dll.assertHeld g held m) h := by
  unfold Dll.assertHeld
  split
  · rename_i on
    exact dispatch_meets g m (-1) frame (due on) fun weapon => absurd weapon other
  · exact frame

theorem fireEdge_meets {state : ControlState} {h : History Answer} (g : Statics)
    (frame : InFrame state g.wasFiring h) :
    Meets gamePermits (fun _ => InFrame state g.wasFiring) (Dll.fireEdge g state.firing) h := by
  unfold Dll.fireEdge
  split
  · rename_i press
    exact dispatch_meets g .fireWeapon (-1) frame ⟨press.1, by simpa using press.2⟩ (by simp)
  · split
    · rename_i release
      exact dispatch_meets g .releaseWeapon (-1) frame ⟨by simpa using release.1, release.2⟩ (by simp)
    · exact frame

theorem findActiveTurnWorm_meets {state : ControlState} {was : Bool} {h : History Answer} (g : Statics)
    (frame : InFrame state was h) :
    Meets gamePermits (fun worm after => InFrame state was after ∧
      (worm ≠ none → ∃ team, turnSeen after = some team ∧ 0 ≤ team)) (Dll.findActiveTurnWorm g) h := by
  simp only [Dll.findActiveTurnWorm, meets_bind, call, meets_call]
  refine ⟨trivial, fun team => ?_⟩
  split
  · exact ⟨frame, fun found => absurd rfl found⟩
  · rename_i onTurn
    simp only [meets_bind, meets_call]
    refine ⟨trivial, fun memory => ?_⟩
    split
    · exact ⟨frame, fun found => absurd rfl found⟩
    · exact ⟨frame, fun _ => ⟨team, rfl, Int.not_lt.mp onTurn⟩⟩

theorem applyWeapon_meets {state : ControlState} {was : Bool} {h : History Answer} (g : Statics)
    (frame : InFrame state was h) (asked : state.selectWeapon ≥ 0) :
    Meets gamePermits (fun _ => InFrame state was) (Dll.applyWeapon g state.selectWeapon) h := by
  unfold Dll.applyWeapon
  split
  · exact frame
  · split
    · exact frame
    · simp only [meets_bind, call, meets_call]
      refine ⟨trivial, fun memory => ?_⟩
      split
      · exact frame
      · rw [meets_bind]
        refine (findActiveTurnWorm_meets g (h := ⟨.readMemory, memory⟩ :: h) frame).mono ?_
        intro worm after found
        cases worm with
        | none => exact found.1
        | some worm =>
          rw [meets_bind]
          exact ⟨trivial, fun _ => dispatch_meets g .selectWeapon _ found.1
            ⟨.selectWeapon, rfl, decide_eq_true asked⟩ fun _ => ⟨asked, found.2 (by simp)⟩⟩

theorem selectPending_meets {state : ControlState} {was : Bool} {h : History Answer} (g : Statics)
    (frame : InFrame state was h) :
    Meets gamePermits (fun _ => InFrame state was) (Dll.selectPending g state.selectWeapon) h := by
  unfold Dll.selectPending
  split
  · rename_i asked
    exact applyWeapon_meets g frame asked
  · exact frame

theorem applyHeldInput_meets {h : History Answer} {g : Statics} (firing : wasFiring h = g.wasFiring) :
    Meets gamePermits (fun g' after => gamePost (.game g') after) (Dll.applyHeldInput g) h := by
  unfold Dll.applyHeldInput
  simp only [meets_bind, call, meets_call]
  refine ⟨trivial, fun state => ?_⟩
  have frame : InFrame state g.wasFiring (⟨.readControl, state⟩ :: h) := by
    refine ⟨?_, rfl⟩
    rw [currentInput, firing]
  refine (assertHeld_meets g _ .jump frame (fun on => ⟨.jump, rfl, on⟩) (by simp)).mono fun _ _ frame => ?_
  apply (selectPending_meets g frame).mono
  intro _ _ frame
  refine (assertHeld_meets g _ .moveLeft frame (fun on => ⟨.moveLeft, rfl, on⟩) (by simp)).mono fun _ _ frame => ?_
  refine (assertHeld_meets g _ .moveRight frame (fun on => ⟨.moveRight, rfl, on⟩) (by simp)).mono fun _ _ frame => ?_
  refine (assertHeld_meets g _ .moveUp frame (fun on => ⟨.aimUp, rfl, on⟩) (by simp)).mono fun _ _ frame => ?_
  refine (assertHeld_meets g _ .moveDown frame (fun on => ⟨.aimDown, rfl, on⟩) (by simp)).mono fun _ _ frame => ?_
  exact (fireEdge_meets g frame).mono fun _ _ frame => frame.2

theorem Performing.idle {α : Type} {p : Prog α} {Q : Effect → Bool} {post : α → Prop} {firing : Bool}
    {h : History Answer} (performing : Performing Q p h post)
    (quiet : ∀ e, Q e = true → looks e = true ∨ pushes e = true) (same : wasFiring h = firing) :
    Meets gamePermits (fun a after => post a ∧ wasFiring after = firing) p h := by
  refine performing.keeps same fun h e kept performed => ?_
  rcases quiet e performed with look | push
  · cases e <;> first | exact ⟨trivial, fun _ => kept⟩ | cases look
  · cases e <;> first | exact ⟨trivial, fun _ => kept⟩ | cases push

theorem onFrame_meets (codec : Codec) {g : Statics} {h : History Answer} (same : wasFiring h = g.wasFiring) :
    Meets gamePermits (fun g' after => gamePost (.game g') after) (Dll.onFrame codec g) h := by
  simp only [Dll.onFrame, meets_bind, call]
  apply ((buildSnapshot_looks g).idle (fun _ => .inl) same).mono
  rintro snap read ⟨_, same⟩
  refine ⟨trivial, fun _ => ?_⟩
  apply ((pushState_pushing g codec snap (h := ⟨.publish snap, ()⟩ :: read)).idle (fun _ => .inr) same).mono
  rintro _ _ ⟨⟨tick, rfl⟩, same⟩
  split
  · exact applyHeldInput_meets same
  · exact same

theorem gameThread_meets (codec : Codec) {g : Statics} {h : History Answer} (same : wasFiring h = g.wasFiring) :
    Meets gamePermits gamePost (Dll.gameThread codec g) h := by
  simp only [Dll.gameThread, meets_bind, call, meets_call]
  refine ⟨trivial, fun next => ?_⟩
  cases next with
  | initializeW2App ddGame => exact same
  | constructGameGlobal =>
    simp only [Dll.hookConstructGameGlobal, meets_bind, call, meets_call]
    exact ⟨trivial, fun _ => same⟩
  | destroyGameGlobal =>
    simp only [Dll.hookDestroyGameGlobal, Dll.onGameTornDown, meets_bind, call]
    exact ⟨trivial, fun _ => ⟨trivial, fun _ => ⟨trivial, fun _ => rfl⟩⟩⟩
  | turnHandleMessage mtype data =>
    rw [meets_bind]
    apply hookTurnHandleMessage_meets mtype data
    · exact same
    · exact fun team => ⟨trivial, same⟩
    · exact fun _ => onFrame_meets codec (h := ⟨.nextCall, .turnHandleMessage mtype data⟩ :: h) same

def serving : History Answer → Option Socket
  | [] => none
  | ⟨.setClient client, _⟩ :: _ => client
  | _ :: h => serving h

def streamed : History Answer → List UInt8
  | [] => []
  | ⟨.setClient _, _⟩ :: _ => []
  | ⟨.recv _, .data bytes⟩ :: h => streamed h ++ bytes
  | _ :: h => streamed h

def Received (codec : Codec) (h : History Answer) (action : ControlAction) (phase : ControlPhase)
    (value : Int) : Prop :=
  serving h ≠ none ∧ ∃ line j, line ∈ (Lines.split newline (streamed h)).1 ∧
    codec.parse line = some j ∧ Dll.readCommand j = .ok (some (action, phase, value))

def ipcPermits (codec : Codec) (h : History Answer) : Effect → Prop
  | .applyControl action phase value => Received codec h action phase value
  | .running | .accept | .setClient _ | .recv _ | .closesocket _ | .terminate => True
  | _ => False

def ipcPost : Flow → History Answer → Prop
  | .serving client buffer, h =>
    serving h = some client ∧ buffer = (Lines.split newline (streamed h)).2
  | .accepting, _ | .stopped, _ | .terminated, _ => True
  | _, _ => False

def SameClient (h after : History Answer) : Prop :=
  serving after = serving h ∧ streamed after = streamed h

theorem handleLines_meets (codec : Codec) (lines : List (List UInt8)) {h : History Answer}
    (client : serving h ≠ none) (received : ∀ line ∈ lines, line ∈ (Lines.split newline (streamed h)).1) :
    Meets (ipcPermits codec) (fun _ => SameClient h) (Dll.handleLines codec lines) h := by
  induction lines generalizing h with
  | nil => exact ⟨rfl, rfl⟩
  | cons line lines ih =>
    have rest : ∀ l ∈ lines, l ∈ (Lines.split newline (streamed h)).1 :=
      fun l member => received l (List.mem_cons_of_mem _ member)
    unfold Dll.handleLines
    split
    · exact ih client rest
    · rw [meets_bind]
      unfold Dll.handleCommand
      split
      · exact ih client rest
      · rename_i j parsed
        split
        · simp only [meets_bind, call]
          exact ⟨trivial, fun _ => ⟨rfl, rfl⟩⟩
        · exact ih client rest
        · rename_i action phase value command
          simp only [meets_bind, call]
          refine ⟨⟨client, line, j, received line List.mem_cons_self, parsed, command⟩, fun _ => ?_⟩
          exact ih (h := ⟨.applyControl action phase value, ()⟩ :: h) client rest

theorem leaveClient_meets (codec : Codec) (client : Socket) (h : History Answer) :
    Meets (ipcPermits codec) ipcPost (Dll.leaveClient client) h := by
  simp only [Dll.leaveClient, meets_bind, call]
  exact ⟨trivial, fun _ => ⟨trivial, fun _ => trivial⟩⟩

theorem serveClient_meets (codec : Codec) {client : Socket} {buffer : List UInt8} {h : History Answer}
    (post : ipcPost (.serving client buffer) h) :
    Meets (ipcPermits codec) ipcPost (Dll.serveClient codec client buffer) h := by
  obtain ⟨current, rest⟩ := post
  simp only [Dll.serveClient, meets_bind, call, meets_call]
  refine ⟨trivial, fun on => ?_⟩
  split
  · simp only [meets_bind, meets_call]
    refine ⟨trivial, fun chunk => ?_⟩
    cases chunk with
    | data bytes =>
      have whole : Lines.split newline (streamed (⟨.recv client, .data bytes⟩ :: ⟨.running, on⟩ :: h)) =
          _ := Lines.split_append (streamed h) bytes
      rw [← rest] at whole
      dsimp only
      rw [meets_bind]
      refine (handleLines_meets codec (Lines.split newline (buffer ++ bytes)).1
        (h := ⟨.recv client, .data bytes⟩ :: ⟨.running, on⟩ :: h) ?_ ?_).mono ?_
      · change serving h ≠ none
        simp [current]
      · intro line member
        rw [whole]
        exact List.mem_append_right _ member
      · intro going after same
        split
        · refine ⟨same.1.trans current, ?_⟩
          rw [same.2, whole]
        · trivial
    | closed => exact leaveClient_meets codec client _
    | wouldBlock => exact ⟨current, rest⟩
    | error => exact leaveClient_meets codec client _
  · exact leaveClient_meets codec client _

theorem serverLoop_meets (codec : Codec) (h : History Answer) :
    Meets (ipcPermits codec) ipcPost Dll.serverLoop h := by
  simp only [Dll.serverLoop, meets_bind, call, meets_call]
  refine ⟨trivial, fun on => ?_⟩
  split
  · simp only [meets_bind, meets_call]
    refine ⟨trivial, fun client => ?_⟩
    cases client with
    | none => trivial
    | some client => exact ⟨trivial, fun _ => ⟨rfl, rfl⟩⟩
  · trivial

def readerPermits (_ : History Answer) : Effect → Prop
  | .connect | .receive _ | .setSock _ | .setLatest _ => True
  | _ => False

def readerPost : Flow → History Answer → Prop
  | .connecting, _ | .consuming _ _, _ => True
  | _, _ => False

theorem readerLoop_meets (h : History Answer) :
    Meets readerPermits readerPost Backend.TcpIpcTransport.readerLoop h := by
  simp only [Backend.TcpIpcTransport.readerLoop, meets_bind, call, meets_call]
  refine ⟨trivial, fun sock => ?_⟩
  cases sock <;> exact ⟨trivial, fun _ => trivial⟩

theorem consume_meets (codec : Codec) (sock : Socket) (buf : List UInt8) (h : History Answer) :
    Meets readerPermits readerPost (Backend.TcpIpcTransport.consume codec sock buf) h := by
  simp only [Backend.TcpIpcTransport.consume, meets_bind, call, meets_call]
  refine ⟨trivial, fun chunk => ?_⟩
  have dropped : ∀ after, Meets readerPermits readerPost (do
      call (.setSock none)
      call (.setLatest none)
      return .connecting : Prog Flow) after := by
    intro after
    simp only [meets_bind, call]
    exact ⟨trivial, fun _ => ⟨trivial, fun _ => trivial⟩⟩
  cases chunk with
  | data data =>
    dsimp only
    split
    · simp only [meets_bind, Backend.TcpIpcTransport.onLine]
      split
      · trivial
      · split
        · trivial
        · exact ⟨trivial, fun _ => trivial⟩
    · trivial
  | _ => exact dropped _

def inputPermits (codec : Codec) : Task → History Answer → Effect → Prop
  | .game => gamePermits
  | .ipc => ipcPermits codec
  | .reader => readerPermits

def inputPost : Task → Flow → History Answer → Prop
  | .game => gamePost
  | .ipc => ipcPost
  | .reader => readerPost

theorem input_again_meets (codec : Codec) (i : Task) (flow : Flow) (h : History Answer)
    (done : inputPost i flow h) : (again codec flow).Meets (inputPermits codec i) (inputPost i) h := by
  cases i with
  | game =>
    cases flow with
    | game g => exact gameThread_meets codec done
    | _ => exact done.elim
  | ipc =>
    cases flow with
    | accepting => exact serverLoop_meets codec h
    | serving client buffer => exact serveClient_meets codec done
    | stopped => exact done
    | terminated => exact done
    | _ => exact done.elim
  | reader =>
    cases flow with
    | connecting => exact readerLoop_meets h
    | consuming sock buf => exact consume_meets codec sock buf h
    | _ => exact done.elim

theorem input_start_meets (codec : Codec) (i : Task) :
    (start codec i).Meets (inputPermits codec i) (inputPost i) [] := by
  cases i with
  | game => exact gameThread_meets codec rfl
  | ipc => exact serverLoop_meets codec []
  | reader => exact readerLoop_meets []

def inputContract (codec : Codec) : (system codec).Contract where
  permits := inputPermits codec
  post := inputPost
  start := input_start_meets codec
  again := input_again_meets codec

end WebControl.Link
