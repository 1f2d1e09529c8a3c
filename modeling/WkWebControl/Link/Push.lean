import WkWebControl.Link.Dispatch

open Effects WebControl Program
open WebControl.Dll (GameSnapshot)

namespace WebControl.Link

def constructing : History Answer → Bool
  | ⟨.nextCall, .constructGameGlobal⟩ :: _ => true
  | _ => false

def gameGlobal : History Answer → UInt32
  | [] => 0
  | ⟨.readMemory, m⟩ :: h => if constructing h then Dll.Memory.gameGlobal m else gameGlobal h
  | ⟨.nextCall, .destroyGameGlobal⟩ :: _ => 0
  | _ :: h => gameGlobal h

def holding : History Answer → Option Socket
  | [] => none
  | ⟨.lockClient, client⟩ :: _ => client
  | ⟨.unlockClient, _⟩ :: _ => none
  | _ :: h => holding h

/-- The snapshot that was published last, with `addrGameGlobal` at that time. -/
def published : History Answer → Option (GameSnapshot × UInt32)
  | [] => none
  | ⟨.publish snap, _⟩ :: h => some (snap, gameGlobal h)
  | _ :: h => published h

def sofar : History Answer → List UInt8
  | [] => []
  | ⟨.lockClient, _⟩ :: _ => []
  | ⟨.send _ data, .sent n _ _⟩ :: h => sofar h ++ data.take n
  | _ :: h => sofar h

def gaveUp : History Answer → Bool
  | [] => false
  | ⟨.lockClient, _⟩ :: _ => false
  | ⟨.closesocket _, _⟩ :: _ => true
  | _ :: h => gaveUp h

def line (codec : Codec) (h : History Answer) : List UInt8 :=
  match published h with
  | some p => Dll.stateLine codec p.1
  | none => []

/-- A snapshot shows a round exactly when there is a `GameGlobal`, and without a round no turn. -/
def Fits (snap : GameSnapshot) (global : UInt32) : Prop :=
  (snap.roundActive = true ↔ global ≠ 0) ∧ (snap.roundActive = false → snap.turnTeam = none)

def pushPermits (codec : Codec) (h : History Answer) : Effect → Prop
  | .publish snap => holding h = none ∧ Fits snap (gameGlobal h)
  | .lockClient => holding h = none
  | .send client data => holding h = some client ∧ data ≠ [] ∧ line codec h = sofar h ++ data
  | .closesocket client => holding h = some client
  | .unlockClient => holding h = none ∨ sofar h = [] ∨ sofar h = line codec h ∨ gaveUp h = true
  | .nextCall | .readMemory | .loadTurn | .storeTurn _ | .getTickCount | .dropClient | .readControl
  | .clearControl | .writeWeapon _ _ _ | .dispatch _ _ => True
  | _ => False

def pushPost : Flow → History Answer → Prop
  | .game g, h => holding h = none ∧ gameGlobal h = g.addrGameGlobal
  | _, _ => False

structure InCall (global : UInt32) (h : History Answer) : Prop where
  free : holding h = none
  global : gameGlobal h = global
  going : constructing h = false

theorem InCall.plays {global : UInt32} {h : History Answer} (call : InCall global h) {e : Effect}
    (play : plays e = true) (r : Answer e) : InCall global (⟨e, r⟩ :: h) := by
  cases e with
  | readMemory => exact ⟨call.free, by rw [gameGlobal, call.going]; exact call.global, rfl⟩
  | loadTurn | readControl | writeWeapon | dispatch => exact ⟨call.free, call.global, rfl⟩
  | _ => cases play

section Plays

variable {h : History Answer} (g : Statics)

abbrev Plays {α : Type} (p : Prog α) (h : History Answer) (post : α → Prop) : Prop :=
  Performing plays p h post

theorem buildSnapshot_plays :
    Plays (Dll.buildSnapshot g) h fun snap => Fits snap g.addrGameGlobal := by
  unfold Dll.buildSnapshot
  split
  · rename_i none_
    exact ⟨by simp [none_], fun _ => rfl⟩
  · rename_i some_
    simp only [meets_bind, call, meets_call]
    refine ⟨rfl, fun memory => ?_⟩
    split
    · exact ⟨by simp [some_], fun off => by cases off⟩
    · simp only [meets_bind, meets_call]
      exact ⟨rfl, fun _ => ⟨by simp [some_, Dll.turnSnapshot], fun off => by cases off⟩⟩

end Plays

theorem Performing.inCall {codec : Codec} {α : Type} {p : Prog α} {h : History Answer} {post : α → Prop}
    {global : UInt32} (plays : Plays p h post) (call : InCall global h) :
    Meets (pushPermits codec) (fun a after => post a ∧ InCall global after) p h := by
  refine plays.keeps call fun after e within play => ⟨?_, within.plays play⟩
  cases e <;> trivial

structure Pushing (codec : Codec) (global : UInt32) (client : Socket) (p : List UInt8)
    (h : History Answer) : Prop where
  holds : holding h = some client
  rest : line codec h = sofar h ++ p
  global : gameGlobal h = global
  going : constructing h = false

structure Pushed (codec : Codec) (global : UInt32) (h : History Answer) : Prop where
  ended : sofar h = [] ∨ sofar h = line codec h ∨ gaveUp h = true
  global : gameGlobal h = global
  going : constructing h = false

theorem giveUp_meets {codec : Codec} {global : UInt32} {client : Socket} {p : List UInt8}
    {h : History Answer} (pushing : Pushing codec global client p h) :
    Meets (pushPermits codec) (fun _ => Pushed codec global) (Dll.giveUp client) h := by
  simp only [Dll.giveUp, meets_bind, call]
  exact ⟨pushing.holds, fun _ => ⟨trivial, fun _ => ⟨.inr (.inr rfl), pushing.global, rfl⟩⟩⟩

/-- Each round sends something or uses up one of the spins, so the fuel lasts. -/
theorem sendLoop_meets {codec : Codec} {global : UInt32} {client : Socket} (whole : List UInt8)
    (fuel : Nat) {p : List UInt8} {spins : Nat} {h : History Answer} (enough : p.length + 200 < fuel + spins)
    (few : spins ≤ 200) (same : line codec h = whole) (pushing : Pushing codec global client p h) :
    Meets (pushPermits codec) (fun _ => Pushed codec global)
      (Dll.sendLoop client whole fuel p spins) h := by
  induction fuel generalizing p spins h with
  | zero => omega
  | succ fuel ih =>
    cases p with
    | nil =>
      exact ⟨.inr (.inl (by rw [pushing.rest, List.append_nil])), pushing.global, pushing.going⟩
    | cons b p =>
      simp only [Dll.sendLoop, meets_bind, call, meets_call]
      refine ⟨⟨pushing.holds, by simp, pushing.rest⟩, fun sent => ?_⟩
      cases sent with
      | sent n some_ within =>
        refine ih ?_ few same ⟨pushing.holds, ?_, pushing.global, rfl⟩
        · rw [List.length_drop]
          omega
        · change line codec h = (sofar h ++ (b :: p).take n) ++ (b :: p).drop n
          rw [List.append_assoc, List.take_append_drop]
          exact pushing.rest
      | wouldBlock =>
        dsimp only
        split
        · rename_i first
          refine ⟨.inl ?_, pushing.global, rfl⟩
          have lengths := congrArg List.length (same.symm.trans pushing.rest)
          rw [List.length_append, first] at lengths
          exact List.length_eq_zero_iff.mp (by change (sofar h).length = 0; omega)
        · split
          · exact giveUp_meets ⟨pushing.holds, pushing.rest, pushing.global, rfl⟩
          · exact ih (by omega) (by omega) same ⟨pushing.holds, pushing.rest, pushing.global, rfl⟩
      | error => exact giveUp_meets ⟨pushing.holds, pushing.rest, pushing.global, rfl⟩

theorem pushState_meets {codec : Codec} {g : Statics} {snap : GameSnapshot} {h : History Answer}
    (within : InCall g.addrGameGlobal h) (newest : line codec h = Dll.stateLine codec snap) :
    Meets (pushPermits codec)
      (fun g' after => g'.addrGameGlobal = g.addrGameGlobal ∧ InCall g.addrGameGlobal after)
      (Dll.pushState codec g snap) h := by
  simp only [Dll.pushState, meets_bind, call, meets_call]
  refine ⟨trivial, fun now => ?_⟩
  split
  · exact ⟨rfl, within.free, within.global, rfl⟩
  · simp only [meets_bind, meets_call]
    refine ⟨within.free, fun client => ?_⟩
    cases client with
    | none => exact ⟨.inl rfl, fun _ => ⟨rfl, rfl, within.global, rfl⟩⟩
    | some client =>
      simp only [meets_bind]
      refine (sendLoop_meets (h := ⟨.lockClient, some client⟩ :: ⟨.getTickCount, now⟩ :: h)
        (Dll.stateLine codec snap) _ (Nat.lt_succ_self _) (Nat.zero_le _) newest
        ⟨rfl, newest, within.global, rfl⟩).mono ?_
      exact fun _ after pushed => ⟨.inr pushed.ended, fun _ => ⟨rfl, rfl, pushed.global, rfl⟩⟩

theorem onFrame_pushes {codec : Codec} {g : Statics} {h : History Answer}
    (within : InCall g.addrGameGlobal h) :
    Meets (pushPermits codec)
      (fun g' after => g'.addrGameGlobal = g.addrGameGlobal ∧ InCall g.addrGameGlobal after)
      (Dll.onFrame codec g) h := by
  simp only [Dll.onFrame, meets_bind, call]
  apply ((buildSnapshot_plays g).inCall within).mono
  rintro snap read ⟨fits, within⟩
  refine ⟨⟨within.free, by rw [within.global]; exact fits⟩, fun _ => ?_⟩
  refine (pushState_meets (h := ⟨.publish snap, ()⟩ :: read) ⟨within.free, within.global, rfl⟩ rfl).mono ?_
  rintro g' after ⟨same, within⟩
  split
  · apply ((applyHeldInput_plays g').inCall within).mono
    rintro _ final ⟨⟨_, rfl⟩, within⟩
    exact ⟨same, within⟩
  · exact ⟨same, within⟩

theorem gameThread_pushes {codec : Codec} {g : Statics} {h : History Answer}
    (post : pushPost (.game g) h) : Meets (pushPermits codec) pushPost (Dll.gameThread codec g) h := by
  obtain ⟨free, global⟩ := post
  simp only [Dll.gameThread, meets_bind, call, meets_call]
  refine ⟨trivial, fun next => ?_⟩
  cases next with
  | initializeW2App ddGame => exact ⟨free, global⟩
  | constructGameGlobal =>
    simp only [Dll.hookConstructGameGlobal, meets_bind, call, meets_call]
    exact ⟨trivial, fun _ => ⟨free, rfl⟩⟩
  | destroyGameGlobal =>
    simp only [Dll.hookDestroyGameGlobal, Dll.onGameTornDown, meets_bind, call]
    exact ⟨trivial, fun _ => ⟨trivial, fun _ => ⟨⟨free, by simp [gameGlobal], fun _ => rfl⟩, fun _ => ⟨free, rfl⟩⟩⟩⟩
  | turnHandleMessage mtype data =>
    rw [meets_bind]
    apply hookTurnHandleMessage_meets mtype data
    · exact ⟨free, global⟩
    · exact fun team => ⟨trivial, free, global⟩
    · intro frame
      refine (onFrame_pushes (h := ⟨.nextCall, .turnHandleMessage mtype data⟩ :: h) ⟨free, global, rfl⟩).mono ?_
      rintro g' after ⟨same, within⟩
      exact ⟨within.free, within.global.trans same.symm⟩

end WebControl.Link
