import WkWebControl.Link.System

open Effects WebControl Program

namespace WebControl.Link

def looks : Effect → Bool
  | .readMemory | .loadTurn => true
  | _ => false

def pushes : Effect → Bool
  | .getTickCount | .lockClient | .dropClient | .unlockClient | .send _ _ | .closesocket _ => true
  | _ => false

def dispatching (m : Dll.TaskMessage) : Effect → Bool
  | .dispatch m' _ => m' == m
  | e => looks e

def selecting : Effect → Bool
  | .writeWeapon _ _ _ => true
  | e => dispatching .selectWeapon e

def plays : Effect → Bool
  | .readMemory | .loadTurn | .readControl | .writeWeapon _ _ _ | .dispatch _ _ => true
  | _ => false

abbrev Performing {α : Type} (Q : Effect → Bool) (p : Prog α) (h : History Answer) (post : α → Prop) : Prop :=
  Meets (fun _ e => Q e = true) (fun a _ => post a) p h

section Parts

variable {h : History Answer} (g : Statics)

theorem Performing.widen {α : Type} {Q Q' : Effect → Bool} {p : Prog α} {post : α → Prop}
    (performing : Performing Q p h post) (wider : ∀ e, Q e = true → Q' e = true) : Performing Q' p h post := by
  have step : ∀ (h : History Answer) (e : Effect), True → Q e = true →
      Q' e = true ∧ ∀ _ : Answer e, True := fun _ e _ own => ⟨wider e own, fun _ => trivial⟩
  exact (performing.keeps trivial step).mono fun _ _ both => both.1

theorem buildSnapshot_looks :
    Performing looks (Dll.buildSnapshot g) h fun _ => True := by
  unfold Dll.buildSnapshot
  split
  · trivial
  · simp only [Performing, meets_bind, call, meets_call]
    refine ⟨rfl, fun memory => ?_⟩
    split
    · trivial
    · simp only [meets_bind, meets_call]
      exact ⟨rfl, fun _ => trivial⟩

theorem findActiveTurnWorm_looks : Performing looks (Dll.findActiveTurnWorm g) h fun _ => True := by
  simp only [Performing, Dll.findActiveTurnWorm, meets_bind, call, meets_call]
  refine ⟨rfl, fun team => ?_⟩
  split
  · trivial
  · simp only [meets_bind, meets_call]
    refine ⟨rfl, fun memory => ?_⟩
    split <;> trivial

theorem sendLoop_pushing (client : Socket) (line : List UInt8) (fuel : Nat) (p : List UInt8) (spins : Nat) :
    Performing pushes (Dll.sendLoop client line fuel p spins) h fun _ => True := by
  induction fuel generalizing p spins h with
  | zero => cases p <;> trivial
  | succ fuel ih =>
    cases p with
    | nil => trivial
    | cons b p =>
      have gives : ∀ h, Performing pushes (Dll.giveUp client) h fun _ => True := by
        intro h
        simp only [Performing, Dll.giveUp, meets_bind, call]
        exact ⟨rfl, fun _ => ⟨rfl, fun _ => trivial⟩⟩
      simp only [Performing, Dll.sendLoop, meets_bind, call, meets_call]
      refine ⟨rfl, fun sent => ?_⟩
      cases sent with
      | sent n some_ within => exact ih _ _
      | wouldBlock =>
        dsimp only
        split
        · trivial
        · split
          · exact gives _
          · exact ih _ _
      | error => exact gives _

theorem pushState_pushing (codec : Codec) (snap : Dll.GameSnapshot) :
    Performing pushes (Dll.pushState codec g snap) h fun g' => ∃ tick, g' = { g with lastPushTick := tick } := by
  simp only [Performing, Dll.pushState, meets_bind, call, meets_call]
  refine ⟨rfl, fun now => ?_⟩
  split
  · exact ⟨g.lastPushTick, rfl⟩
  · simp only [meets_bind, meets_call]
    refine ⟨rfl, fun client => ?_⟩
    cases client with
    | none => exact ⟨rfl, fun _ => ⟨g.lastPushTick, rfl⟩⟩
    | some client =>
      simp only [meets_bind]
      apply (sendLoop_pushing client _ _ _ _).mono
      exact fun _ _ _ => ⟨rfl, fun _ => ⟨now, rfl⟩⟩

theorem sendInput_dispatching (m : Dll.TaskMessage) (payload : Int) :
    Performing (dispatching m) (Dll.sendInput g m payload) h fun _ => True := by
  have own : ∀ payload, dispatching m (.dispatch m payload) = true := fun _ => beq_self_eq_true m
  simp only [Performing, Dll.sendInput, meets_bind, call, meets_call]
  refine ⟨rfl, fun memory => ?_⟩
  split
  · trivial
  · split
    · exact ⟨own _, fun _ => trivial⟩
    · simp only [meets_bind, meets_call]
      exact ⟨rfl, fun _ => ⟨own _, fun _ => trivial⟩⟩

theorem assertHeld_dispatching (held : Bool) (m : Dll.TaskMessage) :
    Performing (dispatching m) (Dll.assertHeld g held m) h fun _ => True := by
  unfold Dll.assertHeld
  split
  · exact sendInput_dispatching g m _
  · trivial

theorem applyWeapon_selecting (weaponId : Int) :
    Performing selecting (Dll.applyWeapon g weaponId) h fun _ => True := by
  unfold Dll.applyWeapon
  split
  · trivial
  · split
    · trivial
    · simp only [Performing, meets_bind, call, meets_call]
      refine ⟨rfl, fun memory => ?_⟩
      split
      · trivial
      · rw [meets_bind]
        apply ((findActiveTurnWorm_looks g).widen ?_).mono
        · intro worm _ _
          cases worm with
          | none => trivial
          | some worm =>
            rw [meets_bind]
            refine ⟨rfl, fun _ => (sendInput_dispatching g .selectWeapon weaponId).widen ?_⟩
            intro e own
            cases e <;> first | exact own | rfl
        · intro e own
          cases e <;> first | exact own | cases own

theorem selectPending_selecting (weaponId : Int) :
    Performing selecting (Dll.selectPending g weaponId) h fun _ => True := by
  unfold Dll.selectPending
  split
  · exact applyWeapon_selecting g weaponId
  · trivial

theorem dispatching_plays {m : Dll.TaskMessage} (e : Effect) (own : dispatching m e = true) : plays e = true := by
  cases e <;> first | rfl | cases own

theorem selecting_plays (e : Effect) (own : selecting e = true) : plays e = true := by
  cases e <;> first | rfl | cases own

theorem fireEdge_plays (firing : Bool) : Performing plays (Dll.fireEdge g firing) h fun _ => True := by
  unfold Dll.fireEdge
  split
  · exact (sendInput_dispatching g _ _).widen dispatching_plays
  · split
    · exact (sendInput_dispatching g _ _).widen dispatching_plays
    · trivial

theorem applyHeldInput_plays :
    Performing plays (Dll.applyHeldInput g) h fun g' => ∃ firing, g' = { g with wasFiring := firing } := by
  have asserts : ∀ held m h, Performing plays (Dll.assertHeld g held m) h fun _ => True :=
    fun held m _ => (assertHeld_dispatching g held m).widen dispatching_plays
  unfold Dll.applyHeldInput
  simp only [Performing, meets_bind, call, meets_call]
  refine ⟨rfl, fun state => ?_⟩
  apply (asserts _ _ _).mono
  intro _ _ _
  apply ((selectPending_selecting g _).widen selecting_plays).mono
  intro _ _ _
  apply (asserts _ _ _).mono
  intro _ _ _
  apply (asserts _ _ _).mono
  intro _ _ _
  apply (asserts _ _ _).mono
  intro _ _ _
  apply (asserts _ _ _).mono
  intro _ _ _
  exact (fireEdge_plays g _).mono fun _ _ _ => ⟨state.firing, rfl⟩

end Parts

theorem hookTurnHandleMessage_meets {permits : History Answer → Effect → Prop}
    {post : Statics → History Answer → Prop} {codec : Codec} {g : Statics} {h : History Answer}
    (mtype : Dll.TaskMessage) (data : Option Int) (passes : post g h)
    (stores : ∀ team, permits h (.storeTurn team) ∧ post g (⟨.storeTurn team, ()⟩ :: h))
    (frame : mtype = .frameFinish → Meets permits post (Dll.onFrame codec g) h) :
    Meets permits post (Dll.hookTurnHandleMessage codec g mtype data) h := by
  have stored : ∀ team, Meets permits post (do call (.storeTurn team); return g : Prog Statics) h :=
    fun team => ⟨(stores team).1, fun _ => (stores team).2⟩
  unfold Dll.hookTurnHandleMessage
  split
  · cases data with
    | none => exact passes
    | some team => exact stored team
  · cases data with
    | none => exact passes
    | some team => exact stored team
  · exact stored (-1)
  · exact stored (-1)
  · exact frame rfl
  · exact passes

def within : Effect → Bool
  | .nextCall => false
  | _ => true

section Hooks

variable {h : History Answer} (codec : Codec) (g : Statics)

theorem onFrame_within : Performing within (Dll.onFrame codec g) h fun _ => True := by
  have looks_within : ∀ e, looks e = true → within e = true := by
    intro e own
    cases e <;> first | rfl | cases own
  have pushes_within : ∀ e, pushes e = true → within e = true := by
    intro e own
    cases e <;> first | rfl | cases own
  have plays_within : ∀ e, plays e = true → within e = true := by
    intro e own
    cases e <;> first | rfl | cases own
  simp only [Performing, Dll.onFrame, meets_bind, call]
  apply ((buildSnapshot_looks g).widen looks_within).mono
  intro snap _ _
  refine ⟨rfl, fun _ => ?_⟩
  apply ((pushState_pushing g codec snap).widen pushes_within).mono
  intro g' _ _
  split
  · exact ((applyHeldInput_plays g').widen plays_within).mono fun _ _ _ => trivial
  · trivial

theorem gameThread_within : (Dll.gameThread codec g).PerformsLater fun e => within e = true := by
  intro next
  cases next with
  | initializeW2App => trivial
  | constructGameGlobal => exact ⟨rfl, fun _ => trivial⟩
  | destroyGameGlobal => exact ⟨rfl, fun _ => ⟨rfl, fun _ => ⟨rfl, fun _ => trivial⟩⟩⟩
  | turnHandleMessage mtype data =>
    have hook : Performing within (Dll.hookTurnHandleMessage codec g mtype data) [] fun _ => True :=
      hookTurnHandleMessage_meets mtype data trivial (fun _ => ⟨rfl, trivial⟩) fun _ => onFrame_within codec g
    exact (hook.performs fun _ _ own => own).bind fun _ => trivial

end Hooks

/-- Between two calls the game thread is at its head, with statics that its contract speaks of. -/
theorem run_returned {codec : Codec} {events : List (Task × Choice)} {permits : History Answer → Effect → Prop}
    {post : Flow → History Answer → Prop}
    (thread : ∀ g h, post (.game g) h → Meets permits post (Dll.gameThread codec g) h)
    (flows : ∀ flow h, post flow h → ∃ g, flow = .game g) (start : post (.game {}) [])
    (back : returned ((run codec events).residual .game) = true) :
    ∃ g, (run codec events).residual .game = Dll.gameThread codec g ∧
      post (.game g) (historyOf .game (run codec events).log) := by
  have again_meets : ∀ flow h, post flow h → (again codec flow).Meets permits post h := by
    intro flow h ended
    obtain ⟨g, rfl⟩ := flows flow h ended
    exact thread g h ended
  have later : ∀ flow h, (Task.game = .game → post flow h) →
      (again codec flow).PerformsLater fun e => within e = true := by
    intro flow h ended
    obtain ⟨g, rfl⟩ := flows flow h (ended rfl)
    exact gameThread_within codec g
  rcases (System.Contract.ofThread (S := system codec) (thread {} [] start) again_meets).run_head (i := .game)
    (.inr ⟨.game {}, rfl, fun _ => start⟩) later {} events with inside | ⟨flow, head, ended⟩
  · change ((run codec events).residual .game).Performs _ at inside
    cases residual : (run codec events).residual .game with
    | done flow =>
      rw [residual] at back
      cases back
    | perform e next =>
      rw [residual] at back inside
      cases e with
      | nextCall => cases inside.1
      | _ => cases back
  · obtain ⟨g, rfl⟩ := flows flow _ (ended rfl)
    exact ⟨g, head, ended rfl⟩

end WebControl.Link
