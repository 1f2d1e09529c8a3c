import WkWebControl.Link.Handles

open Effects WebControl Program

namespace WebControl.Link

def sends : History Answer → Nat
  | [] => 0
  | ⟨.lockClient, _⟩ :: _ => 0
  | ⟨.send _ _, _⟩ :: h => sends h + 1
  | _ :: h => sends h

def letGo : History Answer → Bool
  | [] => false
  | ⟨.lockClient, _⟩ :: _ => false
  | ⟨.dropClient, _⟩ :: _ => true
  | _ :: h => letGo h

inductive PushOutcome where
  | sent
  | dropped
  | closed
  deriving DecidableEq

def Kept (h : History Answer) : Prop := gaveUp h = false ∧ letGo h = false

/-- What the calls of a push say about the way it has ended. -/
def PushOutcome.Of (whole : List UInt8) (h : History Answer) : PushOutcome → Prop
  | .sent => sofar h = whole ∧ Kept h
  | .dropped => sofar h = [] ∧ Kept h
  | .closed => gaveUp h = true ∧ letGo h = true

def PushOutcome.Leaves (s : Shared) (client : Socket) : PushOutcome → Prop
  | .sent | .dropped => s.client = some client ∧ (s.net client).closed = false
  | .closed => s.client = none ∧ (s.net client).closed = true

theorem PushOutcome.Of.unique {whole : List UInt8} (some_ : whole ≠ []) {h : History Answer}
    {o o' : PushOutcome} (left : o.Of whole h) (right : o'.Of whole h) : o = o' := by
  have keeps : Kept h → gaveUp h ≠ true := fun kept gave => by
    rw [kept.1] at gave
    cases gave
  cases o with
  | sent =>
    cases o' with
    | sent => rfl
    | dropped => exact absurd (left.1.symm.trans right.1) some_
    | closed => exact absurd right.1 (keeps left.2)
  | dropped =>
    cases o' with
    | sent => exact absurd (right.1.symm.trans left.1) some_
    | dropped => rfl
    | closed => exact absurd right.1 (keeps left.2)
  | closed =>
    cases o' with
    | sent => exact absurd left.1 (keeps right.2)
    | dropped => exact absurd left.1 (keeps right.2)
    | closed => rfl

structure Ended (whole : List UInt8) (h : History Answer) : Prop where
  few : sends h ≤ whole.length + 201
  outcome : ∃ o : PushOutcome, o.Of whole h

def outcomePermits (codec : Codec) (h : History Answer) : Effect → Prop
  | .lockClient => locking h = false
  | .send client _ => holding h = some client ∧ Kept h
  | .closesocket client => holding h = some client ∧ Kept h
  | .dropClient => holding h ≠ none ∧ gaveUp h = true
  | .unlockClient => holding h = none ∨ line codec h ≠ [] ∧ Ended (line codec h) h
  | .running | .accept | .setClient _ | .recv _ | .applyControl _ _ _ | .terminate | .connect
  | .receive _ | .setSock _ | .setLatest _ => False
  | _ => True

section Game

variable {codec : Codec} {h : History Answer}

/-- In the middle of a push, with `p` left to send: each call of `send` has sent something or has been
    one of the `spins`. -/
structure Midway (codec : Codec) (client : Socket) (whole p : List UInt8) (spins : Nat)
    (h : History Answer) : Prop where
  holds : holding h = some client
  locked : locking h = true
  kept : Kept h
  same : line codec h = whole
  rest : sofar h ++ p = whole
  count : sends h + p.length ≤ whole.length + spins
  few : spins ≤ 200

theorem Midway.bound {client : Socket} {whole p : List UInt8} {spins : Nat}
    (midway : Midway codec client whole p spins h) : sends h ≤ whole.length + 200 := by
  have count := midway.count
  have few := midway.few
  omega

theorem Midway.sent {client : Socket} {whole p : List UInt8} {spins n : Nat}
    (midway : Midway codec client whole p spins h) (some_ : 0 < n) (within : n ≤ p.length) :
    Midway codec client whole (p.drop n) spins (⟨.send client p, .sent n some_ within⟩ :: h) := by
  have count := midway.count
  refine ⟨midway.holds, midway.locked, midway.kept, midway.same, ?_, ?_, midway.few⟩
  · change (sofar h ++ p.take n) ++ p.drop n = whole
    rw [List.append_assoc, List.take_append_drop, midway.rest]
  · change sends h + 1 + (p.drop n).length ≤ whole.length + spins
    rw [List.length_drop]
    omega

theorem Midway.spun {client : Socket} {whole p : List UInt8} {spins : Nat}
    (midway : Midway codec client whole p spins h) (more : spins + 1 ≤ 200) :
    Midway codec client whole p (spins + 1) (⟨.send client p, .wouldBlock⟩ :: h) := by
  have count := midway.count
  refine ⟨midway.holds, midway.locked, midway.kept, midway.same, midway.rest, ?_, more⟩
  change sends h + 1 + p.length ≤ whole.length + (spins + 1)
  omega

theorem Midway.unsent {client : Socket} {whole p : List UInt8} {spins : Nat}
    (midway : Midway codec client whole p spins h) (all : p.length = whole.length) : sofar h = [] := by
  have lengths := congrArg List.length midway.rest
  rw [List.length_append, all] at lengths
  apply List.length_eq_zero_iff.mp
  omega

/-- What is true of the history right after a push, before `g_client` is unlocked. -/
def Over (codec : Codec) (whole : List UInt8) (h : History Answer) : Prop :=
  locking h = true ∧ line codec h = whole ∧ Ended whole h

theorem giveUp_outcome {client : Socket} {whole : List UInt8} (holds : holding h = some client)
    (locked : locking h = true) (kept : Kept h) (same : line codec h = whole)
    (few : sends h ≤ whole.length + 201) :
    Meets (outcomePermits codec) (fun _ => Over codec whole) (Dll.giveUp client) h := by
  simp only [Dll.giveUp, meets_bind, call]
  refine ⟨⟨holds, kept⟩, fun _ => ⟨⟨?_, rfl⟩, fun _ => ⟨locked, same, few, .closed, rfl, rfl⟩⟩⟩
  change holding h ≠ none
  simp [holds]

theorem sendLoop_outcome {client : Socket} {whole : List UInt8} (fuel : Nat) {p : List UInt8}
    {spins : Nat} (enough : p.length + 200 < fuel + spins)
    (midway : Midway codec client whole p spins h) :
    Meets (outcomePermits codec) (fun _ => Over codec whole)
      (Dll.sendLoop client whole fuel p spins) h := by
  induction fuel generalizing p spins h with
  | zero =>
    have few := midway.few
    omega
  | succ fuel ih =>
    have bound := midway.bound
    cases p with
    | nil =>
      have all : sofar h = whole := by
        rw [← midway.rest, List.append_nil]
      exact ⟨midway.locked, midway.same, by omega, .sent, all, midway.kept⟩
    | cons b p =>
      simp only [Dll.sendLoop, meets_bind, call, meets_call]
      refine ⟨⟨midway.holds, midway.kept⟩, fun sent => ?_⟩
      cases sent with
      | sent n some_ within =>
        apply ih _ (midway.sent some_ within)
        rw [List.length_drop]
        rw [List.length_cons] at enough within ⊢
        omega
      | wouldBlock =>
        dsimp only
        split
        · rename_i first
          exact ⟨midway.locked, midway.same, Nat.succ_le_succ bound, .dropped, midway.unsent first, midway.kept⟩
        · split
          · exact giveUp_outcome (h := ⟨.send client (b :: p), .wouldBlock⟩ :: h) midway.holds
              midway.locked midway.kept midway.same (Nat.succ_le_succ bound)
          · apply ih _ (midway.spun (by omega))
            omega
      | error =>
        exact giveUp_outcome (h := ⟨.send client (b :: p), .error⟩ :: h) midway.holds midway.locked
          midway.kept midway.same (Nat.succ_le_succ bound)

/-- Some round always sends something, runs out of spins or fails before the fuel is used up. -/
theorem sendLoop_fuel (client : Socket) (whole : List UInt8) (fuel extra : Nat) {p : List UInt8}
    {spins : Nat} (enough : p.length + 200 < fuel + spins) (few : spins ≤ 200) :
    Dll.sendLoop client whole (fuel + extra) p spins = Dll.sendLoop client whole fuel p spins := by
  induction fuel generalizing p spins with
  | zero => omega
  | succ fuel ih =>
    rw [Nat.succ_add]
    cases p with
    | nil => rfl
    | cons b p =>
      rw [List.length_cons] at enough
      unfold Dll.sendLoop
      congr 1
      funext sent
      cases sent with
      | sent n some_ within =>
        apply ih _ few
        rw [List.length_drop, List.length_cons]
        omega
      | wouldBlock =>
        dsimp only
        split
        · rfl
        · split
          · rfl
          · apply ih
            · rw [List.length_cons]
              omega
            · omega
      | error => rfl

theorem stateLine_some (codec : Codec) (snap : Dll.GameSnapshot) : Dll.stateLine codec snap ≠ [] := by
  simp [Dll.stateLine]

theorem pushState_outcome (g : Statics) {snap : Dll.GameSnapshot} (free : Free h)
    (newest : line codec h = Dll.stateLine codec snap) :
    Meets (outcomePermits codec)
      (fun _ after => Free after ∧ (sofar h = [] → sends h = 0 → Kept h →
        Ended (Dll.stateLine codec snap) after))
      (Dll.pushState codec g snap) h := by
  simp only [Dll.pushState, meets_bind, call, meets_call]
  refine ⟨trivial, fun now => ?_⟩
  split
  · refine ⟨free, fun nothing none_ kept => ⟨?_, .dropped, nothing, kept⟩⟩
    change sends h ≤ _
    omega
  · simp only [meets_bind, meets_call]
    refine ⟨free.1, fun client => ?_⟩
    cases client with
    | none =>
      exact ⟨.inl rfl, fun _ => ⟨⟨rfl, rfl⟩, fun _ _ _ => ⟨Nat.zero_le _, .dropped, rfl, rfl, rfl⟩⟩⟩
    | some client =>
      simp only [meets_bind]
      have start : Midway codec client (Dll.stateLine codec snap) (Dll.stateLine codec snap) 0
          (⟨.lockClient, some client⟩ :: ⟨.getTickCount, now⟩ :: h) :=
        ⟨rfl, rfl, ⟨rfl, rfl⟩, newest, rfl, Nat.le_of_eq (Nat.zero_add _), Nat.zero_le _⟩
      apply (sendLoop_outcome _ (Nat.lt_succ_self _) start).mono
      rintro _ after ⟨locked, same, ended⟩
      refine ⟨.inr ?_, fun _ => ⟨⟨rfl, rfl⟩, fun _ _ _ => ⟨ended.few, ended.outcome⟩⟩⟩
      rw [same]
      exact ⟨stateLine_some codec snap, ended⟩

theorem Performing.outcome {α : Type} {p : Prog α} {post : α → Prop} (plays : Plays p h post) (free : Free h) :
    Meets (outcomePermits codec) (fun a after => post a ∧ Free after) p h := by
  apply plays.keeps free
  intro after e kept play
  cases e <;> first | exact ⟨trivial, fun _ => kept⟩ | cases play

theorem onFrame_outcome (codec : Codec) (g : Statics) (free : Free h) :
    Meets (outcomePermits codec) (fun _ => Free) (Dll.onFrame codec g) h := by
  simp only [Dll.onFrame, meets_bind, call]
  apply ((buildSnapshot_plays g).outcome free).mono
  rintro snap read ⟨_, free⟩
  refine ⟨trivial, fun _ => ?_⟩
  apply (pushState_outcome (h := ⟨.publish snap, ()⟩ :: read) g free rfl).mono
  rintro g' after ⟨free, _⟩
  split
  · exact ((applyHeldInput_plays g').outcome free).mono fun _ _ kept => kept.2
  · exact free

theorem gameThread_outcome (codec : Codec) (g : Statics) (free : Free h) :
    Meets (outcomePermits codec) handlePost (Dll.gameThread codec g) h := by
  simp only [Dll.gameThread, meets_bind, call, meets_call]
  refine ⟨trivial, fun next => ?_⟩
  cases next with
  | initializeW2App ddGame => exact free
  | constructGameGlobal =>
    simp only [Dll.hookConstructGameGlobal, meets_bind, call, meets_call]
    exact ⟨trivial, fun _ => free⟩
  | destroyGameGlobal =>
    simp only [Dll.hookDestroyGameGlobal, Dll.onGameTornDown, meets_bind, call]
    exact ⟨trivial, fun _ => ⟨trivial, fun _ => ⟨trivial, fun _ => free⟩⟩⟩
  | turnHandleMessage mtype data =>
    rw [meets_bind]
    apply hookTurnHandleMessage_meets mtype data
    · exact free
    · exact fun team => ⟨trivial, free⟩
    · exact fun _ => onFrame_outcome codec g (h := ⟨.nextCall, .turnHandleMessage mtype data⟩ :: h) free

end Game

end WebControl.Link
