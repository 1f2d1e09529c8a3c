import Mathlib.Order.Monotone.Defs
import WkWebControl.Link.Frame

open Effects WebControl Program

namespace WebControl.Link

def clockReads : History Answer → Nat
  | [] => 0
  | ⟨.getTickCount, _⟩ :: h => clockReads h + 1
  | _ :: h => clockReads h

def pushReads : History Answer → List Nat
  | [] => []
  | ⟨.lockClient, some _⟩ :: h => (clockReads h - 1) :: pushReads h
  | _ :: h => pushReads h

def pushTick : History Answer → UInt32
  | [] => 0
  | ⟨.lockClient, some _⟩ :: ⟨.getTickCount, now⟩ :: _ => now
  | _ :: h => pushTick h

def onTime (time : Nat → Nat) : Step Answer → History Answer → Bool
  | ⟨.getTickCount, now⟩, older => now == UInt32.ofNat (time (clockReads older))
  | _, _ => true

/-- `GetTickCount` gives the milliseconds that have passed, in 32 bits. -/
abbrev Clocked (time : Nat → Nat) : History Answer → Prop := Along fun s older => onTime time s older = true

def Passed (h : History Answer) : Prop :=
  ∀ now older, h = ⟨.getTickCount, now⟩ :: older → now - pushTick older < 15

def ratePermits (h : History Answer) : Effect → Prop
  | .lockClient => ∃ now older, h = ⟨.getTickCount, now⟩ :: older ∧ ¬ now - pushTick older < 15
  | _ => Passed h

def ratePost : Flow → History Answer → Prop
  | .game g, h => pushTick h = g.lastPushTick ∧ Passed h
  | _, _ => False

section Game

variable {h : History Answer} {tick : UInt32}

def Unhurried (tick : UInt32) (h : History Answer) : Prop := pushTick h = tick ∧ Passed h

def neither : Effect → Bool
  | .getTickCount | .lockClient => false
  | _ => true

theorem Unhurried.step (between : Unhurried tick h) {e : Effect} (other : neither e = true) (r : Answer e) :
    ratePermits h e ∧ Unhurried tick (⟨e, r⟩ :: h) := by
  have fresh : Passed (⟨e, r⟩ :: h) := by
    intro now older eq
    cases eq
    cases other
  cases e with
  | getTickCount => cases other
  | lockClient => cases other
  | _ => exact ⟨between.2, between.1, fresh⟩

theorem Performing.unhurried {α : Type} {p : Prog α} {post : α → Prop}
    (performing : Performing neither p h post) (between : Unhurried tick h) :
    Meets ratePermits (fun a after => post a ∧ Unhurried tick after) p h := by
  apply performing.keeps between
  intro after e kept other
  have permitted : ratePermits after e := by
    cases e with
    | getTickCount => cases other
    | lockClient => cases other
    | _ => exact kept.2
  exact ⟨permitted, fun r => (kept.step other r).2⟩

theorem neither_plays (e : Effect) (play : plays e = true) : neither e = true := by
  cases e <;> first | rfl | cases play

theorem neither_looks (e : Effect) (look : looks e = true) : neither e = true := by
  cases e <;> first | rfl | cases look

theorem sendLoop_neither (client : Socket) (line : List UInt8) (fuel : Nat) (p : List UInt8) (spins : Nat) :
    Performing neither (Dll.sendLoop client line fuel p spins) h fun _ => True := by
  have gives : ∀ h, Performing neither (Dll.giveUp client) h fun _ => True := by
    intro h
    simp only [Performing, Dll.giveUp, meets_bind, call]
    exact ⟨rfl, fun _ => ⟨rfl, fun _ => trivial⟩⟩
  induction fuel generalizing p spins h with
  | zero => cases p <;> trivial
  | succ fuel ih =>
    cases p with
    | nil => trivial
    | cons b p =>
      simp only [Performing, Dll.sendLoop, meets_bind, call, meets_call]
      refine ⟨rfl, fun sent => ?_⟩
      cases sent with
      | sent n some_ within => exact ih _ _
      | wouldBlock =>
        dsimp only
        split
        · trivial
        · split
          · exact gives _
          · exact ih _ _
      | error => exact gives _

theorem pushState_rate {g : Statics} (codec : Codec) (snap : Dll.GameSnapshot)
    (between : Unhurried g.lastPushTick h) :
    Meets ratePermits (fun g' => Unhurried g'.lastPushTick) (Dll.pushState codec g snap) h := by
  simp only [Dll.pushState, meets_bind, call, meets_call]
  refine ⟨between.2, fun now => ?_⟩
  split
  · rename_i soon
    refine ⟨between.1, ?_⟩
    intro _ _ eq
    cases eq
    rw [between.1]
    exact soon
  · rename_i late
    simp only [meets_bind, meets_call]
    refine ⟨⟨now, h, rfl, by rw [between.1]; exact late⟩, fun client => ?_⟩
    cases client with
    | none =>
      have kept : Unhurried g.lastPushTick (⟨.lockClient, none⟩ :: ⟨.getTickCount, now⟩ :: h) :=
        ⟨between.1, fun _ _ eq => by cases eq⟩
      exact ⟨kept.2, fun _ => (kept.step rfl _).2⟩
    | some client =>
      have pushed : Unhurried now (⟨.lockClient, some client⟩ :: ⟨.getTickCount, now⟩ :: h) :=
        ⟨rfl, fun _ _ eq => by cases eq⟩
      simp only [meets_bind]
      apply ((sendLoop_neither client _ _ _ _).unhurried pushed).mono
      rintro _ after ⟨_, kept⟩
      exact ⟨kept.2, fun _ => (kept.step rfl _).2⟩

theorem onFrame_rate {g : Statics} (codec : Codec) (between : Unhurried g.lastPushTick h) :
    Meets ratePermits (fun g' => Unhurried g'.lastPushTick) (Dll.onFrame codec g) h := by
  simp only [Dll.onFrame, meets_bind, call]
  apply (((buildSnapshot_looks g).widen neither_looks).unhurried between).mono
  rintro snap read ⟨_, looked⟩
  refine ⟨looked.2, fun _ => ?_⟩
  apply (pushState_rate codec snap (looked.step rfl _).2).mono
  intro g' after kept
  split
  · apply (((applyHeldInput_plays g').widen neither_plays).unhurried kept).mono
    rintro _ final ⟨⟨_, rfl⟩, last⟩
    exact last
  · exact kept

theorem gameThread_rate {g : Statics} (codec : Codec) (between : ratePost (.game g) h) :
    Meets ratePermits ratePost (Dll.gameThread codec g) h := by
  simp only [Dll.gameThread, meets_bind, call, meets_call]
  refine ⟨between.2, fun next => ?_⟩
  have called := (Unhurried.step between (e := .nextCall) rfl next).2
  cases next with
  | initializeW2App ddGame => exact called
  | constructGameGlobal =>
    simp only [Dll.hookConstructGameGlobal, meets_bind, call, meets_call]
    exact ⟨called.2, fun memory => (called.step rfl memory).2⟩
  | destroyGameGlobal =>
    simp only [Dll.hookDestroyGameGlobal, Dll.onGameTornDown, meets_bind, call]
    have stored := (called.step (e := .storeTurn (-1)) rfl ()).2
    have cleared := (stored.step (e := .clearControl) rfl ()).2
    exact ⟨called.2, fun _ => ⟨stored.2, fun _ => ⟨cleared.2, fun _ =>
      (cleared.step (e := .publish {}) rfl ()).2⟩⟩⟩
  | turnHandleMessage mtype data =>
    rw [meets_bind]
    apply hookTurnHandleMessage_meets mtype data
    · exact called
    · exact fun team => ⟨called.2, (called.step (e := .storeTurn team) rfl ()).2⟩
    · exact fun _ => onFrame_rate codec called

end Game

theorem rate_permitted (codec : Codec) (events : List (Task × Choice)) :
    Program.Permitted ratePermits (historyOf .game (run codec events).log) := by
  refine System.run_permitted (S := system codec)
    (gameThread_rate codec ⟨rfl, fun _ _ eq => (by cases eq)⟩) ?_ {} events
  intro flow h between
  cases flow with
  | game g => exact gameThread_rate codec between
  | _ => exact between.elim

theorem tick_lt_iff {a b : Nat} (le : a ≤ b) :
    UInt32.ofNat b - UInt32.ofNat a < 15 ↔ (b - a) % 2 ^ 32 < 15 := by
  rw [UInt32.lt_iff_toNat_lt, UInt32.toNat_sub, UInt32.toNat_ofNat', UInt32.toNat_ofNat']
  change _ < 15 ↔ _
  omega

structure Rated (time : Nat → Nat) (h : History Answer) : Prop where
  apart : (pushReads h).Pairwise fun later earlier => time earlier + 15 ≤ time later
  past : ∀ k ∈ pushReads h, k < clockReads h
  last : ∀ k rest, pushReads h = k :: rest → pushTick h = UInt32.ofNat (time k)

theorem Rated.skip {time : Nat → Nat} {s : Step Answer} {h : History Answer} (rated : Rated time h)
    (same : pushReads (s :: h) = pushReads h) (counted : clockReads h ≤ clockReads (s :: h))
    (tick : pushTick (s :: h) = pushTick h) : Rated time (s :: h) where
  apart := by
    rw [same]
    exact rated.apart
  past := by
    rw [same]
    exact fun k member => Nat.lt_of_lt_of_le (rated.past k member) counted
  last := by
    rw [same, tick]
    exact rated.last

theorem Rated.push {time : Nat → Nat} (mono : Monotone time) {client : Socket} {now : UInt32}
    {older : History Answer} (rated : Rated time older)
    (clocked : now = UInt32.ofNat (time (clockReads older))) (late : ¬ now - pushTick older < 15) :
    Rated time (⟨.lockClient, some client⟩ :: ⟨.getTickCount, now⟩ :: older) where
  apart := by
    change ((clockReads older) :: pushReads older).Pairwise _
    rw [List.pairwise_cons]
    refine ⟨?_, rated.apart⟩
    cases pushed : pushReads older with
    | nil => exact fun k member => absurd member List.not_mem_nil
    | cons k rest =>
      have past : k < clockReads older := rated.past k (pushed ▸ List.mem_cons_self)
      have order : time k ≤ time (clockReads older) := mono (Nat.le_of_lt past)
      rw [clocked, rated.last k rest pushed, tick_lt_iff order] at late
      have newest : time k + 15 ≤ time (clockReads older) := by omega
      have apart := rated.apart
      rw [pushed, List.pairwise_cons] at apart
      intro j member
      rcases List.mem_cons.mp member with rfl | member
      · exact newest
      · have before := apart.1 j member
        omega
  past := by
    intro k member
    change k < clockReads older + 1
    change k ∈ clockReads older :: pushReads older at member
    rcases List.mem_cons.mp member with rfl | member
    · omega
    · have past := rated.past k member
      omega
  last := by
    intro k rest eq
    obtain ⟨rfl, -⟩ := List.cons.inj (show clockReads older :: pushReads older = k :: rest from eq)
    exact clocked

theorem rated {time : Nat → Nat} (mono : Monotone time) {h : History Answer}
    (permitted : Program.Permitted ratePermits h) (clocked : Clocked time h) :
    Rated time h ∧ Rated time h.tail := by
  induction h with
  | nil =>
    have none_ : Rated time [] :=
      ⟨.nil, fun k member => absurd member List.not_mem_nil, fun k rest eq => by cases eq⟩
    exact ⟨none_, none_⟩
  | cons s h ih =>
    obtain ⟨before, earlier⟩ := ih permitted.tail clocked.tail
    refine ⟨?_, before⟩
    rcases s with ⟨e, r⟩
    cases e with
    | getTickCount => exact before.skip rfl (Nat.le_succ _) rfl
    | lockClient =>
      obtain ⟨now, older, rfl, late⟩ := permitted.head
      cases r with
      | none => exact before.skip rfl (Nat.le_refl _) rfl
      | some client => exact earlier.push mono (beq_iff_eq.mp clocked.tail.head) late
    | _ => exact before.skip rfl (Nat.le_refl _) rfl

/-- Whatever the backend does and however often the clock of WA has wrapped: two pushes to the backend
    are 15 ms apart. Nor is a frame held back that comes 15 ms after the last push, unless the clock has
    come round since. -/
theorem pushes_apart (codec : Codec) (events : List (Task × Choice)) (time : Nat → Nat)
    (mono : Monotone time) (clocked : Clocked time (historyOf .game (run codec events).log)) :
    (pushReads (historyOf .game (run codec events).log)).Pairwise
        (fun later earlier => time earlier + 15 ≤ time later) ∧
      ∀ newer s now older k rest,
        historyOf .game (run codec events).log = newer ++ s :: ⟨.getTickCount, now⟩ :: older →
        pushReads older = k :: rest → time (clockReads older) < time k + 2 ^ 32 →
        (s.1 = .lockClient ↔ time k + 15 ≤ time (clockReads older)) := by
  have permitted := rate_permitted codec events
  refine ⟨(rated mono permitted clocked).1.apart, ?_⟩
  intro newer s now older k rest split pushed wrapped
  rw [split] at permitted clocked
  replace permitted := permitted.of_append
  replace clocked := clocked.of_append
  have before := (rated mono permitted.tail.tail clocked.tail.tail).1
  have order : time k ≤ time (clockReads older) :=
    mono (Nat.le_of_lt (before.past k (pushed ▸ List.mem_cons_self)))
  have soon : now - pushTick older < 15 ↔ time (clockReads older) < time k + 15 := by
    rw [beq_iff_eq.mp clocked.tail.head, before.last k rest pushed, tick_lt_iff order]
    omega
  rw [← Nat.not_lt, ← soon]
  rcases s with ⟨e, r⟩
  have allowed : ratePermits (⟨.getTickCount, now⟩ :: older) e := permitted.head
  cases e with
  | lockClient =>
    obtain ⟨_, _, eq, late⟩ := allowed
    cases eq
    exact iff_of_true rfl late
  | _ => exact iff_of_false Effect.noConfusion (not_not_intro (allowed now older rfl))

def pushesAt (now : UInt32) : List (Task × Choice) :=
  [(.game, .calls (.turnHandleMessage .frameFinish none) tinyMemory), (.game, .go), (.game, .go),
   (.game, .go), (.game, .tick now), (.game, .go), (.game, .wait), (.game, .go), (.game, .go)]

def skipsAt (now : UInt32) : List (Task × Choice) :=
  [(.game, .calls (.turnHandleMessage .frameFinish none) tinyMemory), (.game, .go), (.game, .go),
   (.game, .go), (.game, .tick now), (.game, .go)]

def threeFrames : List (Task × Choice) :=
  joins ++ initialises ++ constructs ++ pushesAt 15 ++ skipsAt 23 ++ pushesAt 31

theorem pushes_apart_threeFrames :
    (pushReads (historyOf .game (run sampleCodec threeFrames).log)).Pairwise
      fun later earlier => 15 + 8 * earlier + 15 ≤ 15 + 8 * later :=
  (pushes_apart sampleCodec threeFrames (fun k => 15 + 8 * k)
    (fun a b le => by
      change 15 + 8 * a ≤ 15 + 8 * b
      omega)
    (by decide +kernel)).1

end WebControl.Link
