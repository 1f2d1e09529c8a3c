import WkWebControl.Backend.Rounds

open Effects WebControl

namespace WebControl.Backend

/-- `_last_game_id`, and what `on_new_game` has been called with, the newest first. -/
structure Detector where
  lastGameId : Int := 0
  calls : List Int := []

namespace Detector

def detectNewGame (d : Detector) (snap : Option GameSnapshot) : Detector :=
  match snap with
  | none => d
  | some snap =>
    if snap.gameId = 0 then d
    else if snap.gameId ≠ d.lastGameId then
      { lastGameId := snap.gameId, calls := if d.lastGameId ≠ 0 then snap.gameId :: d.calls else d.calls }
    else d

def after (samples : List (Option GameSnapshot)) : Detector :=
  samples.foldr (fun snap d => d.detectNewGame snap) {}

end Detector

def ids (samples : List (Option GameSnapshot)) : List Int :=
  samples.filterMap fun snap => (snap.map GameSnapshot.gameId).filter (· ≠ 0)

/-- The entries that differ from the one before them, in lists that have the newest first. -/
def changes : List Int → List Int
  | id :: before :: older => if id = before then changes (before :: older) else id :: changes (before :: older)
  | _ => []

theorem ids_real {samples : List (Option GameSnapshot)} {id : Int} (member : id ∈ ids samples) : id ≠ 0 := by
  obtain ⟨snap, -, found⟩ := List.mem_filterMap.mp member
  have real := (Option.filter_eq_some_iff.mp found).2
  simpa using real

theorem ids_noGame {snap : GameSnapshot} (noGame : snap.gameId = 0) (samples : List (Option GameSnapshot)) :
    ids (some snap :: samples) = ids samples :=
  List.filterMap_cons_none (by simp [noGame])

theorem ids_game {snap : GameSnapshot} (real : snap.gameId ≠ 0) (samples : List (Option GameSnapshot)) :
    ids (some snap :: samples) = snap.gameId :: ids samples :=
  List.filterMap_cons_some (by simp [Option.filter, real])

theorem Detector.after_ids (samples : List (Option GameSnapshot)) :
    (after samples).lastGameId = (ids samples).head?.getD 0 ∧ (after samples).calls = changes (ids samples) := by
  induction samples with
  | nil => exact ⟨rfl, rfl⟩
  | cons snap samples ih =>
    obtain ⟨last, calls⟩ := ih
    have step : after (snap :: samples) = (after samples).detectNewGame snap := rfl
    rw [step]
    cases snap with
    | none => exact ⟨last, calls⟩
    | some snap =>
      by_cases noGame : snap.gameId = 0
      · rw [ids_noGame noGame, detectNewGame, if_pos noGame]
        exact ⟨last, calls⟩
      · rw [ids_game noGame, detectNewGame, if_neg noGame]
        cases older : ids samples with
        | nil =>
          rw [older] at last calls
          have fresh : (after samples).lastGameId = 0 := last
          rw [fresh, if_pos noGame]
          exact ⟨rfl, calls⟩
        | cons before rest =>
          rw [older] at last calls
          have known : (after samples).lastGameId = before := last
          have member : before ∈ ids samples := by
            rw [older]
            exact List.mem_cons_self
          have real : before ≠ 0 := ids_real member
          rw [known, changes]
          by_cases same : snap.gameId = before
          · rw [if_neg (not_not_intro same), if_pos same]
            exact ⟨known.trans same.symm, calls⟩
          · rw [if_pos same, if_pos real, if_neg same, calls]
            exact ⟨rfl, rfl⟩

def sampled : History StateAnswer → List (Option GameSnapshot)
  | [] => []
  | ⟨.backend .latestState, snap⟩ :: h => snap.map Received.snapshot :: sampled h
  | _ :: h => sampled h

def newGameCalls : History StateAnswer → List Int
  | [] => []
  | ⟨.backend .clearAll, _⟩ :: h => ((sampled h).head?.join.map GameSnapshot.gameId).toList ++ newGameCalls h
  | _ :: h => newGameCalls h

def lastSet : History StateAnswer → Int
  | [] => 0
  | ⟨.backend (.setLastGameId seen), _⟩ :: _ => seen.snapshot.gameId
  | _ :: h => lastSet h

/-- The samples `_detect_new_game` has dealt with: all, or all but the newest while it is at that. -/
def dealt : History StateAnswer → List (Option GameSnapshot)
  | ⟨.backend .latestState, _⟩ :: h => sampled h
  | ⟨.backend (.lastGameId _), _⟩ :: h => (sampled h).tail
  | h => sampled h

def Through : History StateAnswer → Prop
  | ⟨.backend .latestState, some seen⟩ :: _ => seen.snapshot.gameId = 0
  | ⟨.backend (.lastGameId seen), last⟩ :: _ => seen.snapshot.gameId = last
  | ⟨.backend .clearAll, _⟩ :: _ => False
  | _ => True

def roundPermits (h : History StateAnswer) : StateEffect → Prop
  | .backend (.lastGameId seen) =>
    seen.snapshot.gameId ≠ 0 ∧ ∃ rest, h = ⟨.backend .latestState, some seen⟩ :: rest
  | .backend .clearAll => ∃ seen last rest, h = ⟨.backend (.lastGameId seen), last⟩ :: rest ∧
      last ≠ 0 ∧ seen.snapshot.gameId ≠ last
  | .backend (.setLastGameId seen) => ∃ rest,
      (∃ last : Int, h = ⟨.backend .clearAll, ()⟩ :: ⟨.backend (.lastGameId seen), last⟩ :: rest) ∨
      h = ⟨.backend (.lastGameId seen), (0 : Int)⟩ :: rest
  | .backend .latestState | .backend .sleep | .clients | .sendState _ _ | .discardClient _ => Through h
  | _ => False

section Round

open Program

theorem detectNewGame_round (snap : Option Received) (h : History StateAnswer) :
    Meets roundPermits (fun _ after => Through after) (Program.ofBackend (detectNewGame snap))
      (⟨.backend .latestState, snap⟩ :: h) := by
  unfold detectNewGame
  cases snap with
  | none => exact trivial
  | some seen =>
    dsimp only
    split
    · rename_i noGame
      exact noGame
    · rename_i real
      simp only [Program.ofBackend, call, translate_call_bind, meets_bind, meets_call]
      refine ⟨⟨real, h, rfl⟩, fun last => ?_⟩
      split
      · rename_i same
        exact same
      · rename_i other
        by_cases first : last = 0
        · subst first
          simp only [ne_eq, not_true_eq_false, if_false]
          exact ⟨⟨_, .inr rfl⟩, fun _ => trivial⟩
        · simp only [ne_eq, first, not_false_eq_true, if_true, translate_call_bind, meets_bind, meets_call]
          exact ⟨⟨seen, last, _, rfl, first, other⟩, fun _ => ⟨⟨_, .inl ⟨last, rfl⟩⟩, fun _ => trivial⟩⟩

theorem stateLoop_round (h : History StateAnswer) (through : Through h) :
    Meets roundPermits (fun _ after => Through after) stateLoop h := by
  simp only [stateLoop, performs, meets_bind, meets_call]
  refine ⟨through, fun snap => (detectNewGame_round snap h).mono ?_⟩
  intro _ after done
  refine ⟨done, fun clients => ?_⟩
  have begun : Through (⟨.clients, clients⟩ :: after) := trivial
  refine (sends_meets snap ?_ ?_ clients begun).mono ?_
  · exact fun n there before shown => ⟨shown, trivial⟩
  · exact fun n before shown => ⟨shown, trivial⟩
  · exact fun _ _ shown => ⟨shown, fun _ => trivial⟩

end Round

def Honest (s : Step StateAnswer) (older : History StateAnswer) : Prop :=
  match s with
  | ⟨.backend (.lastGameId _), last⟩ => last = lastSet older
  | _ => True

def Tracks (d : Detector) (h : History StateAnswer) : Prop := newGameCalls h = d.calls ∧ lastSet h = d.lastGameId

def Looked (seen : Received) (last : Int) (h : History StateAnswer) : Prop :=
  seen.snapshot.gameId ≠ 0 ∧ last = lastSet h ∧
    ∃ older, h = ⟨.backend .latestState, some seen⟩ :: older ∧ Tracks (.after (sampled older)) older

def Tracked : History StateAnswer → Prop
  | ⟨.backend .latestState, _⟩ :: h => Tracks (.after (sampled h)) h
  | ⟨.backend (.lastGameId seen), last⟩ :: h => Looked seen last h
  | ⟨.backend .clearAll, _⟩ :: h => ∃ seen last older,
      h = ⟨.backend (.lastGameId seen), last⟩ :: older ∧ last ≠ 0 ∧ seen.snapshot.gameId ≠ last ∧ Looked seen last older
  | h => Tracks (.after (sampled h)) h

theorem Detector.after_noGame {seen : GameSnapshot} (noGame : seen.gameId = 0) (samples : List (Option GameSnapshot)) :
    after (some seen :: samples) = after samples :=
  if_pos noGame

theorem Detector.after_same {seen : GameSnapshot} {samples : List (Option GameSnapshot)}
    (same : seen.gameId = (after samples).lastGameId) : after (some seen :: samples) = after samples := by
  change (after samples).detectNewGame (some seen) = _
  unfold detectNewGame
  dsimp only
  split
  · rfl
  · exact if_neg (not_not_intro same)

theorem Detector.after_other {seen : GameSnapshot} {samples : List (Option GameSnapshot)} (real : seen.gameId ≠ 0)
    (other : seen.gameId ≠ (after samples).lastGameId) :
    (after (some seen :: samples)).lastGameId = seen.gameId ∧ (after (some seen :: samples)).calls =
      if (after samples).lastGameId ≠ 0 then seen.gameId :: (after samples).calls else (after samples).calls := by
  have step : after (some seen :: samples) =
      ⟨seen.gameId, if (after samples).lastGameId ≠ 0 then seen.gameId :: (after samples).calls
        else (after samples).calls⟩ := (if_neg real).trans (if_pos other)
  rw [step]
  exact ⟨rfl, rfl⟩

section Steps

variable {h : History StateAnswer}

theorem Looked.after {seen : Received} {last : Int} (looked : Looked seen last h)
    (other : seen.snapshot.gameId ≠ last) :
    (Detector.after (sampled h)).lastGameId = seen.snapshot.gameId ∧ (Detector.after (sampled h)).calls =
      if last ≠ 0 then seen.snapshot.gameId :: newGameCalls h else newGameCalls h := by
  obtain ⟨real, known, older, rfl, calls, set⟩ := looked
  have before : (Detector.after (sampled older)).lastGameId = last := set.symm.trans known.symm
  have after := Detector.after_other real (before.symm ▸ other)
  rw [before, ← calls] at after
  exact after

theorem Tracked.through (tracked : Tracked h) (through : Through h) : Tracks (.after (sampled h)) h := by
  unfold Tracked at tracked
  split at tracked
  · rename_i snap h
    cases snap with
    | none => exact tracked
    | some seen =>
      rw [show sampled _ = some seen.snapshot :: sampled h from rfl, Detector.after_noGame through]
      exact tracked
  · rename_i seen last h
    obtain ⟨real, known, older, rfl, tracks⟩ := tracked
    have same : seen.snapshot.gameId = (Detector.after (sampled older)).lastGameId :=
      (show _ = last from through).trans (known.trans tracks.2)
    rw [show sampled _ = some seen.snapshot :: sampled older from rfl, Detector.after_same same]
    exact tracks
  · exact through.elim
  · exact tracked

theorem Tracked.calls (tracked : Tracked h) : newGameCalls h = (Detector.after (dealt h)).calls := by
  unfold Tracked at tracked
  split at tracked
  · exact tracked.1
  · obtain ⟨-, -, older, rfl, tracks⟩ := tracked
    exact tracks.1
  · obtain ⟨seen, last, h, rfl, first, other, looked⟩ := tracked
    have called := (looked.after other).2
    obtain ⟨-, -, older, rfl, -⟩ := looked
    rw [if_pos first] at called
    exact called.symm
  · rename_i quiet lookless _
    have all : dealt h = sampled h := by
      unfold dealt
      split
      · exact absurd rfl (quiet _ _)
      · exact absurd rfl (lookless _ _ _)
      · rfl
    rw [all]
    exact tracked.1

theorem Tracked.step {s : Step StateAnswer} (tracked : Tracked h) (permitted : roundPermits h s.1)
    (honest : Honest s h) : Tracked (s :: h) := by
  rcases s with ⟨e, r⟩
  cases e with
  | backend e =>
    cases e with
    | latestState => exact tracked.through permitted
    | sleep => exact tracked.through permitted
    | lastGameId seen =>
      obtain ⟨real, older, rfl⟩ := permitted
      exact ⟨real, honest, older, rfl, tracked⟩
    | clearAll =>
      obtain ⟨seen, last, older, rfl, first, other⟩ := permitted
      exact ⟨seen, last, older, rfl, first, other, tracked⟩
    | setLastGameId seen =>
      obtain ⟨rest, ⟨last, rfl⟩ | rfl⟩ := permitted
      · obtain ⟨_, _, _, looks, first, other, looked⟩ := tracked
        cases looks
        obtain ⟨set, called⟩ := looked.after other
        obtain ⟨-, -, older, rfl, -⟩ := looked
        rw [if_pos first] at called
        exact ⟨called.symm, set.symm⟩
      · obtain ⟨set, called⟩ := tracked.after tracked.1
        rw [if_neg (not_not_intro rfl)] at called
        exact ⟨called.symm, set.symm⟩
    | _ => exact permitted.elim
  | clients => exact tracked.through permitted
  | sendState n msg => exact tracked.through permitted
  | discardClient n => exact tracked.through permitted
  | _ => exact permitted.elim

end Steps

structure Knows (s : StateShared) (log : StateLog) : Prop where
  last : s.backend.lastGameId = lastSet (ofBroadcaster log)
  honest : Program.Along Honest (ofBroadcaster log)

theorem Knows.own {s after : StateShared} {log : StateLog} {e : StateEffect} {r : StateAnswer e} (knows : Knows s log)
    (replies : s.Replies (.backend .broadcaster) e r after) :
    Knows after (⟨.backend .broadcaster, e, r, s, after⟩ :: log) := by
  cases e with
  | backend e =>
    obtain ⟨backend, replies, rfl⟩ := replies
    cases e with
    | setLastGameId seen =>
      refine ⟨?_, .cons trivial knows.honest⟩
      rw [show backend = _ from replies]
      rfl
    | lastGameId seen =>
      exact ⟨(replies.lastGameId trivial).trans knows.last, .cons (replies.1.trans knows.last) knows.honest⟩
    | _ => exact ⟨(replies.lastGameId trivial).trans knows.last, .cons trivial knows.honest⟩
  | ownTeam email =>
    obtain ⟨-, rfl⟩ := replies
    exact ⟨knows.last, .cons trivial knows.honest⟩
  | _ =>
    obtain ⟨clients, rfl⟩ := replies
    exact ⟨knows.last, .cons trivial knows.honest⟩

theorem Knows.entry {s after : StateShared} {log : StateLog} {i : StateTask} {e : StateEffect} {r : StateAnswer e}
    (knows : Knows s log) (replies : s.Replies i e r after) (permitted : statePermits i (historyOf i log) e) :
    Knows after (⟨i, e, r, s, after⟩ :: log) := by
  by_cases own : i = .backend .broadcaster
  · subst own
    exact knows.own replies
  · have history : ofBroadcaster (⟨i, e, r, s, after⟩ :: log) = ofBroadcaster log := historyOf_cons_other own log
    have same : after.backend.lastGameId = s.backend.lastGameId := by
      cases e with
      | backend e =>
        obtain ⟨backend, replies, rfl⟩ := replies
        exact replies.lastGameId (harmless_of_permits own permitted)
      | ownTeam email => rw [replies.2]
      | _ =>
        obtain ⟨clients, rfl⟩ := replies
        rfl
    exact ⟨by rw [same, history]; exact knows.last, by rw [history]; exact knows.honest⟩

section Run

variable {store : MappingStore} {events : List (StateTask × StateChoice)}

theorem run_knows : Knows (stateRun store events).shared (stateRun store events).log := by
  refine stateContract.run_log { backend := { store } } (P := Knows) ⟨rfl, .nil⟩ ?_ events
  rintro x log knows ⟨c, replied⟩ permitted
  exact knows.entry (StateShared.reply_cases replied) permitted

theorem run_tracked : Tracked (ofBroadcaster (stateRun store events).log) := by
  have start : Program.Meets roundPermits (fun _ after => Through after) (stateStart (.backend .broadcaster)) [] :=
    stateLoop_round [] trivial
  have permitted : Program.Permitted roundPermits (ofBroadcaster (stateRun store events).log) :=
    System.run_permitted (S := stateSystem) start (fun _ => stateLoop_round) _ events
  have along := Program.Along.and permitted run_knows.honest
  apply along.keeps Tracked
  · exact ⟨rfl, rfl⟩
  · exact fun s h before both => before.step both.1 both.2

end Run

/-- Of every sequence of samples, and of the samples of every run at any moment: `on_new_game` has been
    called with the ids that differ from the one before them, where samples without a game do not count. -/
theorem new_game_calls :
    (∀ samples, (Detector.after samples).calls = changes (ids samples)) ∧
    ∀ (store : MappingStore) (events : List (StateTask × StateChoice)),
      newGameCalls (ofBroadcaster (stateRun store events).log) =
        changes (ids (dealt (ofBroadcaster (stateRun store events).log))) := by
  refine ⟨fun samples => (Detector.after_ids samples).2, fun store events => ?_⟩
  rw [run_tracked.calls]
  exact (Detector.after_ids _).2

end WebControl.Backend
