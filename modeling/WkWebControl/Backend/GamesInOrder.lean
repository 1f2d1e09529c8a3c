import WkWebControl.Backend.NewGameCalls
import WkWebControl.Backend.ShownGames

open Effects WebControl

namespace WebControl.Backend

def arrivedId (x : Entry StateTask StateAnswer StateShared) : Option Int :=
  match x.effect with
  | .backend (.setLatest (some received)) => some received.snapshot.gameId
  | _ => none

theorem arrivedId_none {x : Entry StateTask StateAnswer StateShared}
    (quiet : ∀ latest, x.effect ≠ .backend (.setLatest latest)) : arrivedId x = none := by
  unfold arrivedId
  split
  · rename_i sets
    exact absurd sets (quiet _)
  · rfl

def arrivals (log : StateLog) : List Int := log.filterMap arrivedId

theorem Shared.Replies.sameLatest {s after : Shared} {e : Effect} {r : Answer e} (replies : s.Replies e r after)
    (other : ∀ latest, e ≠ .setLatest latest) : after.latest = s.latest := by
  cases e with
  | setLatest latest => exact absurd rfl (other latest)
  | latestState | emailForTeam | teamForEmail | sendCommand => rw [replies.2]
  | claim team email seen =>
    rw [replies.2]
    split <;> rfl
  | lastGameId seen =>
    rw [replies.2]
    split <;> rfl
  | _ =>
    cases replies
    rfl

theorem StateShared.Replies.sameLatest {s after : StateShared} {i : StateTask} {e : StateEffect} {r : StateAnswer e}
    (replies : s.Replies i e r after) (other : ∀ latest, e ≠ .backend (.setLatest latest)) :
    after.backend.latest = s.backend.latest := by
  cases e with
  | backend e =>
    obtain ⟨backend, replies, rfl⟩ := replies
    exact replies.sameLatest fun latest same => other latest (congrArg _ same)
  | ownTeam email =>
    obtain ⟨-, rfl⟩ := replies
    rfl
  | _ =>
    obtain ⟨clients, rfl⟩ := replies
    rfl

theorem sampled_other {s after : StateShared} {log : StateLog} {i : StateTask} {e : StateEffect} {r : StateAnswer e}
    (other : i ≠ .backend .broadcaster ∨ e ≠ .backend .latestState) :
    sampled (ofBroadcaster (⟨i, e, r, s, after⟩ :: log)) = sampled (ofBroadcaster log) := by
  rw [ofBroadcaster, historyOf_cons]
  split
  · rename_i own
    rcases other with not_ | not_
    · exact absurd own not_
    · cases e with
      | backend e => cases e <;> first | rfl | exact absurd rfl not_
      | _ => rfl
  · rfl

structure Sampling (s : StateShared) (log : StateLog) : Prop where
  latest : ∀ seen, s.backend.latest = some seen → (arrivals log).head? = some seen.snapshot.gameId
  order : (ids (sampled (ofBroadcaster log))).Pairwise (· ≥ ·)
  arrived : ∀ id ∈ ids (sampled (ofBroadcaster log)), id ∈ arrivals log

theorem ids_sample (latest : Option Received) (samples : List (Option GameSnapshot)) :
    ids (latest.map Received.snapshot :: samples) = ids samples ∨
      ∃ seen, latest = some seen ∧
        ids (latest.map Received.snapshot :: samples) = seen.snapshot.gameId :: ids samples := by
  cases latest with
  | none => exact .inl rfl
  | some seen =>
    by_cases noGame : seen.snapshot.gameId = 0
    · exact .inl (ids_noGame noGame samples)
    · exact .inr ⟨seen, rfl, ids_game noGame samples⟩

section Steps

variable {s after : StateShared} {log : StateLog}

theorem Sampling.sample (sampling : Sampling s log) (forward : (arrivals log).Pairwise (· ≥ ·)) :
    Sampling s (⟨.backend .broadcaster, .backend .latestState, s.backend.latest, s, s⟩ :: log) := by
  have same : arrivals (⟨.backend .broadcaster, .backend .latestState, s.backend.latest, s, s⟩ :: log) =
      arrivals log := List.filterMap_cons_none rfl
  have now : sampled (ofBroadcaster (⟨.backend .broadcaster, .backend .latestState, s.backend.latest, s, s⟩ :: log)) =
      s.backend.latest.map Received.snapshot :: sampled (ofBroadcaster log) := rfl
  rcases ids_sample s.backend.latest (sampled (ofBroadcaster log)) with quiet | ⟨seen, shown, new⟩
  · refine ⟨same ▸ sampling.latest, ?_, ?_⟩
    · rw [now, quiet]
      exact sampling.order
    · rw [now, quiet, same]
      exact sampling.arrived
  · obtain ⟨older, newest⟩ := List.head?_eq_some_iff.mp (sampling.latest seen shown)
    refine ⟨same ▸ sampling.latest, ?_, ?_⟩
    · rw [now, new, List.pairwise_cons]
      refine ⟨fun id member => ?_, sampling.order⟩
      have arrived := sampling.arrived id member
      rw [newest] at arrived forward
      rcases List.mem_cons.mp arrived with rfl | earlier
      · exact Int.le_refl _
      · exact (List.pairwise_cons.mp forward).1 id earlier
    · intro id member
      rw [now, new] at member
      rw [same]
      rcases List.mem_cons.mp member with rfl | earlier
      · rw [newest]
        exact List.mem_cons_self
      · exact sampling.arrived id earlier

theorem Sampling.other (sampling : Sampling s log) {i : StateTask} {e : StateEffect} {r : StateAnswer e}
    (unread : i ≠ .backend .broadcaster ∨ e ≠ .backend .latestState)
    (latest : ∀ seen, after.backend.latest = some seen →
      (arrivals (⟨i, e, r, s, after⟩ :: log)).head? = some seen.snapshot.gameId) :
    Sampling after (⟨i, e, r, s, after⟩ :: log) := by
  have later : ∀ id ∈ arrivals log, id ∈ arrivals (⟨i, e, r, s, after⟩ :: log) := by
    intro id member
    obtain ⟨x, logged, arrived⟩ := List.mem_filterMap.mp member
    exact List.mem_filterMap.mpr ⟨x, List.mem_cons_of_mem _ logged, arrived⟩
  refine ⟨latest, ?_, ?_⟩
  · rw [sampled_other unread]
    exact sampling.order
  · rw [sampled_other unread]
    exact fun id member => later id (sampling.arrived id member)

theorem Sampling.entry (sampling : Sampling s log) (forward : (arrivals log).Pairwise (· ≥ ·)) {i : StateTask}
    {e : StateEffect} {r : StateAnswer e} (replies : s.Replies i e r after) :
    Sampling after (⟨i, e, r, s, after⟩ :: log) := by
  by_cases reads : i = .backend .broadcaster ∧ e = .backend .latestState
  · obtain ⟨rfl, rfl⟩ := reads
    obtain ⟨backend, ⟨rfl, rfl⟩, rfl⟩ := replies
    exact sampling.sample forward
  · have unread : i ≠ .backend .broadcaster ∨ e ≠ .backend .latestState := not_and_or.mp reads
    apply sampling.other unread
    intro seen shown
    by_cases sets : ∃ latest, e = .backend (.setLatest latest)
    · obtain ⟨latest, rfl⟩ := sets
      obtain ⟨backend, replies, rfl⟩ := replies
      cases latest with
      | none =>
        cases replies
        cases shown
      | some received =>
        cases replies
        cases shown
        rfl
    · have quiet : ∀ latest, e ≠ .backend (.setLatest latest) := not_exists.mp sets
      rw [replies.sameLatest quiet] at shown
      rw [show arrivals (⟨i, e, r, s, after⟩ :: log) = arrivals log from List.filterMap_cons_none (arrivedId_none quiet)]
      exact sampling.latest seen shown

end Steps

theorem run_sampling (store : MappingStore) (events : List (StateTask × StateChoice))
    (forward : (arrivals (stateRun store events).log).Pairwise (· ≥ ·)) :
    Sampling (stateRun store events).shared (stateRun store events).log := by
  revert forward
  apply stateContract.run_log { backend := { store } }
    (P := fun s log => (arrivals log).Pairwise (· ≥ ·) → Sampling s log)
  · exact fun _ => ⟨fun seen shown => (by cases shown), .nil, fun id member => absurd member List.not_mem_nil⟩
  · rintro ⟨i, e, r, s, after⟩ log before ⟨c, replied⟩ _ forward
    have older : (arrivals log).Pairwise (· ≥ ·) := forward.sublist ((List.sublist_cons_self _ log).filterMap _)
    exact (before older).entry older (StateShared.reply_cases replied)

theorem mem_of_changes {id : Int} {samples : List Int} (member : id ∈ changes samples) : id ∈ samples := by
  fun_induction changes samples with
  | case1 before older ih => exact List.mem_cons_of_mem _ (ih member)
  | case2 newest before older _ ih =>
    rcases List.mem_cons.mp member with rfl | earlier
    · exact List.mem_cons_self
    · exact List.mem_cons_of_mem _ (ih earlier)
  | case3 => cases member

theorem changes_ascend {samples : List Int} (forward : samples.Pairwise (· ≥ ·)) :
    (changes samples).Pairwise (· > ·) := by
  fun_induction changes samples with
  | case1 before older ih => exact ih forward.tail
  | case2 newest before older other ih =>
    rw [List.pairwise_cons] at forward ⊢
    refine ⟨fun id member => ?_, ih forward.2⟩
    have next : newest ≥ before := forward.1 before List.mem_cons_self
    have past : before ≥ id := by
      rcases List.mem_cons.mp (mem_of_changes member) with rfl | earlier
      · exact Int.le_refl _
      · exact (List.pairwise_cons.mp forward.2).1 id earlier
    omega
  | case3 => exact .nil

theorem dealt_sublist (h : History StateAnswer) : (dealt h).Sublist (sampled h) := by
  unfold dealt
  split
  · exact List.sublist_cons_self _ _
  · exact List.tail_sublist _
  · exact List.Sublist.refl _

/-- As long as snapshots arrive in the order of their games, the claims of each game are cleared away at most once:
    `on_new_game` is called with ever greater ids. -/
theorem games_cleared_once (store : MappingStore) (events : List (StateTask × StateChoice))
    (forward : (arrivals (stateRun store events).log).Pairwise (· ≥ ·)) :
    (newGameCalls (ofBroadcaster (stateRun store events).log)).Pairwise (· > ·) := by
  have order := (run_sampling store events forward).order
  rw [run_tracked.calls, (Detector.after_ids _).2]
  apply changes_ascend
  exact order.sublist ((dealt_sublist _).filterMap _)

def twoGames : List (StateTask × StateChoice) := secondGame ++ loopRound 3 [0] ++ loopRound 1 [0]

theorem games_cleared_once_twoGames :
    newGameCalls (ofBroadcaster (stateRun .empty twoGames).log) = [2] ∧
      (newGameCalls (ofBroadcaster (stateRun .empty twoGames).log)).Pairwise (· > ·) :=
  ⟨by decide +kernel, games_cleared_once .empty twoGames (by decide +kernel)⟩

end WebControl.Backend
