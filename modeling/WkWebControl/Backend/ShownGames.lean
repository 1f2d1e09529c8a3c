import WkWebControl.Backend.Rounds

open Effects WebControl

namespace WebControl.Backend

def shows (x : Entry StateTask StateAnswer StateShared) : Option Received :=
  match x.effect with
  | .sendState _ msg => msg
  | .sendLatest _ | .respondState => x.before.backend.latest
  | _ => none

/-- `x` shows a game only if `on_new_game` has run for it last, or if it is the first the broadcaster
    has seen, and none has come after it. -/
def ShownInTurn (x : Entry StateTask StateAnswer StateShared) : Prop :=
  ∀ r ∈ shows x, r.snapshot.gameId ≠ 0 → x.before.newGames.head? = some r.snapshot.gameId ∨
    x.before.newGames = [] ∧ ∀ first ∈ x.before.first, first = r.snapshot.gameId

instance (x : Entry StateTask StateAnswer StateShared) : Decidable (ShownInTurn x) :=
  inferInstanceAs (Decidable (∀ r ∈ shows x, _))

/-- A browser that connects or asks for the snapshot gets none that the broadcaster has still to
    take for a new game: its id is `_last_game_id`, unless that is still unset, and no `on_new_game` is
    under way. -/
def NoGap (x : Entry StateTask StateAnswer StateShared) (older : StateLog) : Prop :=
  match x.effect with
  | .sendLatest _ | .respondState => ∀ r ∈ x.before.backend.latest, r.snapshot.gameId ≠ 0 →
      x.before.backend.lastGameId = 0 ∨
        x.before.backend.lastGameId = r.snapshot.gameId ∧ clearing (ofBroadcaster older) = false
  | _ => True

instance (x : Entry StateTask StateAnswer StateShared) (older : StateLog) : Decidable (NoGap x older) := by
  rcases x with ⟨thread, effect, reply, before, after⟩
  cases effect <;> dsimp only [NoGap] <;> infer_instance

def grants (x : Entry StateTask StateAnswer StateShared) : Option Mapping :=
  match x.step with
  | ⟨.backend (.claim team email _), granted⟩ =>
    if granted then some ⟨team, Python.lower email⟩ else none
  | _ => none

def ownRow (x : Entry StateTask StateAnswer StateShared) : Option Mapping :=
  match x.step with
  | ⟨.ownTeam email, team⟩ => team.map fun team => ⟨team, Python.lower email⟩
  | _ => none

/-- What `y` answers from was granted after the newest `on_new_game` before `x`, and that one ran for
    the game `x` shows. -/
def ClaimOfShown (y x : Entry StateTask StateAnswer StateShared) (middle older : StateLog) : Prop :=
  ∀ r ∈ shows x, r.snapshot.gameId ≠ 0 → x.before.newGames ≠ [] → ∀ row ∈ ownRow y,
    ∃ since newGame before, older = since ++ newGame :: before ∧
      announced newGame = some r.snapshot.gameId ∧ (∀ z ∈ since, announced z = none) ∧
      ∃ c ∈ middle ++ x :: since, grants c = some row

theorem Followed.come {s : StateShared} {older : StateLog} (followed : Followed s older) {gameId : Int}
    (same : s.backend.lastGameId = 0 ∨
      s.backend.lastGameId = gameId ∧ clearing (ofBroadcaster older) = false) :
    s.newGames.head? = some gameId ∨ s.newGames = [] ∧ ∀ first ∈ s.first, first = gameId := by
  by_cases unset : s.backend.lastGameId = 0
  · have unseen := followed.seen.mpr unset
    refine .inr ⟨followed.unseen unseen, fun first sees => ?_⟩
    cases unseen.symm.trans sees
  · obtain ⟨rfl, idle⟩ := same.resolve_left unset
    have current := followed.current idle unset
    rw [StateShared.current] at current
    cases games : s.newGames with
    | nil =>
      rw [games] at current
      exact .inr ⟨rfl, fun first sees => Option.some.inj (sees.symm.trans current)⟩
    | cons newest games' =>
      rw [games] at current
      exact .inl current

theorem Followed.inTurn {x : Entry StateTask StateAnswer StateShared} {older : StateLog}
    (followed : Followed x.before older)
    (permitted : statePermits x.thread (historyOf x.thread older) x.effect) (noGap : NoGap x older) :
    ShownInTurn x := by
  intro r shown real
  rcases x with ⟨i, e, reply, s, after⟩
  cases e with
  | sendState n msg =>
    by_cases own : i = .backend .broadcaster
    · subst own
      obtain ⟨idle, detected⟩ := permitted
      exact followed.come (.inr ⟨(followed.known _ (detected r shown real)).symm, idle⟩)
    · exact (harmless_of_permits own permitted).elim
  | sendLatest n => exact followed.come (noGap r shown real)
  | respondState => exact followed.come (noGap r shown real)
  | _ => cases shown

theorem rows_of_entry {s after : StateShared} {i : StateTask} {e : StateEffect} {r : StateAnswer e}
    (replies : s.Replies i e r after) {row : Mapping} (member : row ∈ after.backend.store.rows) :
    row ∈ s.backend.store.rows ∨ grants ⟨i, e, r, s, after⟩ = some row := by
  cases e with
  | backend e =>
    obtain ⟨backend, replies, rfl⟩ := replies
    change row ∈ backend.store.rows at member
    cases e with
    | claim team email seen =>
      obtain ⟨granted, after⟩ := replies
      cases r with
      | false =>
        rw [after] at member
        exact .inl member
      | true =>
        rw [after] at member
        rcases (MappingStore.mem_claim granted.symm).mp member with rfl | old
        · exact .inr rfl
        · exact .inl old
    | deleteMapping team =>
      rw [show backend = _ from replies] at member
      exact .inl (MappingStore.mem_deleteMapping.mp member).1
    | clearAll =>
      rw [show backend = _ from replies] at member
      cases member
    | lastGameId seen =>
      rw [replies.2] at member
      split at member <;> exact .inl member
    | latestState | emailForTeam | teamForEmail | sendCommand =>
      rw [replies.2] at member
      exact .inl member
    | setLatest latest => cases latest <;> cases replies <;> exact .inl member
    | _ =>
      cases replies
      exact .inl member
  | ownTeam email =>
    obtain ⟨-, rfl⟩ := replies
    exact .inl member
  | _ =>
    obtain ⟨clients, rfl⟩ := replies
    exact .inl member

theorem rows_of_leads {s t : StateShared} {log : StateLog} (leads : Leads s log t)
    (answered : ∀ x ∈ log, stateSystem.Answered x) {row : Mapping}
    (member : row ∈ t.backend.store.rows) :
    row ∈ s.backend.store.rows ∨ ∃ c ∈ log, grants c = some row := by
  induction log generalizing t with
  | nil =>
    rw [show t = s from leads] at member
    exact .inl member
  | cons x log ih =>
    obtain ⟨rfl, before⟩ := leads
    obtain ⟨c, replied⟩ := answered x List.mem_cons_self
    rcases x with ⟨i, e, r, u, after⟩
    rcases rows_of_entry (StateShared.reply_cases replied) member with old | granted
    · rcases ih before (fun y m => answered y (.tail _ m)) old with older | ⟨c, m, granted⟩
      · exact .inl older
      · exact .inr ⟨c, .tail _ m, granted⟩
    · exact .inr ⟨_, List.mem_cons_self, granted⟩

theorem rows_of_announced {x : Entry StateTask StateAnswer StateShared}
    (answered : stateSystem.Answered x) {gameId : Int} (new : announced x = some gameId) :
    x.after.backend.store.rows = [] := by
  obtain ⟨c, replied⟩ := answered
  have replies := StateShared.reply_cases replied
  rcases x with ⟨i, e, r, s, after⟩
  unfold announced at new
  split at new
  · rename_i effect
    cases effect
    obtain ⟨backend, cleared, same⟩ := replies
    change after.backend.store.rows = []
    rw [show after = _ from same, show backend = _ from cleared]
    rfl
  · cases new

theorem row_of_ownRow {x : Entry StateTask StateAnswer StateShared}
    (answered : stateSystem.Answered x) {row : Mapping} (own : ownRow x = some row) :
    row ∈ x.before.backend.store.rows := by
  obtain ⟨c, replied⟩ := answered
  have replies := StateShared.reply_cases replied
  rcases x with ⟨i, e, r, s, after⟩
  cases e with
  | ownTeam email =>
    obtain ⟨found, -⟩ := replies
    obtain ⟨team, same, rfl⟩ := Option.map_eq_some_iff.mp own
    exact MappingStore.teamForEmail_eq_some.mp (found.symm.trans same)
  | _ => cases own

/-- As long as no browser falls into the gap between a new game and the broadcaster's round: once
    the broadcaster has seen an id, no client is sent another one before `on_new_game` has run for
    it, and whoever asks `/api/me` after that gets no claim from before. -/
theorem shown_inTurn (store : MappingStore) (events : List (StateTask × StateChoice))
    (noGap : Program.Along NoGap (stateRun store events).log) :
    (∀ x ∈ (stateRun store events).log, ShownInTurn x) ∧
    ∀ (newest middle older : StateLog) (y x : Entry StateTask StateAnswer StateShared),
      (stateRun store events).log = newest ++ y :: (middle ++ x :: older) →
      ClaimOfShown y x middle older := by
  have inTurn {newer older : StateLog} {x : Entry StateTask StateAnswer StateShared}
      (split : (stateRun store events).log = newer ++ x :: older) :
      ShownInTurn x ∧ x.before.newGames = older.filterMap announced := by
    obtain ⟨followed, _, permitted⟩ := followed_entry split
    rw [split] at noGap
    exact ⟨followed.inTurn permitted noGap.of_append.head, followed.newGames⟩
  constructor
  · intro x member
    obtain ⟨newer, older, split⟩ := List.append_of_mem member
    exact (inTurn split).1
  · intro newest middle older y x split r shown real some_new row own
    obtain ⟨turn, games⟩ := inTurn (show (stateRun store events).log = (newest ++ y :: middle) ++ x :: older
      by rw [split]; simp)
    have head := (turn r shown real).resolve_right fun first => some_new first.1
    obtain ⟨rest, cons⟩ := List.head?_eq_some_iff.mp head
    obtain ⟨since, k, before, rfl, quiet, new, -⟩ :=
      List.filterMap_eq_cons_iff.mp (games.symm.trans cons)
    refine ⟨since, k, before, rfl, new, quiet, ?_⟩
    have whole : middle ++ x :: (since ++ k :: before) = (middle ++ x :: since) ++ k :: before := by
      simp
    have leads := stateSystem.run_leads { backend := { store } } events
    change Leads _ (stateRun store events).log (stateRun store events).shared at leads
    have answered : ∀ z ∈ (stateRun store events).log, stateSystem.Answered z :=
      fun z member => stateContract.run_mem _ events member
    rw [split, whole] at leads answered
    obtain ⟨_, ⟨rfl, read⟩, -⟩ := leads.split
    obtain ⟨start, cleared, between⟩ := read.split
    have asked := row_of_ownRow (answered y (by simp)) own
    have meanwhile : ∀ z ∈ middle ++ x :: since, stateSystem.Answered z := fun z member =>
      answered z (List.mem_append_right _ (.tail _ (List.mem_append_left _ member)))
    -- the newest `on_new_game` has left no row, so the row was inserted after it
    rcases rows_of_leads between meanwhile asked with old | granted
    · rw [← cleared.1, rows_of_announced (answered k (by simp)) new] at old
      cases old
    · exact granted

def onBackend (events : List (Task × Choice)) : List (StateTask × StateChoice) :=
  events.map fun event => (.backend event.1, .backend event.2)

def loopRound (looks : Nat) (clients : List Nat) : List (StateTask × StateChoice) :=
  onBackend ((.broadcaster, .go) :: List.replicate looks (.broadcaster, .go)) ++
    [(.backend .broadcaster, .order clients)] ++
    onBackend (List.replicate (clients.length + 1) (.broadcaster, .go))

def watches (n : Nat) (u : User) : List (StateTask × StateChoice) :=
  [(.stateSocket n, .backend (.user u)), (.stateSocket n, .backend .go),
   (.stateSocket n, .backend .go)]

def asksMe (n : Nat) (u : User) : List (StateTask × StateChoice) :=
  [(.me n, .backend (.user u)), (.me n, .backend .go)]

/-- In game 1, which the broadcaster has seen, alice watches and claims a team; then game 2
    arrives. -/
def secondGame : List (StateTask × StateChoice) :=
  onBackend (connects ++ arrives 0 (gameOn 1 (some 0))) ++ loopRound 2 [] ++ watches 0 alice ++
    onBackend (requests 0 alice ++ arrives 0 (gameOn 2 none))

/-- After the round for game 2 alice asks for her team; WA restarts and counts from 1 again, and bob
    connects after the round for that. -/
def countsAnew : List (StateTask × StateChoice) :=
  secondGame ++ loopRound 3 [0] ++ asksMe 0 alice ++ onBackend (arrives 1 (gameOn 1 none)) ++
    loopRound 3 [0] ++ watches 1 bob ++ asksMe 1 bob

theorem shown_inTurn_countsAnew :
    (∀ x ∈ (stateRun .empty countsAnew).log, ShownInTurn x) ∧
    ∀ (newest middle older : StateLog) (y x : Entry StateTask StateAnswer StateShared),
      (stateRun .empty countsAnew).log = newest ++ y :: (middle ++ x :: older) →
      ClaimOfShown y x middle older :=
  shown_inTurn .empty countsAnew (by decide +kernel)

/-- alice connects anew before the round, is shown game 2, and still owns her team of game 1. -/
theorem shown_early :
    ¬ ∀ (store : MappingStore) (events : List (StateTask × StateChoice)),
      (∀ x ∈ (stateRun store events).log, ShownInTurn x) ∧
      ∀ (newest middle older : StateLog) (y x : Entry StateTask StateAnswer StateShared),
        (stateRun store events).log = newest ++ y :: (middle ++ x :: older) →
        ClaimOfShown y x middle older := by
  intro always
  have inTurn := (always .empty (secondGame ++ watches 1 alice ++ asksMe 0 alice)).1
  revert inTurn
  decide +kernel

end WebControl.Backend
