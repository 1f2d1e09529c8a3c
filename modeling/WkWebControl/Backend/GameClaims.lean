import WkWebControl.Backend.TurnGating

open Effects WebControl

namespace WebControl.Backend

def Shared.restart (s : Shared) : Shared where
  store := s.store
  ghost := { s.ghost with processed := none }

/-- The states a backend starts in: the first time without a file, later on the file that the life
    before has left behind. -/
inductive Begins : Shared → Prop where
  | first : Begins {}
  | restarted {s : Shared} (begins : Begins s) (events : List (Task × Choice)) :
      Begins (run s events).shared.restart

theorem Begins.fresh {s : Shared} (begins : Begins s) : s.latest = none ∧ s.ghost.processed = none := by
  cases begins <;> exact ⟨rfl, rfl⟩

def InOrder (x : Entry Task Answer Shared) : Prop :=
  match x.effect with
  | .setLatest (some r) => ∀ g ∈ x.before.ghost.arrived, g ≤ r.game
  | _ => True

instance (x : Entry Task Answer Shared) : Decidable (InOrder x) := by
  unfold InOrder
  split <;> infer_instance

def Shared.Stale (s : Shared) (g : Game) : Prop :=
  ∃ row ∈ s.store.rows, s.ghost.granted row.teamNumber ≠ some g

instance (s : Shared) (g : Game) : Decidable (s.Stale g) :=
  inferInstanceAs (Decidable (∃ row ∈ s.store.rows, _))

/-- The three places where claims and games are brought together see the same game. The broadcaster
    looks at a snapshot while there are claims of another game only with an id in mind that differs
    from the snapshot's; a claim is granted on the game that is still the newest; and a claimed team
    is looked up only for the newest game, and only when the broadcaster is through with it. -/
def InStep (x : Entry Task Answer Shared) : Prop :=
  match x.effect with
  | .lastGameId seen => x.before.Stale seen.game →
      x.before.lastGameId ≠ 0 ∧ x.before.lastGameId ≠ seen.snapshot.gameId
  | .claim team email seen => (x.before.store.claim team email).1 = true →
      x.before.ghost.arrived = some seen.game
  | .emailForTeam team seen => x.before.store.emailForTeam team ≠ none →
      x.before.ghost.arrived = some seen.game ∧ x.before.ghost.processed = some seen.game
  | _ => True

instance (x : Entry Task Answer Shared) : Decidable (InStep x) := by
  unfold InStep
  split <;> infer_instance

/-- `g` is not ahead of the snapshots, and as long as it is the newest game all claims are of it. -/
def Shared.Clean (s : Shared) (g : Game) : Prop :=
  (∃ newest, s.ghost.arrived = some newest ∧ g ≤ newest) ∧
  (s.ghost.arrived = some g → ∀ row ∈ s.store.rows, s.ghost.granted row.teamNumber = some g)

theorem Shared.Replies.tables {s after : Shared} {e : Effect} {r : Answer e}
    (replies : s.Replies e r after) :
    (after.store = s.store ∧ after.ghost.granted = s.ghost.granted ∧
      after.ghost.arrived = s.ghost.arrived) ∨
    (∃ received, e = .setLatest (some received) ∧ after.store = s.store ∧
      after.ghost.granted = s.ghost.granted ∧ after.ghost.arrived = some received.game) ∨
    (∃ team email seen, e = .claim team email seen ∧ (s.store.claim team email).1 = true ∧
      after.store = (s.store.claim team email).2 ∧
      after.ghost.granted = Function.update s.ghost.granted team (some seen.game) ∧
      after.ghost.arrived = s.ghost.arrived) ∨
    ((∃ team, e = .deleteMapping team ∧ after.store = s.store.deleteMapping team) ∨
        e = .clearAll ∧ after.store = s.store.clearAll) ∧
      after.ghost.granted = s.ghost.granted ∧ after.ghost.arrived = s.ghost.arrived := by
  cases e with
  | claim team email seen =>
    obtain ⟨granted, rfl⟩ := replies
    cases r with
    | true => exact .inr (.inr (.inl ⟨team, email, seen, rfl, granted.symm, rfl, rfl, rfl⟩))
    | false => exact .inl ⟨rfl, rfl, rfl⟩
  | setLatest latest =>
    cases latest with
    | none => cases replies; exact .inl ⟨rfl, rfl, rfl⟩
    | some received => cases replies; exact .inr (.inl ⟨received, rfl, rfl, rfl, rfl⟩)
  | deleteMapping team => cases replies; exact .inr (.inr (.inr ⟨.inl ⟨team, rfl, rfl⟩, rfl, rfl⟩))
  | clearAll => cases replies; exact .inr (.inr (.inr ⟨.inr ⟨rfl, rfl⟩, rfl, rfl⟩))
  | lastGameId seen =>
    obtain ⟨_, rfl⟩ := replies
    left
    split <;> exact ⟨rfl, rfl, rfl⟩
  | latestState | emailForTeam | teamForEmail | sendCommand =>
    obtain ⟨_, rfl⟩ := replies
    exact .inl ⟨rfl, rfl, rfl⟩
  | _ => cases replies; exact .inl ⟨rfl, rfl, rfl⟩

theorem MappingStore.granted_row {s : MappingStore} {team : Int} {email : String}
    (granted : Int → Option Game) (game : Game) (free : (s.claim team email).1 = true)
    {row : Mapping} (member : row ∈ (s.claim team email).2.rows) :
    row = ⟨team, Python.lower email⟩ ∧
        Function.update granted team (some game) row.teamNumber = some game ∨
      row ∈ s.rows ∧
        Function.update granted team (some game) row.teamNumber = granted row.teamNumber := by
  rcases (MappingStore.mem_claim free).mp member with rfl | old
  · exact .inl ⟨rfl, Function.update_self ..⟩
  · exact .inr ⟨old, Function.update_of_ne (((MappingStore.claim_fst ..).mp free) row old).1 ..⟩

theorem Shared.Clean.step {x : Entry Task Answer Shared} {g : Game} (clean : x.before.Clean g)
    (answered : system.Answered x) (order : InOrder x) (inStep : InStep x) : x.after.Clean g := by
  obtain ⟨⟨newest, arrived, upTo⟩, rows⟩ := clean
  rcases x with ⟨thread, effect, reply, before, after⟩
  rcases (answered_replies answered rfl).tables with ⟨store, granted, same⟩ |
    ⟨received, rfl, store, granted, now⟩ | ⟨team, email, seen, rfl, free, store, granted, same⟩ |
    ⟨change, granted, same⟩
  · unfold Shared.Clean
    rw [store, granted, same]
    exact ⟨⟨newest, arrived, upTo⟩, rows⟩
  · have later : newest ≤ received.game := order newest arrived
    refine ⟨⟨received.game, now, upTo.trans later⟩, fun current row member => ?_⟩
    rw [now, Option.some.injEq] at current
    have still : newest = g := le_antisymm (later.trans_eq current) upTo
    rw [store] at member
    rw [granted]
    exact rows (arrived.trans (congrArg some still)) row member
  · refine ⟨⟨newest, same.trans arrived, upTo⟩, fun current row member => ?_⟩
    rw [same] at current
    have game : seen.game = g := Option.some.inj ((inStep free).symm.trans current)
    rw [store] at member
    rw [granted, game]
    rcases MappingStore.granted_row before.ghost.granted g free member with
      ⟨_, new⟩ | ⟨old, kept⟩
    · exact new
    · exact kept.trans (rows current row old)
  · refine ⟨⟨newest, same.trans arrived, upTo⟩, fun current row member => ?_⟩
    rw [granted]
    rw [same] at current
    apply rows current row
    rcases change with ⟨team, _, store⟩ | ⟨_, store⟩
    · rw [store] at member
      exact (MappingStore.mem_deleteMapping.mp member).1
    · rw [store] at member
      cases member

def newestSeen : History Answer → Option Received
  | [] => none
  | ⟨.latestState, seen⟩ :: _ => seen
  | _ :: h => newestSeen h

/-- The snapshot whose game the broadcaster has just brought the table in step with. -/
def settledSeen : History Answer → Option Received
  | ⟨.clearAll, _⟩ :: h => newestSeen h
  | ⟨.lastGameId seen, last⟩ :: _ =>
    if last = (0 : Int) ∨ last = seen.snapshot.gameId then some seen else none
  | _ => none

structure GamesKept (s : Shared) (log : Log) : Prop where
  latest : ∀ r, s.latest = some r → s.ghost.arrived = some r.game
  seen : ∀ r, newestSeen (historyOf .broadcaster log) = some r →
    ∃ newest, s.ghost.arrived = some newest ∧ r.game ≤ newest
  settled : ∀ r, settledSeen (historyOf .broadcaster log) = some r → s.Clean r.game
  processed : ∀ g, s.ghost.processed = some g → s.Clean g

theorem Shared.Replies.arrived_mono {s after : Shared} {e : Effect} {r : Answer e} {a : Game}
    (replies : s.Replies e r after) (arrived : s.ghost.arrived = some a)
    (order : ∀ received, e = .setLatest (some received) → a ≤ received.game) :
    ∃ b, after.ghost.arrived = some b ∧ a ≤ b := by
  rcases replies.tables with ⟨_, _, same⟩ | ⟨received, rfl, _, _, now⟩ | ⟨_, _, _, _, _, _, _, same⟩ |
    ⟨_, _, same⟩
  · exact ⟨a, same.trans arrived, le_rfl⟩
  · exact ⟨received.game, now, order received rfl⟩
  · exact ⟨a, same.trans arrived, le_rfl⟩
  · exact ⟨a, same.trans arrived, le_rfl⟩

theorem Shared.Replies.latest {s after : Shared} {e : Effect} {r : Answer e}
    (replies : s.Replies e r after) (current : ∀ r, s.latest = some r → s.ghost.arrived = some r.game) :
    ∀ r, after.latest = some r → after.ghost.arrived = some r.game := by
  cases e with
  | claim team email seen =>
    obtain ⟨_, rfl⟩ := replies
    cases r <;> exact current
  | setLatest latest =>
    cases latest with
    | none => cases replies; exact fun _ none => nomatch none
    | some received =>
      cases replies
      intro r same
      cases same
      rfl
  | lastGameId seen =>
    obtain ⟨_, rfl⟩ := replies
    split <;> exact current
  | latestState | emailForTeam | teamForEmail | sendCommand =>
    obtain ⟨_, rfl⟩ := replies
    exact current
  | _ => cases replies; exact current

theorem Shared.Replies.processed {s after : Shared} {e : Effect} {r : Answer e}
    (replies : s.Replies e r after) :
    after.ghost.processed = s.ghost.processed ∨
    ∃ seen, after.ghost.processed = some seen.game ∧
      (e = .lastGameId seen ∧ seen.snapshot.gameId = s.lastGameId ∨ e = .setLastGameId seen) := by
  cases e with
  | claim team email seen =>
    obtain ⟨_, rfl⟩ := replies
    cases r <;> exact .inl rfl
  | setLatest latest => cases latest <;> cases replies <;> exact .inl rfl
  | lastGameId seen =>
    obtain ⟨rfl, rfl⟩ := replies
    split
    · rename_i same
      exact .inr ⟨seen, rfl, .inl ⟨rfl, same⟩⟩
    · exact .inl rfl
  | setLastGameId seen => cases replies; exact .inr ⟨seen, rfl, .inr rfl⟩
  | latestState | emailForTeam | teamForEmail | sendCommand =>
    obtain ⟨_, rfl⟩ := replies
    exact .inl rfl
  | _ => cases replies; exact .inl rfl

theorem newestSeen_cons {s : Step Answer} (h : History Answer)
    (other : ∀ seen, s ≠ ⟨.latestState, seen⟩) : newestSeen (s :: h) = newestSeen h := by
  rcases s with ⟨e, r⟩
  cases e with
  | latestState => exact absurd rfl (other r)
  | _ => rfl

theorem Shared.Clean.of_not_stale {s : Shared} {g : Game} (fresh : ¬ s.Stale g)
    (upTo : ∃ newest, s.ghost.arrived = some newest ∧ g ≤ newest) : s.Clean g := by
  refine ⟨upTo, fun _ row member => ?_⟩
  by_contra other
  exact fresh ⟨row, member, other⟩

theorem GamesKept.looked {s : Shared} {log : Log} (kept : GamesKept s log) {seen : Received}
    (permitted : broadcasterPermits (historyOf .broadcaster log) (.lastGameId seen))
    (inStep : s.Stale seen.game → s.lastGameId ≠ 0 ∧ s.lastGameId ≠ seen.snapshot.gameId)
    (known : s.lastGameId = 0 ∨ s.lastGameId = seen.snapshot.gameId) : s.Clean seen.game := by
  obtain ⟨rest, eq, _⟩ := permitted
  refine .of_not_stale (fun stale => ?_) (kept.seen seen (by rw [eq]; rfl))
  rcases known with none | same
  · exact (inStep stale).1 none
  · exact (inStep stale).2 same

theorem settledSeen_set {h : History Answer} {seen : Received}
    (permitted : broadcasterPermits h (.setLastGameId seen)) : settledSeen h = some seen := by
  rcases permitted with ⟨rest, ⟨last, rfl, _⟩ | ⟨rfl, _⟩⟩
  · rfl
  · simp [settledSeen]

theorem settledSeen_cons {s : Step Answer} {h : History Answer} {r : Received}
    (settled : settledSeen (s :: h) = some r) :
    s.1 = .clearAll ∧ newestSeen h = some r ∨
    ∃ last : Int, s = ⟨.lastGameId r, last⟩ ∧ (last = 0 ∨ last = r.snapshot.gameId) := by
  rcases s with ⟨e, reply⟩
  cases e with
  | clearAll => exact .inl ⟨rfl, settled⟩
  | lastGameId seen =>
    change (if reply = (0 : Int) ∨ reply = seen.snapshot.gameId then some seen else none) = some r
      at settled
    split at settled
    · rename_i known
      cases settled
      exact .inr ⟨reply, rfl, known⟩
    · cases settled
  | _ => cases settled

theorem GamesKept.seen_step {x : Entry Task Answer Shared} {log : Log}
    (kept : GamesKept x.before log) (answered : system.Answered x) (order : InOrder x) (r : Received)
    (seen : newestSeen (historyOf .broadcaster (x :: log)) = some r) :
    ∃ newest, x.after.ghost.arrived = some newest ∧ r.game ≤ newest := by
  have grown (old : newestSeen (historyOf .broadcaster log) = some r) :
      ∃ newest, x.after.ghost.arrived = some newest ∧ r.game ≤ newest := by
    obtain ⟨a, arrived, upTo⟩ := kept.seen r old
    obtain ⟨b, now, later⟩ := (answered_replies answered rfl).arrived_mono arrived
      fun received eq => by
        unfold InOrder at order
        rw [eq] at order
        exact order a arrived
    exact ⟨b, now, upTo.trans later⟩
  by_cases own : x.thread = .broadcaster
  · rw [← own, historyOf_cons_self, own] at seen
    by_cases look : ∃ state, x.step = ⟨.latestState, state⟩
    · obtain ⟨state, look⟩ := look
      obtain ⟨current, same⟩ := answered_replies answered look
      rw [look] at seen
      rw [same]
      exact ⟨r.game, kept.latest r (current.symm.trans seen), le_rfl⟩
    · rw [newestSeen_cons _ fun state eq => look ⟨state, eq⟩] at seen
      exact grown seen
  · rw [historyOf_cons_other own] at seen
    exact grown seen

theorem GamesKept.settled_step {x : Entry Task Answer Shared} {log : Log}
    (kept : GamesKept x.before log) (answered : system.Answered x)
    (permitted : permits x.thread (historyOf x.thread log) x.effect)
    (order : InOrder x) (inStep : InStep x) (r : Received)
    (settled : settledSeen (historyOf .broadcaster (x :: log)) = some r) : x.after.Clean r.game := by
  by_cases own : x.thread = .broadcaster
  · rw [← own, historyOf_cons_self, own] at settled
    rcases x with ⟨thread, effect, reply, before, after⟩
    cases own
    rcases settledSeen_cons settled with ⟨clear, seen⟩ | ⟨last, look, known⟩
    · cases clear
      have cleared : after = { before with store := before.store.clearAll } :=
        answered_replies answered rfl
      rw [cleared]
      exact ⟨kept.seen r seen, fun _ row member => nomatch member⟩
    · cases look
      obtain ⟨same, _⟩ := answered_replies answered rfl
      rw [same] at known
      exact (kept.looked permitted inStep known).step answered order inStep
  · rw [historyOf_cons_other own] at settled
    exact (kept.settled r settled).step answered order inStep

theorem GamesKept.processed_step {x : Entry Task Answer Shared} {log : Log}
    (kept : GamesKept x.before log) (answered : system.Answered x)
    (permitted : permits x.thread (historyOf x.thread log) x.effect)
    (order : InOrder x) (inStep : InStep x) (g : Game)
    (processed : x.after.ghost.processed = some g) : x.after.Clean g := by
  rcases x with ⟨thread, effect, reply, before, after⟩
  rcases (answered_replies answered rfl).processed with same | ⟨seen, now, ⟨rfl, known⟩ | rfl⟩
  · exact (kept.processed g (same.symm.trans processed)).step answered order inStep
  · cases thread with
    | broadcaster =>
      cases now.symm.trans processed
      exact (kept.looked permitted inStep (.inr known.symm)).step answered order inStep
    | _ => exact permitted.elim
  · cases thread with
    | broadcaster =>
      cases now.symm.trans processed
      exact (kept.settled seen (settledSeen_set permitted)).step answered order inStep
    | _ => exact permitted.elim

theorem GamesKept.begun {s : Shared} (begins : Begins s) : GamesKept s [] where
  latest r latest := by rw [begins.fresh.1] at latest; cases latest
  seen r seen := by cases seen
  settled r settled := by cases settled
  processed g processed := by rw [begins.fresh.2] at processed; cases processed

theorem GamesKept.step {x : Entry Task Answer Shared} {log : Log} (kept : GamesKept x.before log)
    (answered : system.Answered x) (permitted : permits x.thread (historyOf x.thread log) x.effect)
    (order : InOrder x) (inStep : InStep x) : GamesKept x.after (x :: log) where
  latest := (answered_replies answered rfl).latest kept.latest
  seen := kept.seen_step answered order
  settled := kept.settled_step answered permitted order inStep
  processed := kept.processed_step answered permitted order inStep

theorem GamesKept.owner {x : Entry Task Answer Shared} {log : Log} (kept : GamesKept x.before log)
    (answered : system.Answered x) (inStep : InStep x) {team : Int} {seen : Received}
    {email : String} (look : x.step = ⟨.emailForTeam team seen, some email⟩) :
    x.before.ghost.granted team = some seen.game := by
  obtain ⟨found, _⟩ := answered_replies answered look
  rcases x with ⟨thread, effect, reply, before, after⟩
  cases look
  obtain ⟨current, through⟩ := inStep (by rw [← found]; simp)
  exact (kept.processed _ through).2 current _ (MappingStore.emailForTeam_eq_some.mp found.symm)

/-- The claim that lets `cmd` through was granted in the game of the snapshot its sender sees. -/
def ClaimedInGame (n : Nat) (log : Log) (cmd : CommandMessage) : Prop :=
  ∃ (u : User) (team : Int) (seen : Received) (owner : Entry Task Answer Shared) (older : Log),
    Newest (.session n) log owner older ∧ owner.step = ⟨.emailForTeam team seen, some u.email⟩ ∧
    sessionUser (historyOf (.session n) older) = some u ∧ cmd.team = toString team ∧
    owner.before.ghost.granted team = some seen.game

/-- In a life in step with the games, a press goes through only on a claim of its own game. -/
theorem press_claimed_in_game {s : Shared} (begins : Begins s) (events : List (Task × Choice))
    (order : ∀ x ∈ (run s events).log, InOrder x) (inStep : ∀ x ∈ (run s events).log, InStep x)
    {newer older : Log} {x : Entry Task Answer Shared} {cmd : CommandMessage}
    (split : (run s events).log = newer ++ x :: older) (sent : x.step = ⟨.sendCommand cmd, true⟩)
    (press : cmd.phase = .press) : ∃ n, x.thread = .session n ∧ ClaimedInGame n older cmd := by
  have kept := contract.run_log s
    (P := fun s log => (∀ x ∈ log, InOrder x) → (∀ x ∈ log, InStep x) → GamesKept s log ∧
      ∀ x ∈ log, ∀ team seen email, x.step = ⟨.emailForTeam team seen, some email⟩ →
        x.before.ghost.granted team = some seen.game)
    (fun _ _ => ⟨.begun begins, fun _ member => absurd member List.not_mem_nil⟩) ?_ events
  · rcases command_gated_or_released s events split sent with ⟨n, thread, gated | released⟩
    · obtain ⟨u, team, seen, fields, owner, look, got, log₁, log₂, log₃, ⟨newest, step, _⟩,
        ⟨newest₂, step₂, _⟩, ⟨newest₃, step₃⟩, user, onTeam, _⟩ := gated
      refine ⟨n, thread, u, team, seen, owner, log₁, newest, step, ?_, onTeam, ?_⟩
      · rw [newest₂.historyOf, step₂, newest₃.historyOf, step₃]
        exact user
      · refine (kept order inStep).2 owner ?_ team seen u.email step
        obtain ⟨_, between, eq, _⟩ := newest
        change owner ∈ (run s events).log
        rw [split, eq]
        simp
    · have phase := released.1
      rw [press] at phase
      cases phase
  · intro x log before answered permitted order inStep
    obtain ⟨kept, owners⟩ := before (fun y m => order y (.tail _ m)) fun y m => inStep y (.tail _ m)
    have first := order x List.mem_cons_self
    have firstStep := inStep x List.mem_cons_self
    refine ⟨kept.step answered permitted first firstStep, ?_⟩
    intro y member team seen email look
    rcases List.mem_cons.mp member with rfl | member
    · exact kept.owner answered firstStep look
    · exact owners y member team seen email look

def checkedGames (n : Nat) : Log → Option (Option Game × Game)
  | [] => none
  | x :: log =>
    if x.thread = .session n then
      match x.effect with
      | .emailForTeam team seen => some (x.before.ghost.granted team, seen.game)
      | _ => none
    else checkedGames n log

theorem ClaimedInGame.checked {n : Nat} {log : Log} {cmd : CommandMessage}
    (claimed : ClaimedInGame n log cmd) : ∃ g, checkedGames n log = some (some g, g) := by
  obtain ⟨u, team, seen, owner, older, ⟨own, newer, rfl, quiet⟩, step, _, _, granted⟩ := claimed
  refine ⟨seen.game, ?_⟩
  induction newer with
  | nil =>
    obtain ⟨thread, effect, reply, before, after⟩ := owner
    cases own
    cases step
    simp only [List.nil_append, checkedGames, if_true]
    rw [granted]
  | cons x newer ih =>
    have other : x.thread ≠ .session n := by
      intro same
      rw [← same, historyOf_cons_self] at quiet
      cases quiet
    rw [historyOf_cons_other other] at quiet
    rw [List.cons_append, checkedGames, if_neg other]
    exact ih quiet

theorem press_claimed_in_game_first :
    ∃ newer x older, (run {} (opening ++ ticks ++ pressing .moveLeft)).log = newer ++ x :: older ∧
      ∃ n, x.thread = .session n ∧ ClaimedInGame n older ⟨"0", .moveLeft, .press, 0⟩ := by
  obtain ⟨x, older, eq⟩ := List.exists_cons_of_ne_nil (l := (run {} (opening ++ ticks ++ pressing .moveLeft)).log)
    (by decide +kernel)
  have sent : (run {} (opening ++ ticks ++ pressing .moveLeft)).log.head?.bind (fun x => accepted x.step) =
      some ⟨"0", .moveLeft, .press, 0⟩ := by decide +kernel
  rw [eq] at sent
  exact ⟨[], x, older, eq, press_claimed_in_game .first _ (by decide +kernel) (by decide +kernel)
    (show _ = [] ++ x :: older from eq) (step_of_accepted sent) rfl⟩

/-- WA starts again and counts its games from 1: the broadcaster sees the id it has in mind, and the
    claim of the old game 1 lets its owner into the new one. -/
theorem press_on_claim_of_old_process :
    ¬ ∀ (s : Shared), Begins s → ∀ events : List (Task × Choice),
      (∀ x ∈ (run s events).log, InOrder x) →
      ∀ newer x older cmd, (run s events).log = newer ++ x :: older →
        x.step = ⟨.sendCommand cmd, true⟩ → cmd.phase = .press →
        ∃ n, x.thread = .session n ∧ ClaimedInGame n older cmd := by
  intro always
  have claimed := always {} .first (opening ++ ticks ++ drops ++ connects ++
    arrives 1 (gameOn 1 (some 0)) ++ ticks ++ pressing .moveLeft) (by decide +kernel)
  have sent : (run {} (opening ++ ticks ++ drops ++ connects ++ arrives 1 (gameOn 1 (some 0)) ++ ticks ++
      pressing .moveLeft)).log.head?.bind (fun x => accepted x.step) =
        some ⟨"0", .moveLeft, .press, 0⟩ := by decide +kernel
  have games : checkedGames 0 (run {} (opening ++ ticks ++ drops ++ connects ++
      arrives 1 (gameOn 1 (some 0)) ++ ticks ++ pressing .moveLeft)).log.tail =
        some (some (toLex (0, 1)), toLex (1, 1)) := by decide +kernel
  have thread : (run {} (opening ++ ticks ++ drops ++ connects ++
      arrives 1 (gameOn 1 (some 0)) ++ ticks ++ pressing .moveLeft)).log.head?.map (·.thread) =
        some (.session 0) := by decide +kernel
  generalize (run {} _).log = log at claimed sent games thread
  cases log with
  | nil => cases sent
  | cons x older =>
    obtain ⟨n, own, claimed⟩ := claimed [] x older _ rfl (step_of_accepted sent) rfl
    obtain ⟨g, checked⟩ := claimed.checked
    cases (Option.some.inj thread).symm.trans own
    rw [List.tail_cons, checked] at games
    obtain ⟨first, second⟩ := Prod.mk.inj (Option.some.inj games)
    cases first.symm.trans (congrArg some second)

end WebControl.Backend
