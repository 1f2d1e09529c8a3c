import WkWebControl.Backend.GameClaims

open Effects WebControl

namespace WebControl.Backend

structure Begun (s : Shared) (g : Game) : Prop where
  last : s.lastGameId = (ofLex g).2
  real : (ofLex g).2 ≠ 0
  arrived : s.ghost.arrived = some g
  latest : ∀ r, s.latest = some r → r.game = g
  claims : ∀ row ∈ s.store.rows, s.ghost.granted row.teamNumber = some g

/-- All snapshots come from WA process `p`, their ids do not decrease, and no administrator acts. -/
def InSession (p : Nat) (x : Entry Task Answer Shared) : Prop :=
  (match x.effect with
    | .setLatest (some r) => r.process = p ∧ ∀ g ∈ x.before.ghost.arrived, g ≤ r.game
    | _ => True) ∧
  match x.thread with
  | .administrator _ => False
  | _ => True

instance (p : Nat) (x : Entry Task Answer Shared) : Decidable (InSession p x) := by
  rcases x with ⟨thread, effect, reply, before, after⟩
  refine @instDecidableAnd _ _ ?_ ?_
  · cases effect with
    | setLatest latest => cases latest <;> dsimp only <;> infer_instance
    | _ => exact instDecidableTrue
  · cases thread <;> dsimp only <;> infer_instance

/-- A claim is granted only on the game the broadcaster is through with and which is still the
    newest; and a request meets a row only when the broadcaster is through with its game. -/
def AfterTick (x : Entry Task Answer Shared) : Prop :=
  match x.effect with
  | .teamForEmail email seen => x.before.store.teamForEmail email ≠ none →
      seen.snapshot.gameId ≤ x.before.lastGameId
  | .claim team email seen =>
      if (x.before.store.claim team email).1 = true then
        x.before.lastGameId = seen.snapshot.gameId ∧ x.before.ghost.arrived = some seen.game
      else seen.snapshot.gameId ≤ x.before.lastGameId
  | _ => True

instance (x : Entry Task Answer Shared) : Decidable (AfterTick x) := by
  rcases x with ⟨thread, effect, reply, before, after⟩
  cases effect <;> dsimp only [AfterTick] <;> infer_instance

def NotHindered (x : Entry Task Answer Shared) : Prop :=
  match x.step with
  | ⟨.teamForEmail email seen, some _⟩ => ∀ row ∈ x.before.store.rows,
      row.email = Python.lower email → ∃ g, x.before.ghost.granted row.teamNumber = some g ∧
        seen.game ≤ g
  | ⟨.claim team email seen, false⟩ => ∀ row ∈ x.before.store.rows,
      row.teamNumber = team ∨ row.email = Python.lower email →
      ∃ g, x.before.ghost.granted row.teamNumber = some g ∧ seen.game ≤ g
  | _ => True

def lookedId : History Answer → Option Int
  | ⟨.lastGameId _, last⟩ :: _ => some last
  | ⟨.clearAll, _⟩ :: h => lookedId h
  | _ => none

def Clearing : History Answer → Prop
  | ⟨.clearAll, _⟩ :: _ => True
  | _ => False

structure SessionKept (p : Nat) (a : Int) (s : Shared) (log : Log) : Prop where
  arrived : s.ghost.arrived = some (toLex (p, a))
  latest : ∀ r, s.latest = some r → r.game = toLex (p, a)
  behind : s.lastGameId ≤ a
  real : s.lastGameId ≠ 0
  claims : ∀ row ∈ s.store.rows, s.ghost.granted row.teamNumber = some (toLex (p, s.lastGameId))
  seen : ∀ x ∈ log, ∀ r, x.step = ⟨.latestState, some r⟩ → r.process = p ∧ r.snapshot.gameId ≤ a
  hand : ∀ r, newestSeen (historyOf .broadcaster log) = some r →
    s.lastGameId ≤ r.snapshot.gameId ∧ r.snapshot.gameId ≤ a
  looked : ∀ last, lookedId (historyOf .broadcaster log) = some last → last = s.lastGameId
  cleared : Clearing (historyOf .broadcaster log) → s.store.rows = [] ∧ s.lastGameId < a
  granted : ∀ x ∈ log, ∀ team email seen, x.step = ⟨.claim team email seen, true⟩ →
    seen.process = p ∧ seen.snapshot.gameId ≤ a ∧
    (seen.snapshot.gameId = a → s.lastGameId = a ∧ s.store.emailForTeam team = some email)

section Steps

variable {p : Nat} {a : Int} {s : Shared} {log : Log}

theorem Received.game_eq {r : Received} : r.game = toLex (p, a) ↔
    r.process = p ∧ r.snapshot.gameId = a := by
  rw [Received.game, toLex_inj, Prod.mk.injEq]

theorem Received.le_game {r : Received} {g : Game} (le : g ≤ r.game) (process : r.process = (ofLex g).1) :
    (ofLex g).2 ≤ r.snapshot.gameId := by
  rcases Prod.Lex.toLex_le_toLex.mp le with less | ⟨_, le⟩
  · exact absurd (process ▸ less) (lt_irrefl _)
  · exact le

theorem Received.game_le {r : Received} {last : Int} (process : r.process = p)
    (le : r.snapshot.gameId ≤ last) : r.game ≤ toLex (p, last) :=
  Prod.Lex.toLex_le_toLex.mpr (.inr ⟨process, le⟩)

theorem SessionKept.told (kept : SessionKept p a s log) {r : Received} (told : s.latest = some r) :
    r.process = p ∧ r.snapshot.gameId = a :=
  Received.game_eq.mp (kept.latest r told)

theorem SessionKept.other (kept : SessionKept p a s log) {x : Entry Task Answer Shared}
    (other : x.thread ≠ .broadcaster)
    (seen : ∀ r, x.step = ⟨.latestState, some r⟩ → r.process = p ∧ r.snapshot.gameId ≤ a)
    (granted : ∀ team email seen, x.step = ⟨.claim team email seen, true⟩ →
      seen.process = p ∧ seen.snapshot.gameId ≤ a ∧
      (seen.snapshot.gameId = a → s.lastGameId = a ∧ s.store.emailForTeam team = some email)) :
    SessionKept p a s (x :: log) where
  arrived := kept.arrived
  latest := kept.latest
  behind := kept.behind
  real := kept.real
  claims := kept.claims
  seen y member := by
    rcases List.mem_cons.mp member with rfl | old
    · exact seen
    · exact kept.seen y old
  hand := by rw [historyOf_cons_other other]; exact kept.hand
  looked := by rw [historyOf_cons_other other]; exact kept.looked
  cleared := by rw [historyOf_cons_other other]; exact kept.cleared
  granted y member := by
    rcases List.mem_cons.mp member with rfl | old
    · exact granted
    · exact kept.granted y old

def tells : Effect → Bool
  | .latestState | .claim _ _ _ => true
  | _ => false

theorem SessionKept.quiet (kept : SessionKept p a s log) {x : Entry Task Answer Shared}
    (other : x.thread ≠ .broadcaster) (quiet : tells x.effect = false) :
    SessionKept p a s (x :: log) := by
  refine kept.other other (fun r step => ?_) fun team email seen step => ?_ <;>
  · have effect : x.effect = _ := congrArg Sigma.fst step
    rw [effect] at quiet
    cases quiet

theorem SessionKept.tell (kept : SessionKept p a s log) {x : Entry Task Answer Shared}
    (other : x.thread ≠ .broadcaster) (step : x.step = ⟨.latestState, s.latest⟩) :
    SessionKept p a s (x :: log) := by
  refine kept.other other (fun r look => ?_) fun team email seen granted => ?_ <;> rw [step] at *
  · obtain ⟨process, gameId⟩ := kept.told (eq_of_heq (Sigma.mk.inj look).2)
    exact ⟨process, gameId.le⟩
  · cases granted

theorem SessionKept.arrive (kept : SessionKept p a s log) {r : Received} (process : r.process = p)
    (order : toLex (p, a) ≤ r.game) :
    SessionKept p r.snapshot.gameId { s with
      latest := some r, ghost := { s.ghost with arrived := some r.game } } log := by
  have later : a ≤ r.snapshot.gameId := Received.le_game order process
  have game : r.game = toLex (p, r.snapshot.gameId) := by rw [Received.game, process]
  refine ⟨congrArg some game, ?_, kept.behind.trans later, kept.real, kept.claims, ?_, ?_,
    kept.looked, ?_, ?_⟩
  · intro r' same
    cases same
    exact game
  · intro x member r' step
    exact ⟨(kept.seen x member r' step).1, (kept.seen x member r' step).2.trans later⟩
  · intro r' hand
    exact ⟨(kept.hand r' hand).1, (kept.hand r' hand).2.trans later⟩
  · intro clearing
    exact ⟨(kept.cleared clearing).1, (kept.cleared clearing).2.trans_le later⟩
  · intro x member team email seen step
    obtain ⟨same, upTo, stays⟩ := kept.granted x member team email seen step
    refine ⟨same, upTo.trans later, fun newest => ?_⟩
    have still : a = r.snapshot.gameId := le_antisymm later (newest ▸ upTo)
    rw [← still] at newest ⊢
    exact stays newest

theorem SessionKept.claim (kept : SessionKept p a s log) {team : Int} {u : User} {seen : Received}
    (free : (s.store.claim team u.email).1 = true) (through : s.lastGameId = seen.snapshot.gameId)
    (newest : s.ghost.arrived = some seen.game) :
    SessionKept p a { s with
      store := (s.store.claim team u.email).2
      ghost := { s.ghost with
        granted := Function.update s.ghost.granted team (some seen.game) } } log := by
  have game : seen.game = toLex (p, a) := Option.some.inj (newest.symm.trans kept.arrived)
  have current : s.lastGameId = a := through.trans (Received.game_eq.mp game).2
  refine ⟨kept.arrived, kept.latest, kept.behind, kept.real, ?_, kept.seen, kept.hand, kept.looked,
    ?_, ?_⟩
  · intro row member
    rcases MappingStore.granted_row s.ghost.granted seen.game free member with
      ⟨_, new⟩ | ⟨old, same⟩
    · change Function.update s.ghost.granted team (some seen.game) row.teamNumber =
        some (toLex (p, s.lastGameId))
      rw [new, game, current]
    · exact same.trans (kept.claims row old)
  · intro clearing
    exact absurd current (kept.cleared clearing).2.ne
  · intro x member team' email seen' step
    obtain ⟨same, upTo, stays⟩ := kept.granted x member team' email seen' step
    refine ⟨same, upTo, fun last => ⟨current, ?_⟩⟩
    have row := MappingStore.emailForTeam_eq_some.mp (stays last).2
    exact MappingStore.emailForTeam_eq_some.mpr ((MappingStore.mem_claim free).mpr (.inr row))

theorem SessionKept.clear (kept : SessionKept p a s log) (x : Entry Task Answer Shared)
    (own : x.thread = .broadcaster) (step : x.step = ⟨.clearAll, ()⟩) (new : s.lastGameId < a) :
    SessionKept p a { s with store := s.store.clearAll } (x :: log) := by
  have history : historyOf .broadcaster (x :: log) =
      ⟨.clearAll, ()⟩ :: historyOf .broadcaster log := by rw [← own, historyOf_cons_self, step]
  refine ⟨kept.arrived, kept.latest, kept.behind, kept.real, (fun _ row => nomatch row), ?_, ?_,
    ?_, ?_, ?_⟩
  · intro y member r look
    rcases List.mem_cons.mp member with rfl | old
    · rw [step] at look
      cases look
    · exact kept.seen y old r look
  · rw [history]
    exact kept.hand
  · rw [history]
    exact kept.looked
  · exact fun _ => ⟨rfl, new⟩
  · intro y member team email seen granted
    rcases List.mem_cons.mp member with rfl | old
    · rw [step] at granted
      cases granted
    · obtain ⟨same, upTo, stays⟩ := kept.granted y old team email seen granted
      exact ⟨same, upTo, fun last => absurd (stays last).1 new.ne⟩

theorem SessionKept.set (kept : SessionKept p a s log) (x : Entry Task Answer Shared)
    (own : x.thread = .broadcaster) {seen : Received} (step : x.step = ⟨.setLastGameId seen, ()⟩)
    (hand : newestSeen (historyOf .broadcaster log) = some seen) (real : seen.snapshot.gameId ≠ 0)
    (clearing : Clearing (historyOf .broadcaster log)) :
    SessionKept p a { s with
      lastGameId := seen.snapshot.gameId
      ghost := { s.ghost with processed := some seen.game } } (x :: log) := by
  have history : historyOf .broadcaster (x :: log) =
      ⟨.setLastGameId seen, ()⟩ :: historyOf .broadcaster log := by
    rw [← own, historyOf_cons_self, step]
  obtain ⟨empty, new⟩ := kept.cleared clearing
  refine ⟨kept.arrived, kept.latest, (kept.hand seen hand).2, real, ?_, ?_, ?_, ?_, ?_, ?_⟩
  · intro row member
    change row ∈ s.store.rows at member
    rw [empty] at member
    cases member
  · intro y member r look
    rcases List.mem_cons.mp member with rfl | old
    · rw [step] at look
      cases look
    · exact kept.seen y old r look
  · intro r same
    rw [history] at same
    cases hand.symm.trans same
    exact ⟨le_rfl, (kept.hand seen hand).2⟩
  · intro last same
    rw [history] at same
    cases same
  · intro clearing
    rw [history] at clearing
    exact clearing.elim
  · intro y member team email seen granted
    rcases List.mem_cons.mp member with rfl | old
    · rw [step] at granted
      cases granted
    · obtain ⟨same, upTo, stays⟩ := kept.granted y old team email seen granted
      exact ⟨same, upTo, fun last => absurd (stays last).1 new.ne⟩

theorem SessionKept.frame (kept : SessionKept p a s log) {t : Shared} (store : t.store = s.store)
    (granted : t.ghost.granted = s.ghost.granted) (arrived : t.ghost.arrived = s.ghost.arrived)
    (last : t.lastGameId = s.lastGameId) (latest : ∀ r, t.latest = some r → s.latest = some r) :
    SessionKept p a t log := by
  obtain ⟨_, _, behind, real, claims, seen, hand, looked, cleared, kept'⟩ := id kept
  rw [← last] at behind real claims hand looked cleared kept'
  rw [← store] at claims cleared kept'
  rw [← granted] at claims
  exact ⟨arrived.trans kept.arrived, fun r told => kept.latest r (latest r told), behind, real, claims,
    seen, hand, looked, cleared, kept'⟩

theorem SessionKept.look (kept : SessionKept p a s log) {x : Entry Task Answer Shared}
    (own : x.thread = .broadcaster)
    (step : x.step = ⟨.latestState, s.latest⟩ ∨ x.step = ⟨.sleep, ()⟩ ∨
      ∃ seen, x.step = ⟨.lastGameId seen, s.lastGameId⟩) : SessionKept p a s (x :: log) := by
  have history : historyOf .broadcaster (x :: log) = x.step :: historyOf .broadcaster log := by
    rw [← own, historyOf_cons_self]
  refine ⟨kept.arrived, kept.latest, kept.behind, kept.real, kept.claims, ?_, ?_, ?_, ?_, ?_⟩
  · intro y member r look
    rcases List.mem_cons.mp member with rfl | old
    · rcases step with step | step | ⟨seen, step⟩ <;> rw [step] at look
      · obtain ⟨process, gameId⟩ := kept.told (eq_of_heq (Sigma.mk.inj look).2)
        exact ⟨process, gameId.le⟩
      · cases look
      · cases look
    · exact kept.seen y old r look
  · intro r hand
    rw [history] at hand
    rcases step with step | step | ⟨seen, step⟩ <;> rw [step] at hand
    · rw [(kept.told hand).2]
      exact ⟨kept.behind, le_rfl⟩
    · exact kept.hand r hand
    · exact kept.hand r hand
  · intro last looked
    rw [history] at looked
    rcases step with step | step | ⟨seen, step⟩ <;> rw [step] at looked <;> cases looked
    rfl
  · intro clearing
    rw [history] at clearing
    rcases step with step | step | ⟨seen, step⟩ <;> rw [step] at clearing <;> exact clearing.elim
  · intro y member team email seen granted
    rcases List.mem_cons.mp member with rfl | old
    · rcases step with step | step | ⟨seen, step⟩ <;> rw [step] at granted <;> cases granted
    · exact kept.granted y old team email seen granted

theorem SessionKept.broadcaster (kept : SessionKept p a s log) {e : Effect} {r : Answer e}
    {after : Shared} (replies : s.Replies e r after)
    (permitted : broadcasterPermits (historyOf .broadcaster log) e) :
    SessionKept p a after (⟨.broadcaster, e, r, s, after⟩ :: log) := by
  cases e with
  | latestState =>
    obtain ⟨rfl, rfl⟩ := replies
    exact kept.look rfl (.inl rfl)
  | sleep =>
    cases replies
    exact kept.look rfl (.inr (.inl rfl))
  | lastGameId seen =>
    obtain ⟨rfl, rfl⟩ := replies
    refine SessionKept.frame (kept.look rfl (.inr (.inr ⟨seen, rfl⟩))) ?_ ?_ ?_ ?_ ?_ <;>
      split <;> first | rfl | exact fun _ => id
  | clearAll =>
    obtain ⟨seen, last, rest, eq, _, unknown, _⟩ := permitted
    have known : last = s.lastGameId := kept.looked last (by rw [eq]; rfl)
    have hand := kept.hand seen (by rw [eq]; rfl)
    cases replies
    refine kept.clear _ rfl rfl (lt_of_lt_of_le (lt_of_le_of_ne hand.1 ?_) hand.2)
    rw [← known]
    exact unknown.symm
  | setLastGameId seen =>
    cases replies
    rcases permitted with ⟨rest, ⟨last, eq, real, _⟩ | ⟨eq, _⟩⟩
    · exact kept.set _ rfl rfl (by rw [eq]; rfl) real (by rw [eq]; trivial)
    · exact absurd (kept.looked 0 (by rw [eq]; rfl)).symm kept.real
  | _ => exact permitted.elim

theorem SessionKept.reader (kept : SessionKept p a s log) {e : Effect} {r : Answer e}
    {after : Shared} (replies : s.Replies e r after)
    (permitted : readerPermits (historyOf .reader log) e)
    (session : InSession p ⟨.reader, e, r, s, after⟩) :
    ∃ b, SessionKept p b after (⟨.reader, e, r, s, after⟩ :: log) := by
  cases e with
  | nextUpdate =>
    cases replies
    exact ⟨a, kept.quiet (by simp) rfl⟩
  | setSock connected =>
    cases replies
    exact ⟨a, (kept.frame (t := { s with connected }) rfl rfl rfl rfl fun _ => id).quiet (by simp) rfl⟩
  | setLatest latest =>
    cases latest with
    | none =>
      cases replies
      exact ⟨a, (kept.frame (t := { s with latest := none }) rfl rfl rfl rfl (by simp)).quiet
        (by simp) rfl⟩
    | some received =>
      cases replies
      exact ⟨_, (kept.arrive session.1.1 (session.1.2 _ kept.arrived)).quiet (by simp) rfl⟩
  | _ => exact permitted.elim

theorem SessionKept.session (kept : SessionKept p a s log) {n : Nat} {e : Effect} {r : Answer e}
    {after : Shared} (replies : s.Replies e r after)
    (permitted : sessionPermits (historyOf (.session n) log) e) :
    SessionKept p a after (⟨.session n, e, r, s, after⟩ :: log) := by
  cases e with
  | latestState =>
    obtain ⟨rfl, rfl⟩ := replies
    exact kept.tell (by simp) rfl
  | emailForTeam | sendCommand =>
    obtain ⟨_, rfl⟩ := replies
    exact kept.quiet (by simp) rfl
  | acceptSocket | receiveJson | sendJson | iterate =>
    cases replies
    exact kept.quiet (by simp) rfl
  | _ => exact permitted.elim

theorem SessionKept.request (kept : SessionKept p a s log) {n : Nat} {e : Effect} {r : Answer e}
    {after : Shared} (replies : s.Replies e r after)
    (permitted : requestPermits (historyOf (.request n) log) e)
    (afterTick : AfterTick ⟨.request n, e, r, s, after⟩) :
    SessionKept p a after (⟨.request n, e, r, s, after⟩ :: log) := by
  cases e with
  | latestState =>
    obtain ⟨rfl, rfl⟩ := replies
    exact kept.tell (by simp) rfl
  | teamForEmail email seen =>
    obtain ⟨_, rfl⟩ := replies
    exact kept.quiet (by simp) rfl
  | claim team email seen =>
    obtain ⟨u, _, _, rfl⟩ := permitted
    obtain ⟨granted, rfl⟩ := replies
    cases r with
    | false =>
      refine kept.other (by simp) (fun _ look => ?_) fun _ _ _ same => ?_
      · cases look
      · cases eq_of_heq (Sigma.mk.inj same).2
    | true =>
      have free := granted.symm
      obtain ⟨through, newest⟩ :=
        (if_pos free : (if _ then _ else _) = (_ ∧ _)).mp afterTick
      have game : seen.game = toLex (p, a) := Option.some.inj (newest.symm.trans kept.arrived)
      obtain ⟨process, gameId⟩ := Received.game_eq.mp game
      have row : (s.store.claim team u.email).2.emailForTeam team = some u.email := by
        refine MappingStore.emailForTeam_eq_some.mpr ((MappingStore.mem_claim free).mpr (.inl ?_))
        rw [u.normalised]
      refine (kept.claim free through newest).other (by simp) (fun _ look => ?_) ?_
      · cases look
      · intro team' email' seen' same
        cases same
        exact ⟨process, gameId.le, fun _ => ⟨through.trans gameId, row⟩⟩
  | authenticate | respond =>
    cases replies
    exact kept.quiet (by simp) rfl
  | _ => exact permitted.elim

end Steps

theorem SessionKept.step {p : Nat} {a : Int} {x : Entry Task Answer Shared} {log : Log}
    (kept : SessionKept p a x.before log) (answered : system.Answered x)
    (permitted : permits x.thread (historyOf x.thread log) x.effect) (session : InSession p x)
    (afterTick : AfterTick x) : ∃ b, SessionKept p b x.after (x :: log) := by
  have replies := answered_replies answered rfl
  rcases x with ⟨thread, effect, reply, before, after⟩
  cases thread with
  | reader => exact kept.reader replies permitted session
  | broadcaster => exact ⟨a, kept.broadcaster replies permitted⟩
  | session n => exact ⟨a, kept.session replies permitted⟩
  | request n => exact ⟨a, kept.request replies permitted afterTick⟩
  | administrator n => exact session.2.elim

theorem SessionKept.notHindered {p : Nat} {a : Int} {x : Entry Task Answer Shared} {log : Log}
    (kept : SessionKept p a x.before log) (answered : system.Answered x)
    (permitted : permits x.thread (historyOf x.thread log) x.effect) (afterTick : AfterTick x) :
    NotHindered x := by
  have replies := answered_replies answered rfl
  rcases x with ⟨thread, effect, reply, before, after⟩
  have read {n : Nat} {seen : Received}
      (member : (⟨.latestState, some seen⟩ : Step Answer) ∈ historyOf (.request n) log) :
      seen.process = p := by
    obtain ⟨y, old, _, step⟩ := mem_of_historyOf member
    exact (kept.seen y old seen step).1
  have inWay {seen : Received} (process : seen.process = p)
      (through : seen.snapshot.gameId ≤ before.lastGameId) (row : Mapping)
      (member : row ∈ before.store.rows) :
      ∃ g, before.ghost.granted row.teamNumber = some g ∧ seen.game ≤ g :=
    ⟨_, kept.claims row member, Received.game_le process through⟩
  cases effect with
  | teamForEmail email seen =>
    obtain ⟨found, _⟩ := replies
    cases reply with
    | none => trivial
    | some team =>
      cases thread with
      | request n =>
        obtain ⟨u, eq, rfl⟩ := permitted
        intro row member _
        exact inWay (read (n := n) (by rw [eq]; simp)) (afterTick (by rw [← found]; simp)) row member
      | _ => exact permitted.elim
  | claim team email seen =>
    obtain ⟨refused, _⟩ := replies
    cases reply with
    | true => trivial
    | false =>
      cases thread with
      | request n =>
        obtain ⟨u, eq, _, rfl⟩ := permitted
        intro row member _
        refine inWay (read (n := n) (by rw [eq]; simp)) ?_ row member
        simpa [AfterTick, ← refused] using afterTick
      | _ => exact permitted.elim
  | _ => trivial

theorem Begun.kept {s : Shared} {p : Nat} {a : Int} (begun : Begun s (toLex (p, a))) :
    SessionKept p a s [] where
  arrived := begun.arrived
  latest := begun.latest
  behind := begun.last.le
  real := by rw [begun.last]; exact begun.real
  claims := by rw [begun.last]; exact begun.claims
  seen _ member := absurd member List.not_mem_nil
  hand _ hand := by cases hand
  looked _ looked := by cases looked
  cleared clearing := clearing.elim
  granted _ member := absurd member List.not_mem_nil

/-- In a session whose requests fall in no gap between a new game and the broadcaster's next round,
    a claim stays until a later game arrives, and no request is refused for a claim of an earlier
    game. -/
theorem claims_through_new_games {s : Shared} {p : Nat} {a : Int} (begun : Begun s (toLex (p, a)))
    (events : List (Task × Choice)) (session : ∀ x ∈ (run s events).log, InSession p x)
    (afterTick : ∀ x ∈ (run s events).log, AfterTick x) :
    (∀ x ∈ (run s events).log, ∀ team email seen, x.step = ⟨.claim team email seen, true⟩ →
      (∀ newest ∈ (run s events).shared.ghost.arrived, newest ≤ seen.game) →
      (run s events).shared.store.emailForTeam team = some email) ∧
    ∀ x ∈ (run s events).log, NotHindered x := by
  have kept := contract.run_log s
    (P := fun s log => (∀ x ∈ log, InSession p x) → (∀ x ∈ log, AfterTick x) →
      (∃ b, SessionKept p b s log) ∧ ∀ x ∈ log, NotHindered x)
    (fun _ _ => ⟨⟨a, begun.kept⟩, fun _ member => absurd member List.not_mem_nil⟩) ?_ events
  · obtain ⟨⟨b, kept⟩, free⟩ := kept session afterTick
    refine ⟨fun x member team email seen step newest => ?_, free⟩
    obtain ⟨process, upTo, stays⟩ := kept.granted x member team email seen step
    have last := Received.le_game (newest _ kept.arrived) process
    exact (stays (le_antisymm upTo last)).2
  · intro x log before answered permitted session afterTick
    obtain ⟨⟨b, kept⟩, free⟩ := before (fun y m => session y (.tail _ m)) fun y m => afterTick y (.tail _ m)
    have first := afterTick x List.mem_cons_self
    refine ⟨kept.step answered permitted (session x List.mem_cons_self) first, ?_⟩
    intro y member
    rcases List.mem_cons.mp member with rfl | old
    · exact kept.notHindered answered permitted first
    · exact free y old

def afterFirstTick : Shared where
  latest := some ⟨0, gameOn 1 none⟩
  connected := true
  lastGameId := 1
  ghost := { arrived := some (toLex (0, 1)), processed := some (toLex (0, 1)) }

theorem afterFirstTick_begun : Begun afterFirstTick (toLex (0, 1)) where
  last := rfl
  real := by decide
  arrived := rfl
  latest r same := by cases same; rfl
  claims row member := by cases member

def clears : List (Task × Choice) := (.broadcaster, .go) :: ticks

def granted? : Step Answer → Option (Int × String × Received)
  | ⟨.claim team email seen, granted⟩ => if granted then some (team, email, seen) else none
  | _ => none

theorem step_of_granted {x : Entry Task Answer Shared} {team : Int} {email : String}
    {seen : Received} (granted : granted? x.step = some (team, email, seen)) :
    x.step = ⟨.claim team email seen, true⟩ := by
  rcases x with ⟨thread, effect, reply, before, after⟩
  cases effect with
  | claim t e r => cases reply <;> cases granted; rfl
  | _ => cases granted

theorem claims_through_new_games_second :
    (run afterFirstTick (arrives 0 (gameOn 2 (some 0)) ++ clears ++ requests 0 alice ++
      arrives 0 (gameOn 2 (some 1)) ++ ticks)).shared.store.emailForTeam 0 = some alice.email := by
  obtain ⟨x, member, granted⟩ : ∃ x ∈ (run afterFirstTick (arrives 0 (gameOn 2 (some 0)) ++ clears ++
      requests 0 alice ++ arrives 0 (gameOn 2 (some 1)) ++ ticks)).log,
      granted? x.step = some (0, alice.email, ⟨0, gameOn 2 (some 0)⟩) := by decide +kernel
  exact (claims_through_new_games afterFirstTick_begun _ (by decide +kernel) (by decide +kernel)).1 x
    member 0 alice.email _ (step_of_granted granted) (by decide +kernel)

/-- alice claims a team of game 2 before the broadcaster has looked at it, and its next round takes
    her claim away. -/
theorem claim_lost_in_new_game :
    ¬ ∀ (s : Shared) (p : Nat) (a : Int), Begun s (toLex (p, a)) → ∀ events : List (Task × Choice),
      (∀ x ∈ (run s events).log, InSession p x) →
      (∀ x ∈ (run s events).log, ∀ team email seen, x.step = ⟨.claim team email seen, true⟩ →
        (∀ newest ∈ (run s events).shared.ghost.arrived, newest ≤ seen.game) →
        (run s events).shared.store.emailForTeam team = some email) ∧
      ∀ x ∈ (run s events).log, NotHindered x := by
  intro always
  obtain ⟨x, member, granted⟩ : ∃ x ∈ (run afterFirstTick (arrives 0 (gameOn 2 (some 0)) ++
      requests 0 alice ++ clears)).log,
      granted? x.step = some (0, alice.email, ⟨0, gameOn 2 (some 0)⟩) := by decide +kernel
  have stays := (always afterFirstTick 0 1 afterFirstTick_begun (arrives 0 (gameOn 2 (some 0)) ++
    requests 0 alice ++ clears) (by decide +kernel)).1 x member 0 alice.email _
    (step_of_granted granted) (by decide +kernel)
  have gone : (run afterFirstTick (arrives 0 (gameOn 2 (some 0)) ++ requests 0 alice ++
    clears)).shared.store.emailForTeam 0 = none := by decide +kernel
  rw [gone] at stays
  cases stays

end WebControl.Backend
