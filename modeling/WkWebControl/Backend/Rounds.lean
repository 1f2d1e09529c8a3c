import WkWebControl.Backend.Broadcaster

open Effects WebControl

namespace WebControl.Backend

def clearing : History StateAnswer → Bool
  | ⟨.backend .clearAll, _⟩ :: _ => true
  | _ => false

/-- The `_last_game_id` the broadcaster has read or set last, unless it is about to set it. -/
def known : History StateAnswer → Option Int
  | [] => none
  | ⟨.backend (.lastGameId _), last⟩ :: _ => some last
  | ⟨.backend (.setLastGameId seen), _⟩ :: _ => some seen.snapshot.gameId
  | ⟨.backend .clearAll, _⟩ :: _ => none
  | _ :: h => known h

def tickPermits (h : History StateAnswer) : StateEffect → Prop
  | .backend (.lastGameId seen) => clearing h = false ∧ seen.snapshot.gameId ≠ 0
  | .backend .clearAll => ∃ seen last rest, h = ⟨.backend (.lastGameId seen), last⟩ :: rest ∧ last ≠ 0
  | .backend (.setLastGameId seen) => seen.snapshot.gameId ≠ 0 ∧ ∃ rest,
      (∃ last : Int, h = ⟨.backend .clearAll, ()⟩ :: ⟨.backend (.lastGameId seen), last⟩ :: rest) ∨
      h = ⟨.backend (.lastGameId seen), (0 : Int)⟩ :: rest
  | .sendState _ msg => clearing h = false ∧
      ∀ r ∈ msg, r.snapshot.gameId ≠ 0 → known h = some r.snapshot.gameId
  | .backend .latestState | .backend .sleep | .clients | .discardClient _ => clearing h = false
  | _ => False

def Harmless : StateEffect → Prop
  | .backend (.setLastGameId _) | .sendState _ _ => False
  | _ => True

def statePermits : StateTask → History StateAnswer → StateEffect → Prop
  | .backend .broadcaster => tickPermits
  | _ => fun _ e => Harmless e

def statePost : StateTask → StateFlow → History StateAnswer → Prop
  | .backend .broadcaster, _, h => clearing h = false
  | .backend t, flow, _ => ∃ of h, flow = .backend of ∧ post t of h
  | _, flow, _ => ∀ of, flow ≠ .backend of

section Specs

open Program

def Detected (snap : Option Received) (h : History StateAnswer) : Prop :=
  clearing h = false ∧ ∀ r ∈ snap, r.snapshot.gameId ≠ 0 → known h = some r.snapshot.gameId

theorem detectNewGame_meets (snap : Option Received) {h : History StateAnswer}
    (idle : clearing h = false) :
    Meets tickPermits (fun _ after => Detected snap after)
      (Program.ofBackend (detectNewGame snap)) h := by
  unfold detectNewGame
  cases snap with
  | none => exact ⟨idle, fun r none_r => nomatch none_r⟩
  | some seen =>
    dsimp only
    split
    · rename_i noGame
      refine ⟨idle, fun r same real => ?_⟩
      cases same
      exact absurd noGame real
    · rename_i real
      simp only [Program.ofBackend, call, translate_call_bind, meets_bind, meets_call]
      refine ⟨⟨idle, real⟩, fun last => ?_⟩
      split
      · rename_i same
        refine ⟨rfl, fun r eq _ => ?_⟩
        cases eq
        exact congrArg some same.symm
      · have detected : ∀ older : History StateAnswer,
            Detected (some seen) (⟨.backend (.setLastGameId seen), ()⟩ :: older) := by
          refine fun older => ⟨rfl, fun r eq _ => ?_⟩
          cases eq
          rfl
        by_cases first : last = 0
        · subst first
          simp only [ne_eq, not_true_eq_false, if_false]
          exact ⟨⟨real, h, .inr rfl⟩, fun _ => detected _⟩
        · simp only [ne_eq, first, not_false_eq_true, if_true, translate_call_bind, meets_bind,
            meets_call]
          exact ⟨⟨seen, last, h, rfl, first⟩, fun _ => ⟨⟨real, h, .inl ⟨last, rfl⟩⟩,
            fun _ => detected _⟩⟩

theorem sends_meets {allowed : History StateAnswer → StateEffect → Prop} {keeps : History StateAnswer → Prop}
    (msg : Option Received)
    (sent : ∀ n (there : Bool) before, keeps before →
      allowed before (.sendState n msg) ∧ keeps (⟨.sendState n msg, there⟩ :: before))
    (dropped : ∀ n before, keeps before →
      allowed before (.discardClient n) ∧ keeps (⟨.discardClient n, ()⟩ :: before))
    (clients : List Nat) {h : History StateAnswer} (begun : keeps h) :
    Meets allowed (fun _ after => keeps after) (forEach (sendOne msg) clients) h := by
  refine meets_forEach (fun _ => keeps) _ ?_ clients h begun
  intro n ns before kept
  simp only [sendOne, performs, meets_bind, meets_call]
  refine ⟨(sent n true before kept).1, fun there => ?_⟩
  have after := (sent n there before kept).2
  cases there with
  | true => exact after
  | false => exact ⟨(dropped n _ after).1, fun _ => (dropped n _ after).2⟩

theorem stateLoop_meets {h : History StateAnswer} (idle : clearing h = false) :
    Meets tickPermits (statePost (.backend .broadcaster)) stateLoop h := by
  simp only [stateLoop, performs, meets_bind, meets_call]
  refine ⟨idle, fun snap => (detectNewGame_meets snap rfl).mono ?_⟩
  intro _ after detected
  refine ⟨detected.1, fun clients => ?_⟩
  have begun : Detected snap (⟨.clients, clients⟩ :: after) := ⟨rfl, detected.2⟩
  refine (sends_meets snap ?_ ?_ clients begun).mono ?_
  · exact fun n there before shown => ⟨shown, rfl, shown.2⟩
  · exact fun n before shown => ⟨shown.1, rfl, shown.2⟩
  · intro _ last shown
    exact ⟨shown.1, fun _ => rfl⟩

theorem Harmless.ofBackend {t : Task} {h : History Answer} {e : Effect} (other : t ≠ .broadcaster)
    (permitted : permits t h e) : Harmless (.backend e) := by
  cases e with
  | setLastGameId seen =>
    cases t with
    | broadcaster => exact absurd rfl other
    | _ => exact permitted.elim
  | _ => trivial

theorem ofBackend_meets {t : Task} (other : t ≠ .broadcaster) {p : Prog Flow} {h : History Answer}
    (meets : Meets (permits t) (post t) p h) (after : History StateAnswer) :
    Meets (fun _ e => Harmless e)
      (fun flow _ => ∃ of h, flow = StateFlow.backend of ∧ post t of h)
      (Program.ofBackend p >>= fun flow => return .backend flow) after := by
  rw [meets_bind]
  refine (meets.translate (fun h e => Harmless.ofBackend other) after).mono ?_
  rintro flow _ ⟨h, done⟩
  exact ⟨flow, h, rfl, done⟩

theorem connect_meets (n : Nat) (h : History StateAnswer) :
    Meets (fun _ e => Harmless e) (fun _ _ => True) (connect n) h := by
  simp only [connect, performs, meets_bind, meets_call]
  refine ⟨trivial, fun _ => ⟨trivial, fun there => ?_⟩⟩
  cases there with
  | true => trivial
  | false => exact ⟨trivial, fun _ => trivial⟩

theorem stateStart_meets (i : StateTask) :
    (stateStart i).Meets (statePermits i) (statePost i) [] := by
  cases i with
  | backend t =>
    cases t with
    | broadcaster => exact stateLoop_meets rfl
    | _ => exact ofBackend_meets Task.noConfusion (start_meets _) []
  | stateSocket n =>
    simp only [stateStart, wsState, performs, meets_bind, meets_call]
    refine ⟨trivial, fun u => ?_⟩
    split
    · exact fun of => StateFlow.noConfusion
    · rw [meets_bind]
      exact (connect_meets n _).mono fun _ _ _ of => StateFlow.noConfusion
  | monitor n => exact ⟨trivial, fun _ => ⟨trivial, fun _ of => StateFlow.noConfusion⟩⟩
  | me n => exact ⟨trivial, fun _ => ⟨trivial, fun _ of => StateFlow.noConfusion⟩⟩

theorem stateAgain_meets (i : StateTask) (flow : StateFlow) (h : History StateAnswer)
    (done : statePost i flow h) : (stateAgain i flow).Meets (statePermits i) (statePost i) h := by
  cases i with
  | backend t =>
    cases t with
    | broadcaster => exact stateLoop_meets done
    | _ =>
      obtain ⟨of, before, rfl, kept⟩ := done
      exact ofBackend_meets Task.noConfusion (again_meets _ of before kept) h
  | _ =>
    cases flow with
    | backend of => exact absurd rfl (done of)
    | returned => exact fun of => StateFlow.noConfusion
    | listening n =>
      simp only [stateAgain, listen, performs, Program.meets_bind, Program.meets_call]
      refine ⟨trivial, fun there => ?_⟩
      cases there with
      | true => exact fun of => StateFlow.noConfusion
      | false => exact ⟨trivial, fun _ of => StateFlow.noConfusion⟩

def stateContract : stateSystem.Contract where
  permits := statePermits
  post := statePost
  start := stateStart_meets
  again := stateAgain_meets

end Specs

def StateShared.Replies (s : StateShared) (i : StateTask) :
    (e : StateEffect) → StateAnswer e → StateShared → Prop
  | .backend e, r, after => ∃ b, s.backend.Replies e r b ∧
      after = { (if i = .backend .broadcaster then s.remember e else s) with backend := b }
  | .ownTeam email, team, after => team = s.backend.store.teamForEmail email ∧ after = s
  | _, _, after => ∃ clients, after = { s with clients }

theorem StateShared.reply_cases {s : StateShared} {i : StateTask} {e : StateEffect}
    {c : StateChoice} {r : StateAnswer e} {after : StateShared}
    (replied : s.reply i e c = some (r, after)) : s.Replies i e r after := by
  cases e with
  | backend e =>
    cases c with
    | order clients => cases replied
    | backend c =>
      obtain ⟨answer, given, eq⟩ := Option.map_eq_some_iff.mp replied
      obtain ⟨rfl, rfl⟩ := Prod.mk.inj eq
      exact ⟨answer.2, Shared.reply_cases given, rfl⟩
  | clients =>
    cases c with
    | backend c => cases replied
    | order clients =>
      simp only [StateShared.reply] at replied
      split at replied
      · cases replied
        exact ⟨_, rfl⟩
      · cases replied
  | ownTeam email =>
    cases c with
    | order clients => cases replied
    | backend c =>
      cases c <;> cases replied
      exact ⟨rfl, rfl⟩
  | _ =>
    cases c with
    | order clients => cases replied
    | backend c => cases c <;> cases replied <;> exact ⟨_, rfl⟩

theorem Shared.Replies.lastGameId {s after : Shared} {e : Effect} {r : Answer e}
    (replies : s.Replies e r after) (other : Harmless (.backend e)) :
    after.lastGameId = s.lastGameId := by
  cases e with
  | setLastGameId seen => exact other.elim
  | claim team email seen =>
    rw [replies.2]
    split <;> rfl
  | lastGameId seen =>
    rw [replies.2]
    split <;> rfl
  | latestState | emailForTeam | teamForEmail | sendCommand => rw [replies.2]
  | setLatest latest => cases latest <;> cases replies <;> rfl
  | deleteMapping | clearAll | setSock =>
    cases replies
    rfl
  | _ =>
    cases replies
    rfl

def announced (x : Entry StateTask StateAnswer StateShared) : Option Int :=
  match x.thread, x.effect with
  | .backend .broadcaster, .backend .clearAll => some x.before.looking
  | _, _ => none

def lookingAt : History StateAnswer → Option Int
  | ⟨.backend (.lastGameId seen), _⟩ :: _ => some seen.snapshot.gameId
  | ⟨.backend .clearAll, _⟩ :: h => lookingAt h
  | _ => none

def ofBroadcaster (log : StateLog) : History StateAnswer := historyOf (.backend .broadcaster) log

structure Followed (s : StateShared) (log : StateLog) : Prop where
  known : ∀ last, known (ofBroadcaster log) = some last → last = s.backend.lastGameId
  looking : ∀ gameId, lookingAt (ofBroadcaster log) = some gameId → gameId = s.looking
  cleared : clearing (ofBroadcaster log) = true → s.newGames.head? = some s.looking
  seen : s.first = none ↔ s.backend.lastGameId = 0
  unseen : s.first = none → s.newGames = []
  current : clearing (ofBroadcaster log) = false → s.backend.lastGameId ≠ 0 →
    s.current = some s.backend.lastGameId
  newGames : s.newGames = log.filterMap announced

section Steps

variable {s after : StateShared} {log : StateLog}

theorem Followed.other (followed : Followed s log) {x : Entry StateTask StateAnswer StateShared}
    (thread : x.thread ≠ .backend .broadcaster)
    (last : after.backend.lastGameId = s.backend.lastGameId) (looking : after.looking = s.looking)
    (first : after.first = s.first) (newGames : after.newGames = s.newGames) :
    Followed after (x :: log) := by
  have history : ofBroadcaster (x :: log) = ofBroadcaster log := historyOf_cons_other thread log
  have silent : announced x = none := by
    unfold announced
    split
    · rename_i own _
      exact absurd own thread
    · rfl
  have current : after.current = s.current := by
    rw [StateShared.current, StateShared.current, newGames, first]
  refine ⟨?_, ?_, ?_, ?_, ?_, ?_, ?_⟩
  · rw [history, last]
    exact followed.known
  · rw [history, looking]
    exact followed.looking
  · rw [history, newGames, looking]
    exact followed.cleared
  · rw [first, last]
    exact followed.seen
  · rw [first, newGames]
    exact followed.unseen
  · rw [history, last, current]
    exact followed.current
  · rw [newGames, List.filterMap_cons_none silent]
    exact followed.newGames

theorem Followed.neutral (followed : Followed s log) {e : StateEffect} {r : StateAnswer e}
    (idle : clearing (ofBroadcaster log) = false) (still : clearing (⟨e, r⟩ :: ofBroadcaster log) = false)
    (same : Backend.known (⟨e, r⟩ :: ofBroadcaster log) = Backend.known (ofBroadcaster log))
    (apart : lookingAt (⟨e, r⟩ :: ofBroadcaster log) = none)
    (silent : announced ⟨.backend .broadcaster, e, r, s, after⟩ = none)
    (last : after.backend.lastGameId = s.backend.lastGameId)
    (first : after.first = s.first) (newGames : after.newGames = s.newGames) :
    Followed after (⟨.backend .broadcaster, e, r, s, after⟩ :: log) := by
  have history : ofBroadcaster (⟨.backend .broadcaster, e, r, s, after⟩ :: log) =
      ⟨e, r⟩ :: ofBroadcaster log := rfl
  have current : after.current = s.current := by
    rw [StateShared.current, StateShared.current, newGames, first]
  refine ⟨?_, ?_, ?_, ?_, ?_, ?_, ?_⟩
  · rw [history, same, last]
    exact followed.known
  · rw [history, apart]
    exact fun gameId none_id => nomatch none_id
  · rw [history, still]
    exact fun clears => nomatch clears
  · rw [first, last]
    exact followed.seen
  · rw [first, newGames]
    exact followed.unseen
  · rw [last, current]
    exact fun _ => followed.current idle
  · rw [newGames, List.filterMap_cons_none silent]
    exact followed.newGames

theorem Followed.look (followed : Followed s log) {seen : Received} {backend : Shared}
    (idle : clearing (ofBroadcaster log) = false) (last : backend.lastGameId = s.backend.lastGameId) :
    Followed { s with looking := seen.snapshot.gameId, backend }
      (⟨.backend .broadcaster, .backend (.lastGameId seen), s.backend.lastGameId, s,
        { s with looking := seen.snapshot.gameId, backend }⟩ :: log) where
  known id same := by
    cases same
    exact last.symm
  looking id same := by
    cases same
    rfl
  cleared clears := nomatch clears
  seen := by
    rw [show ({ s with looking := seen.snapshot.gameId, backend } : StateShared).backend.lastGameId =
      s.backend.lastGameId from last]
    exact followed.seen
  unseen := followed.unseen
  current _ real := by
    change backend.lastGameId ≠ 0 at real
    change s.current = some backend.lastGameId
    rw [last] at real ⊢
    exact followed.current idle real
  newGames := followed.newGames

theorem Followed.clear (followed : Followed s log) {seen : Received} {last : Int}
    {rest : History StateAnswer} {backend : Shared}
    (looks : ofBroadcaster log = ⟨.backend (.lastGameId seen), last⟩ :: rest) (real : last ≠ 0)
    (same : backend.lastGameId = s.backend.lastGameId) :
    Followed { s with newGames := s.looking :: s.newGames, backend }
      (⟨.backend .broadcaster, .backend .clearAll, (), s,
        { s with newGames := s.looking :: s.newGames, backend }⟩ :: log) := by
  have told : last = s.backend.lastGameId := followed.known last (by rw [looks]; rfl)
  refine ⟨?_, followed.looking, fun _ => rfl, ?_, ?_, ?_, ?_⟩
  · exact fun id known => nomatch known
  · change s.first = none ↔ backend.lastGameId = 0
    rw [same]
    exact followed.seen
  · intro first
    exact absurd (followed.seen.mp first) (told ▸ real)
  · exact fun clears => nomatch clears
  · rw [List.filterMap_cons_some (show announced _ = some s.looking from rfl), ← followed.newGames]

theorem Followed.set (followed : Followed s log) {seen : Received} {rest : History StateAnswer}
    {backend : Shared} (real : seen.snapshot.gameId ≠ 0)
    (looked : (∃ last : Int, ofBroadcaster log =
        ⟨.backend .clearAll, ()⟩ :: ⟨.backend (.lastGameId seen), last⟩ :: rest) ∨
      ofBroadcaster log = ⟨.backend (.lastGameId seen), (0 : Int)⟩ :: rest)
    (last : backend.lastGameId = seen.snapshot.gameId) :
    Followed { s with first := s.first.or (some seen.snapshot.gameId), backend }
      (⟨.backend .broadcaster, .backend (.setLastGameId seen), (), s,
        { s with first := s.first.or (some seen.snapshot.gameId), backend }⟩ :: log) := by
  have sees : s.first.or (some seen.snapshot.gameId) ≠ none := by
    cases s.first <;> exact Option.some_ne_none _
  refine ⟨?_, ?_, ?_, ?_, ?_, ?_, ?_⟩
  · intro id known
    cases known
    exact last.symm
  · exact fun id looking => nomatch looking
  · exact fun clears => nomatch clears
  · exact iff_of_false sees fun zero => real (last.symm.trans zero)
  · exact fun first => absurd first sees
  · intro _ _
    change s.newGames.head?.or (s.first.or (some seen.snapshot.gameId)) = some backend.lastGameId
    rw [last]
    rcases looked with ⟨old, clears⟩ | first
    · have looking := followed.looking seen.snapshot.gameId (by rw [clears]; rfl)
      rw [followed.cleared (by rw [clears]; rfl), ← looking]
      rfl
    · have zero : (0 : Int) = s.backend.lastGameId := followed.known 0 (by rw [first]; rfl)
      have unseen := followed.seen.mpr zero.symm
      rw [followed.unseen unseen, unseen]
      rfl
  · exact followed.newGames

theorem Followed.broadcaster (followed : Followed s log) {e : StateEffect} {r : StateAnswer e}
    (replies : s.Replies (.backend .broadcaster) e r after)
    (permitted : tickPermits (ofBroadcaster log) e) :
    Followed after (⟨.backend .broadcaster, e, r, s, after⟩ :: log) := by
  cases e with
  | backend e =>
    obtain ⟨backend, replies, rfl⟩ := replies
    rw [if_pos rfl]
    cases e with
    | latestState =>
      obtain ⟨rfl, rfl⟩ := replies
      exact followed.neutral permitted rfl rfl rfl rfl rfl rfl rfl
    | sleep =>
      cases replies
      exact followed.neutral permitted rfl rfl rfl rfl rfl rfl rfl
    | lastGameId seen =>
      have same := replies.lastGameId trivial
      obtain ⟨rfl, -⟩ := replies
      exact followed.look permitted.1 same
    | clearAll =>
      obtain ⟨seen, last, rest, looks, real⟩ := permitted
      exact followed.clear looks real (replies.lastGameId trivial)
    | setLastGameId seen =>
      obtain ⟨real, rest, looked⟩ := permitted
      apply followed.set real looked
      rw [show backend = _ from replies]
    | _ => exact permitted.elim
  | clients | discardClient n =>
    obtain ⟨clients, rfl⟩ := replies
    exact followed.neutral permitted rfl rfl rfl rfl rfl rfl rfl
  | sendState n msg =>
    obtain ⟨clients, rfl⟩ := replies
    exact followed.neutral permitted.1 rfl rfl rfl rfl rfl rfl rfl
  | _ => exact permitted.elim

end Steps

theorem harmless_of_permits {i : StateTask} {h : History StateAnswer} {e : StateEffect}
    (other : i ≠ .backend .broadcaster) (permitted : statePermits i h e) : Harmless e := by
  cases i with
  | backend t =>
    cases t with
    | broadcaster => exact absurd rfl other
    | _ => exact permitted
  | _ => exact permitted

theorem Followed.entry {s after : StateShared} {log : StateLog} {i : StateTask} {e : StateEffect}
    {r : StateAnswer e} (followed : Followed s log) (replies : s.Replies i e r after)
    (permitted : statePermits i (historyOf i log) e) : Followed after (⟨i, e, r, s, after⟩ :: log) := by
  by_cases own : i = .backend .broadcaster
  · subst own
    exact followed.broadcaster replies permitted
  · have harmless := harmless_of_permits own permitted
    cases e with
    | backend e =>
      obtain ⟨backend, replies, rfl⟩ := replies
      simp only [if_neg own]
      exact followed.other own (replies.lastGameId harmless) rfl rfl rfl
    | ownTeam email =>
      obtain ⟨-, rfl⟩ := replies
      exact followed.other own rfl rfl rfl rfl
    | _ =>
      obtain ⟨clients, rfl⟩ := replies
      exact followed.other own rfl rfl rfl rfl

theorem Followed.initial (store : MappingStore) : Followed { backend := { store } } [] :=
  ⟨nofun, nofun, nofun, iff_of_true rfl rfl, fun _ => rfl, fun _ real => absurd rfl real, rfl⟩

theorem followed_entry {store : MappingStore} {events : List (StateTask × StateChoice)}
    {newer older : StateLog} {x : Entry StateTask StateAnswer StateShared}
    (split : (stateRun store events).log = newer ++ x :: older) :
    Followed x.before older ∧ stateSystem.Answered x ∧
      statePermits x.thread (historyOf x.thread older) x.effect := by
  refine stateContract.run_before { backend := { store } } (P := Followed) (.initial store) ?_ events
    split
  rintro ⟨i, e, r, s, after⟩ log followed ⟨c, replied⟩ permitted
  exact followed.entry (StateShared.reply_cases replied) permitted

end WebControl.Backend
