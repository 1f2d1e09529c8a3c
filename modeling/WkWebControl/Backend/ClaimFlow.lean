import WkWebControl.Backend.Contract
import WkWebControl.Frontend

open Effects WebControl

namespace WebControl.Backend

theorem isUsersTurn_exec (s : Shared) (u : User) {seen : Received} {team : Int}
    (latest : s.latest = some seen) (turn : seen.snapshot.turnTeam = some team) :
    (isUsersTurn u.email).exec (fun s e => s.reply e .go) s =
      some (some (Frontend.isMyTurn (s.store.teamForEmail u.email) (some team), some team), s) := by
  have same : (s.store.emailForTeam team == some u.email) =
      decide (s.store.teamForEmail u.email = some team) := by
    rw [Bool.eq_iff_iff, beq_iff_eq, decide_eq_true_iff]
    exact s.store.emailForTeam_iff_teamForEmail team u
  rw [Frontend.isMyTurn_some, ← same]
  change Program.exec _ s (Program.bind (call .latestState) _) = _
  simp only [Program.bind, call, Program.call, Program.exec, Shared.reply, latest, turn]
  rfl

theorem requestPermits_unanswered {h : History Answer} {e : Effect} (permitted : requestPermits h e)
    (response : ClaimResponse) : (⟨.respond response, ()⟩ : Step Answer) ∉ h := by
  cases e with
  | authenticate => simp [show h = [] from permitted]
  | latestState => obtain ⟨u, rfl⟩ := permitted; simp
  | teamForEmail email seen => obtain ⟨u, rfl, _⟩ := permitted; simp
  | claim team email seen => obtain ⟨u, rfl, _⟩ := permitted; simp
  | respond r => exact permitted.2 response
  | _ => exact permitted.elim

theorem request_answered {s : Shared} {events : List (Task × Choice)} {n : Nat}
    {response : ClaimResponse}
    (answered : (⟨.respond response, ()⟩ : Step Answer) ∈ historyOf (.request n) (run s events).log) :
    ∃ h, historyOf (.request n) (run s events).log = ⟨.respond response, ()⟩ :: h ∧
      Responds h response := by
  obtain ⟨later, h, whole⟩ := List.append_of_mem answered
  obtain ⟨newer, x, older, split, own, step, before, after⟩ := split_of_historyOf whole
  refine ⟨h, ?_, ?_⟩
  · cases later with
    | nil => exact whole
    | cons t later =>
      -- the step after the answer would not be permitted
      obtain ⟨y, rest, ⟨owner, between, split', _⟩, _, eq⟩ := newest_of_historyOf whole
      have permitted := (contract.run_entry s events split').2
      rw [owner, eq] at permitted
      exact absurd (by simp) (requestPermits_unanswered permitted response)
  · have permitted := (contract.run_entry s events split).2
    rcases x with ⟨thread, effect, reply, _, _⟩
    cases step
    cases own
    rw [after] at permitted
    exact permitted.1

def Inserts (x : Entry Task Answer Shared) (team : Int) (email : String) : Prop :=
  x.before.store.Free team email ∧
    x.after.store.rows = ⟨team, email⟩ :: x.before.store.rows

theorem Shared.Replies.inserted {s after : Shared} {team : Int} {u : User} {seen : Received}
    (replies : s.Replies (.claim team u.email seen) true after) :
    s.store.Free team u.email ∧ after.store.rows = ⟨team, u.email⟩ :: s.store.rows := by
  obtain ⟨granted, rfl⟩ := replies
  have free := (MappingStore.claim_fst _ _ _).mp granted.symm
  rw [if_pos rfl, MappingStore.claim_of_free free]
  simp only [MappingStore.insert, u.normalised] at free ⊢
  exact ⟨free, trivial⟩

theorem Shared.Replies.request_store {s after : Shared} {h : History Answer} {e : Effect}
    {r : Answer e} (permitted : requestPermits h e) (replies : s.Replies e r after)
    (ungranted : ∀ team email seen, (⟨e, r⟩ : Step Answer) ≠ ⟨.claim team email seen, true⟩) :
    after.store = s.store := by
  cases e with
  | claim team email seen =>
    obtain ⟨granted, rfl⟩ := replies
    cases r with
    | true => exact absurd rfl (ungranted team email seen)
    | false => rfl
  | authenticate | latestState | teamForEmail | respond =>
    first
    | exact congrArg Shared.store replies
    | exact congrArg Shared.store replies.2
  | _ => exact permitted.elim

theorem request_unchanged {s : Shared} {events : List (Task × Choice)} {n : Nat}
    {x : Entry Task Answer Shared} (member : x ∈ (run s events).log) (own : x.thread = .request n)
    (ungranted : ∀ team email seen, x.step ≠ ⟨.claim team email seen, true⟩) :
    x.after.store = x.before.store := by
  obtain ⟨newer, older, split⟩ := List.append_of_mem member
  obtain ⟨answered, permitted⟩ := contract.run_entry s events split
  rw [own] at permitted
  exact Shared.Replies.request_store permitted (answered_replies answered rfl) ungranted

theorem request_inserts {s : Shared} {events : List (Task × Choice)} {n : Nat}
    {x : Entry Task Answer Shared} {team : Int} {email : String}
    (member : x ∈ (run s events).log) (own : x.thread = .request n)
    (inserts : Inserts x team email) :
    ∃ seen, x.step = ⟨.claim team email seen, true⟩ := by
  by_contra other
  have granted : ∃ t e seen, x.step = ⟨.claim t e seen, true⟩ := by
    by_contra ungranted
    have same := request_unchanged member own
      fun t e seen step => ungranted ⟨t, e, seen, step⟩
    have longer := congrArg List.length inserts.2
    rw [same, List.length_cons] at longer
    omega
  obtain ⟨t, e, seen, step⟩ := granted
  obtain ⟨newer, older, split⟩ := List.append_of_mem member
  obtain ⟨answered, permitted⟩ := contract.run_entry s events split
  have replies := answered_replies answered step
  rcases x with ⟨thread, effect, reply, before, after⟩
  cases own
  cases step
  obtain ⟨u, _, _, rfl⟩ := permitted
  have row := replies.inserted.2.symm.trans inserts.2
  cases (List.cons.inj row).1
  exact other ⟨seen, rfl⟩

/-- The one change request `n` has made to the table: it inserted `(team, email)`, `team` being on
    turn in the snapshot it had read. -/
def InsertedOnce (n : Nat) (log : Log) (team : Int) (email : String) : Prop :=
  ∃ (newer older : Log) (x look : Entry Task Answer Shared) (seen : Received),
    log = newer ++ x :: older ∧ x.thread = .request n ∧ Inserts x team email ∧
    (look ∈ older ∧ look.thread = .request n ∧ look.step = ⟨.latestState, some seen⟩ ∧
      look.before.latest = some seen ∧ seen.snapshot.turnTeam = some team) ∧
    ∀ y ∈ newer ++ older, y.thread = .request n → y.after.store = y.before.store

theorem insertedOnce_of_granted {s : Shared} {events : List (Task × Choice)} {n : Nat} {u : User}
    {team : Int} {seen : Received} {later : History Answer}
    (whole : historyOf (.request n) (run s events).log =
      later ++ [⟨.claim team u.email seen, true⟩, ⟨.teamForEmail u.email seen, none⟩,
        ⟨.latestState, some seen⟩, ⟨.authenticate, u⟩])
    (turn : seen.snapshot.turnTeam = some team)
    (last : ∀ t e r, (⟨.claim t e r, true⟩ : Step Answer) ∉ later) :
    InsertedOnce n (run s events).log team u.email := by
  obtain ⟨newer, x, older, split, own, step, before, after⟩ := split_of_historyOf whole
  have replies := answered_replies (contract.run_entry s events split).1 step
  obtain ⟨middle, look, older', split', owner, step', _, _⟩ :=
    split_of_historyOf (show _ = [_] ++ _ :: _ from after)
  have looked : system.Answered look := contract.run_mem s events (by
    change look ∈ (run s events).log
    rw [split, split']
    simp)
  refine ⟨newer, older, x, look, seen, split, own, replies.inserted,
    ⟨by rw [split']; simp, owner, step', (answered_replies looked step').1.symm, turn⟩, ?_⟩
  intro y member mine
  have inside : y ∈ (run s events).log := by
    rw [split]
    rcases List.mem_append.mp member with newer | older
    · exact List.mem_append_left _ newer
    · exact List.mem_append_right _ (List.mem_cons_of_mem _ older)
  apply request_unchanged inside mine
  intro t e r granted
  rcases List.mem_append.mp member with recent | old
  · have step := mem_historyOf recent mine
    rw [before, granted] at step
    exact last t e r step
  · have step := mem_historyOf old mine
    rw [after, granted] at step
    simp at step

theorem Responds.of_granted {h : History Answer} {response : ClaimResponse} {team : Int}
    {email : String} {seen : Received} (responds : Responds h response)
    (granted : (⟨.claim team email seen, true⟩ : Step Answer) ∈ h) :
    response = .claimed team email := by
  cases response with
  | claimed t e =>
    obtain ⟨u, read, rfl, _, rfl⟩ := responds
    have same : team = t ∧ email = u.email ∧ seen = read := by simpa using granted
    rw [same.1, same.2.1]
  | _ => exact absurd granted (responds team email seen)

theorem claimed_iff_insertedOnce {s : Shared} {events : List (Task × Choice)} {n : Nat}
    {response : ClaimResponse}
    (answered : (⟨.respond response, ()⟩ : Step Answer) ∈ historyOf (.request n) (run s events).log)
    (team : Int) (email : String) :
    response = .claimed team email ↔ InsertedOnce n (run s events).log team email := by
  obtain ⟨h, whole, responds⟩ := request_answered answered
  constructor
  · rintro rfl
    obtain ⟨u, seen, rfl, turn, rfl⟩ := responds
    exact insertedOnce_of_granted (show _ = [_] ++ _ from whole) turn (by simp)
  · rintro ⟨newer, older, x, _, _, split, own, inserts, _⟩
    have member : x ∈ (run s events).log := by rw [split]; simp
    obtain ⟨seen, step⟩ := request_inserts member own inserts
    have granted := mem_historyOf member own
    rw [whole, step] at granted
    have here : (⟨.claim team email seen, true⟩ : Step Answer) ∈ h := by simpa using granted
    exact responds.of_granted here

theorem inserted_answered {s : Shared} {events : List (Task × Choice)} {n : Nat}
    {x : Entry Task Answer Shared} {team : Int} {email : String}
    (member : x ∈ (run s events).log) (own : x.thread = .request n)
    (inserts : Inserts x team email) :
    (⟨.respond (.claimed team email), ()⟩ : Step Answer) ∈ historyOf (.request n) (run s events).log ∨
    ∃ next, (run s events).residual (.request n) = .perform (.respond (.claimed team email)) next := by
  obtain ⟨seen, step⟩ := request_inserts member own inserts
  have granted := mem_historyOf member own
  rw [step] at granted
  have meets := contract.run_meets s events (.request n)
  change ((run s events).residual (.request n)).Meets requestPermits requestPost
    (historyOf (.request n) (run s events).log) at meets
  cases left : (run s events).residual (.request n) with
  | done flow =>
    rw [left] at meets
    cases flow with
    | returned =>
      obtain ⟨response, answered⟩ := meets
      obtain ⟨h, whole, responds⟩ := request_answered answered
      rw [whole] at granted
      have here : (⟨.claim team email seen, true⟩ : Step Answer) ∈ h := by simpa using granted
      rw [responds.of_granted here] at answered
      exact .inl answered
    | _ => exact meets.elim
  | perform e next =>
    rw [left] at meets
    right
    generalize historyOf (.request n) (run s events).log = h at granted meets
    have permitted := meets.1
    cases e with
    | respond response =>
      rw [permitted.1.of_granted granted]
      exact ⟨next, rfl⟩
    | authenticate => rw [show h = [] from permitted] at granted; cases granted
    | latestState => obtain ⟨u, rfl⟩ := permitted; simp at granted
    | teamForEmail => obtain ⟨u, rfl, _⟩ := permitted; simp at granted
    | claim => obtain ⟨u, rfl, _⟩ := permitted; simp at granted
    | _ => exact permitted.elim

theorem conflict_unchanged {s : Shared} {events : List (Task × Choice)} {n : Nat} {detail : String}
    (answered : (⟨.respond (.conflict detail), ()⟩ : Step Answer) ∈
      historyOf (.request n) (run s events).log)
    {x : Entry Task Answer Shared} (member : x ∈ (run s events).log) (own : x.thread = .request n) :
    x.after.store = x.before.store := by
  apply request_unchanged member own
  intro team email seen step
  obtain ⟨h, whole, responds⟩ := request_answered answered
  have granted := mem_historyOf member own
  rw [whole, step] at granted
  have here : (⟨.claim team email seen, true⟩ : Step Answer) ∈ h := by simpa using granted
  have other := responds.of_granted here
  cases other

/-- The claim flow: one row per team and per user, 200 for exactly the one insertion of a request,
    409 for none, and one rule for whose turn it is on both sides of the wire. -/
theorem claim_flow (s : Shared) (events : List (Task × Choice)) :
    (∀ a ∈ (run s events).shared.store.rows, ∀ b ∈ (run s events).shared.store.rows,
      (a.teamNumber = b.teamNumber ↔ a.email = b.email)) ∧
    (∀ n response,
      (⟨.respond response, ()⟩ : Step Answer) ∈ historyOf (.request n) (run s events).log →
      ∀ team email,
        response = .claimed team email ↔ InsertedOnce n (run s events).log team email) ∧
    (∀ n, ∀ x ∈ (run s events).log, x.thread = .request n → ∀ team email,
      Inserts x team email →
      (⟨.respond (.claimed team email), ()⟩ : Step Answer) ∈
          historyOf (.request n) (run s events).log ∨
        ∃ next, (run s events).residual (.request n) =
          .perform (.respond (.claimed team email)) next) ∧
    (∀ n detail, (⟨.respond (.conflict detail), ()⟩ : Step Answer) ∈
        historyOf (.request n) (run s events).log →
      ∀ x ∈ (run s events).log, x.thread = .request n → x.after.store = x.before.store) ∧
    (∀ (u : User) (seen : Received) (team : Int), seen.snapshot.turnTeam = some team →
      (isUsersTurn u.email).exec (fun s e => s.reply e .go)
          { (run s events).shared with latest := some seen } =
        some (some (Frontend.isMyTurn ((run s events).shared.store.teamForEmail u.email) (some team),
          some team), { (run s events).shared with latest := some seen })) := by
  refine ⟨?_, ?_, ?_, ?_, ?_⟩
  · intro a ha b hb
    constructor
    · intro same
      rw [MappingStore.row_of_team ha hb same]
    · intro same
      rw [MappingStore.row_of_email ha hb same]
  · intro n response answered team email
    exact claimed_iff_insertedOnce answered team email
  · intro n x member own team email inserts
    exact inserted_answered member own inserts
  · intro n detail answered x member own
    exact conflict_unchanged answered member own
  · intro u seen team turn
    exact isUsersTurn_exec { (run s events).shared with latest := some seen } u rfl turn

end WebControl.Backend
