import WkWebControl.Backend.GamesInOrder
import WkWebControl.Backend.Subscribers

open Effects WebControl Program

namespace WebControl.Backend

def held : StateLog → List (Option Received)
  | [] => [none]
  | ⟨_, .backend (.setLatest latest), _, _, _⟩ :: log => held log ++ [latest]
  | _ :: log => held log

def heldAt (log : StateLog) (moment : Nat) : Option Received := ((held log)[moment]?).getD none

def messages (n : Nat) : StateLog → List (Option Received)
  | [] => []
  | ⟨_, .sendState m msg, _, _, _⟩ :: log => if m = n then msg :: messages n log else messages n log
  | ⟨_, .sendLatest m, _, before, _⟩ :: log =>
    if m = n then before.backend.latest :: messages n log else messages n log
  | _ :: log => messages n log

def lastRead : StateLog → Nat
  | [] => 0
  | ⟨.backend .broadcaster, .backend .latestState, _, _, _⟩ :: log => (held log).length - 1
  | _ :: log => lastRead log

def moments (n : Nat) : StateLog → List Nat
  | [] => []
  | ⟨_, .sendState m _, _, _, _⟩ :: log => if m = n then lastRead log :: moments n log else moments n log
  | ⟨_, .sendLatest m, _, _, _⟩ :: log =>
    if m = n then ((held log).length - 1) :: moments n log else moments n log
  | _ :: log => moments n log

def connecting : StateLog → Option Nat
  | [] => none
  | ⟨.stateSocket n, .addClient _, _, _, _⟩ :: _ => some n
  | ⟨.stateSocket _, _, _, _, _⟩ :: _ => none
  | _ :: log => connecting log

/-- The event loop goes on with another coroutine at an `await` only, and there is none between a socket's entering
    the clients and its first state, or between the broadcaster's read and its look at the clients. -/
def uninterrupted : StateLog → Bool
  | [] => true
  | x :: log =>
    uninterrupted log &&
      match x.thread with
      | .backend .broadcaster => (connecting log).isNone
      | .stateSocket n => !reading (ofBroadcaster log) && (connecting log).all (· = n)
      | _ => true

def joins : History StateAnswer → Bool
  | ⟨.addClient _, _⟩ :: _ => true
  | _ => false

def entered : History StateAnswer → Bool
  | [] => false
  | ⟨.addClient _, _⟩ :: _ => true
  | _ :: h => entered h

def joined (n : Nat) : StateLog → Option Nat
  | [] => none
  | ⟨.stateSocket m, .addClient _, _, _, _⟩ :: log => if m = n then some ((held log).length - 1) else joined n log
  | _ :: log => joined n log

structure Waits (n : Nat) (log : StateLog) : Prop where
  earlier : ∀ k ∈ moments n log, k ≤ lastRead log
  since : ∃ j, joined n log = some j ∧ j ≤ lastRead log
  served : joins (historyOf (.stateSocket n) log) = false

structure Told (n : Nat) (log : StateLog) : Prop where
  what : messages n log = (moments n log).map (heldAt log)
  order : (moments n log).Pairwise (· ≥ ·)
  past : ∀ k ∈ moments n log, k < (held log).length
  since : ∀ k ∈ moments n log, ∃ j, joined n log = some j ∧ j ≤ k

structure InTime (s : StateShared) (log : StateLog) : Prop where
  latest : s.backend.latest = heldAt log ((held log).length - 1)
  read : lastRead log < (held log).length ∧ sample (ofBroadcaster log) = heldAt log (lastRead log)
  told : ∀ n, Told n log
  joining : ∀ n, joins (historyOf (.stateSocket n) log) = true → connecting log = some n
  past : ∀ n j, joined n log = some j → j < (held log).length
  slice : reading (ofBroadcaster log) = true → connecting log = none ∧
    ∀ n, (∀ k ∈ moments n log, k ≤ lastRead log) ∧ ∀ j, joined n log = some j → j ≤ lastRead log
  round : reading (ofBroadcaster log) = false →
    roster (ofBroadcaster log) = [] ∨ roundState (ofBroadcaster log) = heldAt log (lastRead log) ∧
      (roster (ofBroadcaster log)).Nodup ∧
      ∀ n ∈ roster (ofBroadcaster log), n ∉ sentTo (ofBroadcaster log) → Waits n log

theorem held_pos (log : StateLog) : 0 < (held log).length := by
  fun_induction held log with
  | case1 => exact Nat.one_pos
  | case2 => simp
  | case3 _ _ _ ih => exact ih

theorem held_cons (x : Entry StateTask StateAnswer StateShared) (log : StateLog) :
    ∃ newer, held (x :: log) = held log ++ newer := by
  rcases x with ⟨i, e, r, s, after⟩
  cases e with
  | backend e =>
    cases e with
    | setLatest latest => exact ⟨[latest], rfl⟩
    | _ => exact ⟨[], (List.append_nil _).symm⟩
  | _ => exact ⟨[], (List.append_nil _).symm⟩

theorem held_longer (x : Entry StateTask StateAnswer StateShared) (log : StateLog) :
    (held log).length ≤ (held (x :: log)).length := by
  obtain ⟨newer, grows⟩ := held_cons x log
  rw [grows, List.length_append]
  exact Nat.le_add_right _ _

theorem heldAt_cons (x : Entry StateTask StateAnswer StateShared) {log : StateLog} {k : Nat}
    (within : k < (held log).length) : heldAt (x :: log) k = heldAt log k := by
  obtain ⟨newer, grows⟩ := held_cons x log
  rw [heldAt, heldAt, grows, List.getElem?_append_left within]

theorem arrivals_eq (log : StateLog) :
    arrivals log = ((held log).filterMap (Option.map fun received => received.snapshot.gameId)).reverse := by
  fun_induction held log with
  | case1 => rfl
  | case2 _ latest _ _ _ log ih =>
    rw [List.filterMap_append, List.reverse_append, ← ih]
    cases latest <;> rfl
  | case3 x log other ih =>
    rw [← ih]
    refine List.filterMap_cons_none (arrivedId_none fun latest sets => ?_)
    rcases x with ⟨i, e, r, s, after⟩
    cases sets
    exact other i latest r s after rfl

theorem heldAt_forward {log : StateLog} (forward : (arrivals log).Pairwise (· ≥ ·)) {k l : Nat} (le : l ≤ k)
    {earlier later : Received} (at_l : heldAt log l = some earlier) (at_k : heldAt log k = some later) :
    later.snapshot.gameId ≥ earlier.snapshot.gameId := by
  rw [arrivals_eq, List.pairwise_reverse, List.pairwise_filterMap, List.pairwise_iff_getElem] at forward
  have within {m : Nat} {seen : Received} (at_ : heldAt log m = some seen) :
      ∃ inside : m < (held log).length, (held log)[m] = some seen := by
    rw [heldAt] at at_
    cases found : (held log)[m]? with
    | none =>
      rw [found] at at_
      cases at_
    | some latest =>
      rw [found] at at_
      obtain ⟨inside, same⟩ := List.getElem?_eq_some_iff.mp found
      exact ⟨inside, same.trans at_⟩
  obtain ⟨insideL, same⟩ := within at_l
  obtain ⟨insideK, same'⟩ := within at_k
  rcases Nat.lt_or_eq_of_le le with before | rfl
  · exact forward l k insideL insideK before _ (by rw [same]; rfl) _ (by rw [same']; rfl)
  · cases same.symm.trans same'
    exact Int.le_refl _

theorem moments_cons (n : Nat) (x : Entry StateTask StateAnswer StateShared) (log : StateLog) :
    ∃ newer, moments n (x :: log) = newer ++ moments n log := by
  rcases x with ⟨i, e, r, s, after⟩
  cases e with
  | sendState m msg =>
    by_cases own : m = n
    · exact ⟨[lastRead log], if_pos own⟩
    · exact ⟨[], if_neg own⟩
  | sendLatest m =>
    by_cases own : m = n
    · exact ⟨[(held log).length - 1], if_pos own⟩
    · exact ⟨[], if_neg own⟩
  | _ => exact ⟨[], rfl⟩

def unseen : StateTask → StateEffect → Bool
  | _, .backend (.setLatest _) => false
  | .backend .broadcaster, .backend .latestState => false
  | _, .clients | _, .sendState _ _ | _, .sendLatest _ => false
  | _, _ => true

section Unseen

variable {s after : StateShared} {log : StateLog} {i : StateTask} {e : StateEffect} {r : StateAnswer e}

theorem held_unseen (hidden : unseen i e = true) : held (⟨i, e, r, s, after⟩ :: log) = held log := by
  cases e with
  | backend e => cases e <;> first | rfl | cases hidden
  | _ => rfl

theorem messages_unseen (hidden : unseen i e = true) (n : Nat) :
    messages n (⟨i, e, r, s, after⟩ :: log) = messages n log := by
  cases e <;> first | rfl | cases hidden

theorem moments_unseen (hidden : unseen i e = true) (n : Nat) :
    moments n (⟨i, e, r, s, after⟩ :: log) = moments n log := by
  cases e <;> first | rfl | cases hidden

theorem lastRead_unseen (hidden : unseen i e = true) :
    lastRead (⟨i, e, r, s, after⟩ :: log) = lastRead log := by
  cases i with
  | backend t =>
    cases t with
    | broadcaster =>
      cases e with
      | backend e => cases e <;> first | rfl | cases hidden
      | _ => rfl
    | _ => rfl
  | _ => rfl

end Unseen

structure SameRound (h h' : History StateAnswer) : Prop where
  sample : sample h' = sample h
  reading : reading h' = reading h
  state : roundState h' = roundState h
  roster : roster h' = roster h
  sent : sentTo h' = sentTo h

def advances : StateEffect → Bool
  | .backend .latestState | .clients | .sendState _ _ => true
  | _ => false

theorem sameRound {e : StateEffect} (stays : advances e = false) (r : StateAnswer e) (h : History StateAnswer) :
    SameRound h (⟨e, r⟩ :: h) := by
  cases e with
  | backend e => cases e <;> first | exact ⟨rfl, rfl, rfl, rfl, rfl⟩ | cases stays
  | _ => first | exact ⟨rfl, rfl, rfl, rfl, rfl⟩ | cases stays

theorem entered_of_attends {h : History StateAnswer} (attending : attends h = true) : entered h = true := by
  fun_induction attends h with
  | case1 => cases attending
  | case2 => rfl
  | case3 => cases attending
  | case4 s h other _ ih =>
    rw [entered]
    · exact ih attending
    · exact other

theorem entered_of_joins {h : History StateAnswer} (now : joins h = true) : entered h = true := by
  unfold joins at now
  split at now
  · rfl
  · cases now

section Sockets

variable {s after : StateShared} {log : StateLog} {i : StateTask} {e : StateEffect} {r : StateAnswer e} {n : Nat}

theorem sameRound_entry (stays : i ≠ .backend .broadcaster ∨ advances e = false) :
    SameRound (ofBroadcaster log) (ofBroadcaster (⟨i, e, r, s, after⟩ :: log)) := by
  rw [ofBroadcaster, ofBroadcaster, historyOf_cons]
  split
  · rename_i own
    exact sameRound (stays.resolve_left fun other => other own) r _
  · exact ⟨rfl, rfl, rfl, rfl, rfl⟩

theorem joined_isSome (n : Nat) (log : StateLog) :
    (joined n log).isSome = entered (historyOf (.stateSocket n) log) := by
  fun_induction joined n log with
  | case1 => rfl
  | case2 =>
    rw [historyOf_cons, if_pos rfl]
    rfl
  | case3 m _ _ _ _ log other ih =>
    rw [historyOf_cons_other fun same => other (StateTask.stateSocket.inj same)]
    exact ih
  | case4 x log other ih =>
    rcases x with ⟨i, e, r, s, after⟩
    rw [historyOf_cons, ih]
    split
    · rename_i own
      change i = .stateSocket n at own
      subst own
      cases e with
      | addClient m => exact absurd rfl (other n m r s after)
      | _ => rfl
    · rfl

theorem joined_cons (n : Nat) (x : Entry StateTask StateAnswer StateShared) (log : StateLog) :
    joined n (x :: log) = joined n log ∨ (x.thread = .stateSocket n ∧ ∃ m, x.effect = .addClient m) ∧
      joined n (x :: log) = some ((held log).length - 1) := by
  rcases x with ⟨i, e, r, s, after⟩
  cases i with
  | stateSocket m =>
    cases e with
    | addClient l =>
      by_cases own : m = n
      · subst own
        exact .inr ⟨⟨rfl, l, rfl⟩, if_pos rfl⟩
      · exact .inl (if_neg own)
    | _ => exact .inl rfl
  | _ => exact .inl rfl

theorem joined_entry {j : Nat} (permitted : rosterPermits i (historyOf i log) e) (since : joined n log = some j) :
    joined n (⟨i, e, r, s, after⟩ :: log) = some j := by
  rcases joined_cons n ⟨i, e, r, s, after⟩ log with same | ⟨⟨own, m, adds⟩, -⟩
  · exact same.trans since
  · cases own
    cases adds
    obtain ⟨-, u, -, first⟩ := permitted
    have entered_ := joined_isSome n log
    rw [since, first] at entered_
    cases entered_

theorem joined_other {x : Entry StateTask StateAnswer StateShared} (other : x.thread ≠ .stateSocket n) :
    joined n (x :: log) = joined n log :=
  (joined_cons n x log).resolve_right fun now => other now.1.1

theorem served_entry (permitted : rosterPermits i (historyOf i log) e) (since : (joined n log).isSome = true)
    (served : joins (historyOf (.stateSocket n) log) = false) :
    joins (historyOf (.stateSocket n) (⟨i, e, r, s, after⟩ :: log)) = false := by
  rw [historyOf_cons]
  split
  · rename_i own
    change i = .stateSocket n at own
    subst own
    cases e with
    | addClient m =>
      obtain ⟨-, u, -, first⟩ := permitted
      rw [joined_isSome, first] at since
      cases since
    | _ => rfl
  · exact served

theorem connecting_other (other : ∀ n, i ≠ .stateSocket n) :
    connecting (⟨i, e, r, s, after⟩ :: log) = connecting log := by
  cases i with
  | stateSocket n => exact absurd rfl (other n)
  | _ => rfl

theorem joining_entry (along : uninterrupted (⟨i, e, r, s, after⟩ :: log) = true)
    (joining : ∀ n, joins (historyOf (.stateSocket n) log) = true → connecting log = some n) :
    joins (historyOf (.stateSocket n) (⟨i, e, r, s, after⟩ :: log)) = true →
      connecting (⟨i, e, r, s, after⟩ :: log) = some n := by
  intro joins_
  by_cases own : i = .stateSocket n
  · subst own
    rw [historyOf_cons, if_pos rfl] at joins_
    cases e with
    | addClient m => rfl
    | _ => cases joins_
  · rw [historyOf_cons_other own] at joins_
    have before := joining n joins_
    cases i with
    | stateSocket m =>
      simp [uninterrupted, before] at along
      exact absurd (congrArg StateTask.stateSocket along.2.2.symm) own
    | _ => exact before

end Sockets

section Steps

variable {s after : StateShared} {log : StateLog} {i : StateTask} {e : StateEffect} {r : StateAnswer e}

theorem not_socket_of_reading (along : uninterrupted (⟨i, e, r, s, after⟩ :: log) = true)
    (reads : reading (ofBroadcaster log) = true) : ∀ n, i ≠ .stateSocket n := by
  rintro n rfl
  simp [uninterrupted, reads] at along

theorem InTime.keep (inTime : InTime s log) (along : uninterrupted (⟨i, e, r, s, after⟩ :: log) = true)
    (permitted : rosterPermits i (historyOf i log) e) (stays : i ≠ .backend .broadcaster ∨ advances e = false)
    (latest : after.backend.latest = heldAt (⟨i, e, r, s, after⟩ :: log)
      ((held (⟨i, e, r, s, after⟩ :: log)).length - 1))
    (read : lastRead (⟨i, e, r, s, after⟩ :: log) = lastRead log)
    (same : ∀ n, moments n (⟨i, e, r, s, after⟩ :: log) = moments n log ∧
      messages n (⟨i, e, r, s, after⟩ :: log) = messages n log) :
    InTime after (⟨i, e, r, s, after⟩ :: log) := by
  have round : SameRound (ofBroadcaster log) (ofBroadcaster (⟨i, e, r, s, after⟩ :: log)) := sameRound_entry stays
  have longer := held_longer ⟨i, e, r, s, after⟩ log
  have waits {n : Nat} (waits : Waits n log) : Waits n (⟨i, e, r, s, after⟩ :: log) := by
    obtain ⟨earlier, ⟨j, since, past⟩, served⟩ := waits
    refine ⟨?_, ⟨j, joined_entry permitted since, read ▸ past⟩, served_entry permitted (by rw [since]; rfl) served⟩
    rw [(same n).1, read]
    exact earlier
  refine ⟨latest, ?_, fun n => ?_, fun n => joining_entry along inTime.joining, fun n j since => ?_, fun reads => ?_,
    fun looks => ?_⟩
  · rw [read, round.sample, heldAt_cons _ inTime.read.1]
    exact ⟨Nat.lt_of_lt_of_le inTime.read.1 longer, inTime.read.2⟩
  · have told := inTime.told n
    refine ⟨?_, (same n).1 ▸ told.order, fun k member => ?_, fun k member => ?_⟩
    · rw [(same n).1, (same n).2, told.what]
      exact List.map_congr_left fun k member => (heldAt_cons _ (told.past k member)).symm
    · rw [(same n).1] at member
      exact Nat.lt_of_lt_of_le (told.past k member) longer
    · rw [(same n).1] at member
      obtain ⟨j, since, before⟩ := told.since k member
      exact ⟨j, joined_entry permitted since, before⟩
  · refine Nat.lt_of_lt_of_le ?_ longer
    rcases joined_cons n ⟨i, e, r, s, after⟩ log with same | ⟨-, now⟩
    · exact inTime.past n j (same.symm.trans since)
    · cases now.symm.trans since
      exact Nat.sub_lt (held_pos log) Nat.one_pos
  · rw [round.reading] at reads
    obtain ⟨idle, earlier⟩ := inTime.slice reads
    have noSocket := not_socket_of_reading along reads
    rw [connecting_other noSocket, read]
    refine ⟨idle, fun n => ?_⟩
    rw [joined_other (noSocket n), (same n).1]
    exact earlier n
  · rw [round.reading] at looks
    rw [round.roster, round.state, round.sent, read, heldAt_cons _ inTime.read.1]
    refine (inTime.round looks).imp_right fun ⟨state, distinct, pending⟩ => ⟨state, distinct, ?_⟩
    exact fun n member unsent => waits (pending n member unsent)

theorem InTime.other (inTime : InTime s log) (along : uninterrupted (⟨i, e, r, s, after⟩ :: log) = true)
    (permitted : rosterPermits i (historyOf i log) e) (replies : s.Replies i e r after) (hidden : unseen i e = true) :
    InTime after (⟨i, e, r, s, after⟩ :: log) := by
  have stays : i ≠ .backend .broadcaster ∨ advances e = false := by
    by_cases own : i = .backend .broadcaster
    · subst own
      right
      cases e with
      | backend e => cases e <;> first | rfl | cases hidden
      | _ => first | rfl | cases hidden
    · exact .inl own
  have same : held (⟨i, e, r, s, after⟩ :: log) = held log := held_unseen hidden
  apply inTime.keep along permitted stays
  · have latest : after.backend.latest = s.backend.latest := by
      apply replies.sameLatest
      rintro latest rfl
      cases i <;> cases hidden
    rw [latest, inTime.latest, heldAt, heldAt, same]
  · exact lastRead_unseen hidden
  · exact fun n => ⟨moments_unseen hidden n, messages_unseen hidden n⟩

theorem InTime.update (inTime : InTime s log) {latest : Option Received}
    {r : StateAnswer (.backend (.setLatest latest))}
    (along : uninterrupted (⟨i, .backend (.setLatest latest), r, s, after⟩ :: log) = true)
    (permitted : rosterPermits i (historyOf i log) (.backend (.setLatest latest)))
    (set : after.backend.latest = latest) :
    InTime after (⟨i, .backend (.setLatest latest), r, s, after⟩ :: log) := by
  apply inTime.keep along permitted (.inr rfl)
  · rw [set, heldAt, held, List.length_append]
    simp
  · cases i with
    | backend t => cases t <;> rfl
    | _ => rfl
  · exact fun n => ⟨rfl, rfl⟩

theorem InTime.reads (inTime : InTime s log)
    (along : uninterrupted (⟨.backend .broadcaster, .backend .latestState, s.backend.latest, s, s⟩ :: log) = true) :
    InTime s (⟨.backend .broadcaster, .backend .latestState, s.backend.latest, s, s⟩ :: log) := by
  have pos := held_pos log
  have idle : connecting log = none := by simpa [uninterrupted] using ((Bool.and_eq_true _ _).mp along).2
  refine ⟨inTime.latest, ⟨Nat.sub_lt pos Nat.one_pos, inTime.latest⟩, fun n => ?_, fun n => ?_, inTime.past,
    fun _ => ⟨idle, fun n => ⟨fun k member => ?_, fun j since => ?_⟩⟩, ?_⟩
  · exact ⟨(inTime.told n).what, (inTime.told n).order, (inTime.told n).past, (inTime.told n).since⟩
  · exact inTime.joining n
  · exact Nat.le_sub_one_of_lt ((inTime.told n).past k member)
  · exact Nat.le_sub_one_of_lt (inTime.past n j since)
  · exact fun looks => by cases looks

theorem InTime.looks (inTime : InTime s log) (enrolled : Enrolled s log) {clients : List Nat}
    (reads : reading (ofBroadcaster log) = true) (perm : clients.Perm s.clients)
    (latest : after.backend.latest = s.backend.latest) :
    InTime after (⟨.backend .broadcaster, .clients, clients, s, after⟩ :: log) := by
  obtain ⟨idle, earlier⟩ := inTime.slice reads
  refine ⟨latest.trans inTime.latest, inTime.read, fun n => ?_, inTime.joining, inTime.past, fun now => ?_,
    fun _ => .inr ?_⟩
  · exact ⟨(inTime.told n).what, (inTime.told n).order, (inTime.told n).past, (inTime.told n).since⟩
  · cases now
  · refine ⟨inTime.read.2, perm.nodup_iff.mpr enrolled.distinct, fun n member _ => ?_⟩
    have client : n ∈ s.clients := perm.mem_iff.mp member
    have entered_ := entered_of_attends (enrolled.attending n client).1
    rw [← joined_isSome] at entered_
    obtain ⟨j, since⟩ := Option.isSome_iff_exists.mp entered_
    refine ⟨(earlier n).1, ⟨j, since, (earlier n).2 j since⟩, ?_⟩
    · change joins (historyOf (.stateSocket n) log) = false
      by_contra joins_
      have connects := inTime.joining n (Bool.not_eq_false _ ▸ joins_)
      rw [idle] at connects
      cases connects

theorem Told.send {n m moment : Nat} (told : Told m log) {x : Entry StateTask StateAnswer StateShared}
    (same : held (x :: log) = held log)
    (then_ : moments m (x :: log) = if n = m then moment :: moments m log else moments m log)
    (sent : messages m (x :: log) = if n = m then heldAt log moment :: messages m log else messages m log)
    (since : joined m (x :: log) = joined m log)
    (past : moment < (held log).length) (newest : n = m → ∀ k ∈ moments m log, k ≤ moment)
    (later : n = m → ∃ j, joined m log = some j ∧ j ≤ moment) : Told m (x :: log) := by
  have at_ : heldAt (x :: log) = heldAt log := by
    funext k
    rw [heldAt, heldAt, same]
  by_cases own : n = m
  · rw [if_pos own] at then_ sent
    refine ⟨?_, ?_, ?_, ?_⟩
    · rw [sent, then_, at_, List.map_cons, told.what]
    · rw [then_, List.pairwise_cons]
      exact ⟨newest own, told.order⟩
    · rw [then_, same]
      exact List.forall_mem_cons.mpr ⟨past, told.past⟩
    · rw [then_, since]
      exact List.forall_mem_cons.mpr ⟨later own, told.since⟩
  · rw [if_neg own] at then_ sent
    refine ⟨?_, then_ ▸ told.order, ?_, ?_⟩
    · rw [sent, then_, at_, told.what]
    · rw [then_, same]
      exact told.past
    · rw [then_, since]
      exact told.since

theorem InTime.sends (inTime : InTime s log) {n : Nat} {msg : Option Received} {r : StateAnswer (.sendState n msg)}
    (permitted : roundsPermits (ofBroadcaster log) (.sendState n msg))
    (latest : after.backend.latest = s.backend.latest) :
    InTime after (⟨.backend .broadcaster, .sendState n msg, r, s, after⟩ :: log) := by
  obtain ⟨state, looks, rest, clients⟩ := permitted
  have member : n ∈ roster (ofBroadcaster log) := by simp [clients]
  rcases inTime.round looks with nobody | ⟨read, distinct, pending⟩
  · rw [nobody] at member
    cases member
  · have unsent : n ∉ sentTo (ofBroadcaster log) := by
      rw [clients, List.nodup_append] at distinct
      intro sent
      exact distinct.2.2 n (List.mem_reverse.mpr sent) n List.mem_cons_self rfl
    have waits := pending n member unsent
    refine ⟨latest.trans inTime.latest, inTime.read, fun m => ?_, inTime.joining, inTime.past, fun reads => ?_,
      fun _ => .inr ?_⟩
    · apply (inTime.told m).send (n := n) rfl rfl ?_ rfl inTime.read.1
      · rintro rfl
        exact waits.earlier
      · rintro rfl
        exact waits.since
      · rw [← read, ← state]
        rfl
    · exact absurd (looks.symm.trans reads) Bool.false_ne_true
    · refine ⟨read, distinct, fun m among new => ?_⟩
      change m ∉ n :: sentTo (ofBroadcaster log) at new
      rw [List.mem_cons, not_or] at new
      obtain ⟨earlier, since, served⟩ := pending m among new.2
      refine ⟨?_, since, served⟩
      rw [moments, if_neg fun same => new.1 same.symm]
      exact earlier

theorem InTime.connects (inTime : InTime s log) {n : Nat} {r : StateAnswer (.sendLatest n)}
    (along : uninterrupted (⟨.stateSocket n, .sendLatest n, r, s, after⟩ :: log) = true)
    (now : joins (historyOf (.stateSocket n) log) = true) (latest : after.backend.latest = s.backend.latest) :
    InTime after (⟨.stateSocket n, .sendLatest n, r, s, after⟩ :: log) := by
  have pos := held_pos log
  have entered_ : (joined n log).isSome = true := by
    rw [joined_isSome]
    exact entered_of_joins now
  refine ⟨latest.trans inTime.latest, inTime.read, fun m => ?_, fun m => joining_entry along inTime.joining,
    inTime.past, fun reads => ?_, fun looks => ?_⟩
  · apply (inTime.told m).send (n := n) rfl rfl ?_ rfl (Nat.sub_lt pos Nat.one_pos)
    · exact fun _ k among => Nat.le_sub_one_of_lt ((inTime.told m).past k among)
    · rintro rfl
      obtain ⟨j, since⟩ := Option.isSome_iff_exists.mp entered_
      exact ⟨j, since, Nat.le_sub_one_of_lt (inTime.past n j since)⟩
    · rw [← inTime.latest]
      rfl
  · exact absurd rfl (not_socket_of_reading along reads n)
  · refine (inTime.round looks).imp_right fun ⟨state, distinct, pending⟩ => ⟨state, distinct, fun m among unsent => ?_⟩
    obtain ⟨earlier, since, served⟩ := pending m among unsent
    have other : n ≠ m := by
      rintro rfl
      exact absurd (served.symm.trans now) Bool.false_ne_true
    have apart : historyOf (.stateSocket m) (⟨.stateSocket n, .sendLatest n, r, s, after⟩ :: log) =
        historyOf (.stateSocket m) log := historyOf_cons_other (fun same => other (StateTask.stateSocket.inj same)) _
    refine ⟨?_, since, apart ▸ served⟩
    rw [moments, if_neg other]
    exact earlier

theorem cases_of_seen (permitted : rosterPermits i (historyOf i log) e) (seen : unseen i e = false) :
    (∃ latest, e = .backend (.setLatest latest)) ∨
    i = .backend .broadcaster ∧ (e = .backend .latestState ∨ e = .clients ∨ ∃ n msg, e = .sendState n msg) ∨
    ∃ n, i = .stateSocket n ∧ e = .sendLatest n := by
  cases e with
  | backend e =>
    cases e with
    | setLatest latest => exact .inl ⟨latest, rfl⟩
    | latestState =>
      cases i with
      | backend t =>
        cases t with
        | broadcaster => exact .inr (.inl ⟨rfl, .inl rfl⟩)
        | _ => cases seen
      | _ => cases seen
    | _ => simp [unseen] at seen
  | clients =>
    cases i with
    | backend t =>
      cases t with
      | broadcaster => exact .inr (.inl ⟨rfl, .inr (.inl rfl)⟩)
      | _ => exact permitted.elim
    | _ => exact permitted.elim
  | sendState n msg =>
    cases i with
    | backend t =>
      cases t with
      | broadcaster => exact .inr (.inl ⟨rfl, .inr (.inr ⟨n, msg, rfl⟩)⟩)
      | _ => exact permitted.elim
    | _ => exact permitted.elim
  | sendLatest n =>
    cases i with
    | backend t => cases t <;> exact permitted.elim
    | stateSocket m =>
      obtain ⟨rfl, -⟩ := permitted
      exact .inr (.inr ⟨n, rfl, rfl⟩)
    | _ => exact permitted.elim
  | _ => simp [unseen] at seen

theorem InTime.entry (inTime : InTime s log) (enrolled : Enrolled s log)
    (along : uninterrupted (⟨i, e, r, s, after⟩ :: log) = true) (permitted : rosterPermits i (historyOf i log) e)
    {c : StateChoice} (replied : s.reply i e c = some (r, after)) : InTime after (⟨i, e, r, s, after⟩ :: log) := by
  have replies := StateShared.reply_cases replied
  cases hidden : unseen i e with
  | true => exact inTime.other along permitted replies hidden
  | false =>
    rcases cases_of_seen permitted hidden with ⟨latest, rfl⟩ | ⟨rfl, rfl | rfl | ⟨n, msg, rfl⟩⟩ | ⟨n, rfl, rfl⟩
    · obtain ⟨b, set, rfl⟩ := replies
      refine inTime.update along permitted ?_
      cases latest <;> (cases set; rfl)
    · obtain ⟨b, ⟨rfl, rfl⟩, rfl⟩ := replies
      exact inTime.reads along
    · exact inTime.looks enrolled permitted (StateShared.reply_perm replied)
        (replies.sameLatest fun _ => StateEffect.noConfusion)
    · exact inTime.sends permitted (replies.sameLatest fun _ => StateEffect.noConfusion)
    · obtain ⟨-, rest, joined⟩ := permitted
      refine inTime.connects along ?_ (replies.sameLatest fun _ => StateEffect.noConfusion)
      rw [joined]
      rfl

end Steps

theorem run_inTime (store : MappingStore) (events : List (StateTask × StateChoice))
    (along : uninterrupted (stateRun store events).log = true) :
    InTime (stateRun store events).shared (stateRun store events).log := by
  suffices both : Enrolled (stateRun store events).shared (stateRun store events).log ∧
      (uninterrupted (stateRun store events).log = true →
        InTime (stateRun store events).shared (stateRun store events).log) from both.2 along
  apply rosterContract.run_log { backend := { store } }
    (P := fun s log => Enrolled s log ∧ (uninterrupted log = true → InTime s log))
  · refine ⟨enrolled_nil store, fun _ => ⟨rfl, ⟨Nat.one_pos, rfl⟩, fun n => ⟨rfl, .nil, ?_, ?_⟩, ?_, ?_, ?_, ?_⟩⟩
    · exact fun k member => absurd member List.not_mem_nil
    · exact fun k member => absurd member List.not_mem_nil
    · exact fun n joined => by cases joined
    · exact fun n j since => by cases since
    · exact fun reads => by cases reads
    · exact fun _ => .inl rfl
  · rintro ⟨i, e, r, s, after⟩ log ⟨enrolled, inTime⟩ ⟨c, replied⟩ permitted
    refine ⟨enrolled.entry (StateShared.reply_clients replied) permitted, fun along => ?_⟩
    exact (inTime ((Bool.and_eq_true _ _).mp along).1).entry enrolled along permitted replied

/-- No browser is taken back in time: the states that it is sent, the newest first, are what `_latest` was at moments
    of which none is after the one before it. -/
theorem never_taken_back (store : MappingStore) (events : List (StateTask × StateChoice))
    (along : uninterrupted (stateRun store events).log = true) (n : Nat) :
    ∃ moments : List Nat, moments.Pairwise (· ≥ ·) ∧
      (∀ k ∈ moments, k < (held (stateRun store events).log).length) ∧
      messages n (stateRun store events).log = moments.map (heldAt (stateRun store events).log) := by
  have told := (run_inTime store events along).told n
  exact ⟨_, told.order, told.past, told.what⟩

theorem never_taken_back_watched :
    (messages 0 (stateRun .empty watchedRound).log).length = 2 ∧
    ∃ moments : List Nat, moments.Pairwise (· ≥ ·) ∧
      (∀ k ∈ moments, k < (held (stateRun .empty watchedRound).log).length) ∧
      messages 0 (stateRun .empty watchedRound).log = moments.map (heldAt (stateRun .empty watchedRound).log) :=
  ⟨by decide +kernel, never_taken_back .empty watchedRound (by decide +kernel) 0⟩

end WebControl.Backend
