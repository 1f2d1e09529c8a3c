import WkWebControl.Backend.ShownGames

open Effects WebControl Program

namespace WebControl.Backend

def attends : History StateAnswer → Bool
  | [] => false
  | ⟨.addClient _, _⟩ :: _ => true
  | ⟨.discardClient _, _⟩ :: ⟨.receiveText, _⟩ :: _ => false
  | _ :: h => attends h

def Identified (h : History StateAnswer) : Prop :=
  ∃ u : User, u.email ≠ "" ∧ (⟨.backend .acceptSocket, u⟩ : Step StateAnswer) ∈ h

def roster : History StateAnswer → List Nat
  | [] => []
  | ⟨.clients, clients⟩ :: _ => clients
  | _ :: h => roster h

def looked : History StateAnswer → Bool
  | [] => false
  | ⟨.clients, _⟩ :: _ => true
  | _ :: h => looked h

def sentTo : History StateAnswer → List Nat
  | [] => []
  | ⟨.clients, _⟩ :: _ => []
  | ⟨.sendState n _, _⟩ :: h => n :: sentTo h
  | _ :: h => sentTo h

def sample : History StateAnswer → Option Received
  | [] => none
  | ⟨.backend .latestState, snap⟩ :: _ => snap
  | _ :: h => sample h

def reading : History StateAnswer → Bool
  | [] => false
  | ⟨.backend .latestState, _⟩ :: _ => true
  | ⟨.clients, _⟩ :: _ => false
  | _ :: h => reading h

def roundState : History StateAnswer → Option Received
  | [] => none
  | ⟨.clients, _⟩ :: h => sample h
  | _ :: h => roundState h

def failed (n : Nat) : Step StateAnswer → Bool
  | ⟨.sendState m _, false⟩ | ⟨.sendLatest m, false⟩ => m == n
  | _ => false

def roundsPermits (h : History StateAnswer) : StateEffect → Prop
  | .clients => reading h = true
  | .sendState n msg =>
    msg = roundState h ∧ reading h = false ∧ ∃ rest, roster h = (sentTo h).reverse ++ n :: rest
  | .discardClient n => ∃ msg rest, h = ⟨.sendState n msg, false⟩ :: rest
  | .backend .sleep => looked h = true ∧ roster h = (sentTo h).reverse
  | .addClient _ | .sendLatest _ => False
  | _ => True

def socketPermits (n : Nat) (h : History StateAnswer) : StateEffect → Prop
  | .addClient m => m = n ∧ ∃ u : User, u.email ≠ "" ∧ h = [⟨.backend .acceptSocket, u⟩]
  | .discardClient m => m = n ∧
      ∃ rest, h = ⟨.sendLatest n, false⟩ :: rest ∨ h = ⟨.receiveText, false⟩ :: rest
  | .sendLatest m => m = n ∧ ∃ rest, h = ⟨.addClient n, ()⟩ :: rest
  | .sendState _ _ | .clients => False
  | _ => True

def apart : StateEffect → Prop
  | .addClient _ | .discardClient _ | .sendLatest _ | .sendState _ _ | .clients => False
  | _ => True

def rosterPermits : StateTask → History StateAnswer → StateEffect → Prop
  | .backend .broadcaster => roundsPermits
  | .stateSocket n => socketPermits n
  | _ => fun _ e => apart e

def rosterPost : StateTask → StateFlow → History StateAnswer → Prop
  | .backend .broadcaster, _, _ => True
  | .backend _, flow, _ => ∃ of, flow = .backend of
  | .stateSocket n, flow, _ => flow = .listening n ∨ flow = .returned
  | _, flow, _ => flow = .returned

section Specs

theorem detectNewGame_roster (snap : Option Received) {h : History StateAnswer}
    (read : sample h = snap ∧ reading h = true) :
    Meets roundsPermits (fun _ after => sample after = snap ∧ reading after = true)
      (Program.ofBackend (detectNewGame snap)) h := by
  unfold detectNewGame
  cases snap with
  | none => exact read
  | some seen =>
    dsimp only
    split
    · exact read
    · simp only [Program.ofBackend, call, translate_call_bind, meets_bind, meets_call]
      refine ⟨trivial, fun last => ?_⟩
      split
      · exact read
      · split
        · simp only [translate_call_bind, meets_bind, meets_call]
          exact ⟨trivial, fun _ => ⟨trivial, fun _ => read⟩⟩
        · exact ⟨trivial, fun _ => read⟩

theorem sends_roster (snap : Option Received) (clients : List Nat) {h : History StateAnswer}
    (begun : looked h = true ∧ roundState h = snap ∧ reading h = false ∧
      roster h = (sentTo h).reverse ++ clients) :
    Meets roundsPermits (fun _ after => looked after = true ∧ roster after = (sentTo after).reverse)
      (forEach (sendOne snap) clients) h := by
  let within (rest : List Nat) (before : History StateAnswer) : Prop :=
    looked before = true ∧ roundState before = snap ∧ reading before = false ∧
      roster before = (sentTo before).reverse ++ rest
  refine (meets_forEach within _ ?_ clients h begun).mono ?_
  · intro n rest before ⟨begun, read, looks, left⟩
    simp only [sendOne, performs, meets_bind, meets_call]
    refine ⟨⟨read.symm, looks, rest, left⟩, fun there => ?_⟩
    have after : roster before = (n :: sentTo before).reverse ++ rest := by
      rw [List.reverse_cons, List.append_assoc]
      exact left
    cases there with
    | true => exact ⟨begun, read, looks, after⟩
    | false => exact ⟨⟨snap, before, rfl⟩, fun _ => ⟨begun, read, looks, after⟩⟩
  · rintro _ after ⟨begun, _, _, all⟩
    refine ⟨begun, ?_⟩
    rw [all, List.append_nil]

theorem stateLoop_roster (h : History StateAnswer) :
    Meets roundsPermits (fun _ _ => True) stateLoop h := by
  simp only [stateLoop, performs, meets_bind, meets_call]
  refine ⟨trivial, fun snap => ?_⟩
  apply (detectNewGame_roster snap (h := ⟨.backend .latestState, snap⟩ :: h) ⟨rfl, rfl⟩).mono
  intro _ read ⟨same, now⟩
  refine ⟨now, fun clients => ?_⟩
  apply (sends_roster snap clients (h := ⟨.clients, clients⟩ :: read) ⟨rfl, same, rfl, rfl⟩).mono
  exact fun _ _ all => ⟨all, fun _ => trivial⟩

theorem wsState_roster (n : Nat) :
    Meets (socketPermits n) (rosterPost (.stateSocket n)) (wsState n) [] := by
  simp only [wsState, connect, performs, meets_bind, meets_call]
  refine ⟨trivial, fun u => ?_⟩
  split
  · exact .inr rfl
  · rename_i known
    simp only [meets_bind, meets_call]
    refine ⟨⟨rfl, u, known, rfl⟩, fun _ => ⟨⟨rfl, _, rfl⟩, fun there => ?_⟩⟩
    cases there with
    | true => exact .inl rfl
    | false => exact ⟨⟨rfl, _, .inl rfl⟩, fun _ => .inl rfl⟩

theorem listen_roster (n : Nat) (h : History StateAnswer) :
    Meets (socketPermits n) (rosterPost (.stateSocket n)) (listen n) h := by
  simp only [listen, performs, meets_bind, meets_call]
  refine ⟨trivial, fun there => ?_⟩
  cases there with
  | true => exact .inl rfl
  | false => exact ⟨⟨rfl, h, .inr rfl⟩, fun _ => .inr rfl⟩

theorem ofBackend_roster (p : Prog Flow) (h : History StateAnswer) :
    Meets (fun _ e => apart e) (fun flow _ => ∃ of, flow = StateFlow.backend of)
      (Program.ofBackend p >>= fun flow => return .backend flow) h := by
  rw [meets_bind]
  have backend : ∀ (older : History Answer) (e : Effect), True → apart (.backend e) := fun _ _ _ => trivial
  apply ((meets_trivial p []).translate backend h).mono
  exact fun flow _ _ => ⟨flow, rfl⟩

theorem roster_start_meets (i : StateTask) :
    (stateStart i).Meets (rosterPermits i) (rosterPost i) [] := by
  cases i with
  | backend t =>
    cases t with
    | broadcaster => exact stateLoop_roster []
    | _ => exact ofBackend_roster _ []
  | stateSocket n => exact wsState_roster n
  | monitor n => exact ⟨trivial, fun _ => ⟨trivial, fun _ => rfl⟩⟩
  | me n => exact ⟨trivial, fun _ => ⟨trivial, fun _ => rfl⟩⟩

theorem roster_again_meets (i : StateTask) (flow : StateFlow) (h : History StateAnswer)
    (done : rosterPost i flow h) : (stateAgain i flow).Meets (rosterPermits i) (rosterPost i) h := by
  cases i with
  | backend t =>
    cases t with
    | broadcaster => exact stateLoop_roster h
    | _ =>
      obtain ⟨of, rfl⟩ := done
      exact ofBackend_roster _ h
  | stateSocket n =>
    rcases done with rfl | rfl
    · exact listen_roster n h
    · exact .inr rfl
  | monitor n | me n =>
    cases done
    exact rfl

def rosterContract : stateSystem.Contract where
  permits := rosterPermits
  post := rosterPost
  start := roster_start_meets
  again := roster_again_meets

end Specs

/-- Who is in `self._clients`: sockets of known users whose `ws_state` is still going, and of these all to whom no
    send has failed. -/
structure Enrolled (s : StateShared) (log : StateLog) : Prop where
  distinct : s.clients.Nodup
  attending : ∀ n ∈ s.clients, attends (historyOf (.stateSocket n) log) = true ∧
    Identified (historyOf (.stateSocket n) log)
  missing : ∀ n, attends (historyOf (.stateSocket n) log) = true → n ∉ s.clients →
    ∃ x ∈ log, failed n x.step = true

def clientsAfter (clients : List Nat) : StateEffect → List Nat
  | .addClient n => n :: clients.erase n
  | .discardClient n => clients.erase n
  | _ => clients

theorem StateShared.reply_clients {s after : StateShared} {i : StateTask} {e : StateEffect} {c : StateChoice}
    {r : StateAnswer e} (replied : s.reply i e c = some (r, after)) : after.clients = clientsAfter s.clients e := by
  cases e with
  | backend e =>
    obtain ⟨_, _, rfl⟩ := StateShared.reply_cases replied
    split
    · cases e <;> rfl
    · rfl
  | clients =>
    cases c with
    | backend c => cases replied
    | order clients =>
      simp only [StateShared.reply] at replied
      split at replied
      · cases replied
        rfl
      · cases replied
  | ownTeam email =>
    obtain ⟨-, rfl⟩ := StateShared.reply_cases replied
    rfl
  | _ =>
    cases c with
    | order clients => cases replied
    | backend c => cases c <;> cases replied <;> rfl

theorem StateShared.reply_perm {s after : StateShared} {i : StateTask} {c : StateChoice} {clients : List Nat}
    (replied : s.reply i .clients c = some (clients, after)) : clients.Perm s.clients := by
  cases c with
  | backend c => cases replied
  | order order =>
    simp only [StateShared.reply] at replied
    split at replied
    · rename_i perm
      cases replied
      exact perm
    · cases replied

theorem Identified.later {h : History StateAnswer} (known : Identified h) (s : Step StateAnswer) :
    Identified (s :: h) := by
  obtain ⟨u, some_, member⟩ := known
  exact ⟨u, some_, List.mem_cons_of_mem _ member⟩

def enrols : StateEffect → Bool
  | .addClient _ | .discardClient _ => true
  | _ => false

theorem attends_other {e : StateEffect} (other : enrols e = false) (r : StateAnswer e) (h : History StateAnswer) :
    attends (⟨e, r⟩ :: h) = attends h := by
  cases e <;> first | rfl | cases other

section Steps

variable {s after : StateShared} {log : StateLog} {i : StateTask} {e : StateEffect} {r : StateAnswer e}

theorem socket_of_adds {n : Nat} {h : History StateAnswer} (permitted : rosterPermits i h (.addClient n)) :
    i = .stateSocket n ∧ ∃ u : User, u.email ≠ "" ∧ h = [⟨.backend .acceptSocket, u⟩] := by
  cases i with
  | backend t => cases t <;> exact permitted.elim
  | stateSocket m =>
    obtain ⟨rfl, known⟩ := permitted
    exact ⟨rfl, known⟩
  | monitor | me => exact permitted.elim

theorem discards {n : Nat} {h : History StateAnswer} (permitted : rosterPermits i h (.discardClient n)) :
    (∃ x ∈ h, failed n x = true) ∨ i = .stateSocket n ∧ ∃ rest, h = ⟨.receiveText, false⟩ :: rest := by
  cases i with
  | backend t =>
    cases t with
    | broadcaster =>
      obtain ⟨msg, rest, rfl⟩ := permitted
      exact .inl ⟨_, List.mem_cons_self, beq_self_eq_true n⟩
    | _ => exact permitted.elim
  | stateSocket m =>
    obtain ⟨rfl, rest, rfl | rfl⟩ := permitted
    · exact .inl ⟨_, List.mem_cons_self, beq_self_eq_true n⟩
    · exact .inr ⟨rfl, rest, rfl⟩
  | monitor | me => exact permitted.elim

theorem history_other {n : Nat} (other : i ≠ .stateSocket n ∨ enrols e = false) :
    attends (historyOf (.stateSocket n) (⟨i, e, r, s, after⟩ :: log)) = attends (historyOf (.stateSocket n) log) := by
  rw [historyOf_cons]
  split
  · rename_i own
    rcases other with not_ | quiet
    · exact absurd own not_
    · exact attends_other quiet r _
  · rfl

theorem identified_later {n : Nat} (known : Identified (historyOf (.stateSocket n) log))
    (x : Entry StateTask StateAnswer StateShared) : Identified (historyOf (.stateSocket n) (x :: log)) := by
  rw [historyOf_cons]
  split
  · exact known.later _
  · exact known

theorem Enrolled.add (enrolled : Enrolled s log) {n : Nat} {u : User} {r : StateAnswer (.addClient n)}
    (known : u.email ≠ "" ∧ historyOf (.stateSocket n) log = [⟨.backend .acceptSocket, u⟩])
    (clients : after.clients = n :: s.clients.erase n) :
    Enrolled after (⟨.stateSocket n, .addClient n, r, s, after⟩ :: log) := by
  have own : historyOf (.stateSocket n) (⟨.stateSocket n, .addClient n, r, s, after⟩ :: log) =
      ⟨.addClient n, r⟩ :: historyOf (.stateSocket n) log := historyOf_cons_self _ log
  have others {m : Nat} (differs : m ≠ n) :
      attends (historyOf (.stateSocket m) (⟨.stateSocket n, .addClient n, r, s, after⟩ :: log)) =
        attends (historyOf (.stateSocket m) log) :=
    history_other (.inl fun same => differs (StateTask.stateSocket.inj same).symm)
  refine ⟨?_, fun m member => ?_, fun m attending gone => ?_⟩
  · rw [clients, List.nodup_cons]
    exact ⟨fun member => enrolled.distinct.not_mem_erase member, enrolled.distinct.erase n⟩
  · rw [clients] at member
    rcases List.mem_cons.mp member with rfl | before
    · rw [own, known.2]
      exact ⟨rfl, u, known.1, by simp⟩
    · by_cases same : m = n
      · subst same
        exact absurd before enrolled.distinct.not_mem_erase
      · rw [others same]
        obtain ⟨attending, identified⟩ := enrolled.attending m (List.mem_of_mem_erase before)
        exact ⟨attending, identified_later identified _⟩
  · rw [clients, List.mem_cons, not_or] at gone
    rw [others gone.1] at attending
    have missing : m ∉ s.clients := fun member => gone.2 ((List.mem_erase_of_ne gone.1).mpr member)
    obtain ⟨x, member, lost⟩ := enrolled.missing m attending missing
    exact ⟨x, List.mem_cons_of_mem _ member, lost⟩

theorem Enrolled.discard (enrolled : Enrolled s log) {n : Nat} {r : StateAnswer (.discardClient n)}
    (permitted : rosterPermits i (historyOf i log) (.discardClient n)) (clients : after.clients = s.clients.erase n) :
    Enrolled after (⟨i, .discardClient n, r, s, after⟩ :: log) := by
  have others {m : Nat} (differs : m ≠ n) :
      attends (historyOf (.stateSocket m) (⟨i, .discardClient n, r, s, after⟩ :: log)) =
        attends (historyOf (.stateSocket m) log) := by
    apply history_other
    left
    rintro rfl
    exact differs permitted.1.symm
  refine ⟨?_, fun m member => ?_, fun m attending gone => ?_⟩
  · rw [clients]
    exact enrolled.distinct.erase n
  · rw [clients] at member
    have differs : m ≠ n := by
      rintro rfl
      exact enrolled.distinct.not_mem_erase member
    rw [others differs]
    obtain ⟨attending, identified⟩ := enrolled.attending m (List.mem_of_mem_erase member)
    exact ⟨attending, identified_later identified _⟩
  · by_cases same : m = n
    · subst same
      rcases discards permitted with ⟨x, member, lost⟩ | ⟨rfl, rest, ended⟩
      · obtain ⟨y, logged, -, rfl⟩ := mem_of_historyOf member
        exact ⟨y, List.mem_cons_of_mem _ logged, lost⟩
      · have own : historyOf (.stateSocket m) (⟨.stateSocket m, .discardClient m, r, s, after⟩ :: log) =
            ⟨.discardClient m, r⟩ :: historyOf (.stateSocket m) log := historyOf_cons_self _ log
        rw [own, ended] at attending
        cases attending
    · rw [others same] at attending
      have missing : m ∉ s.clients := fun member => gone (clients ▸ (List.mem_erase_of_ne same).mpr member)
      obtain ⟨x, member, lost⟩ := enrolled.missing m attending missing
      exact ⟨x, List.mem_cons_of_mem _ member, lost⟩

theorem Enrolled.other (enrolled : Enrolled s log) (quiet : enrols e = false) (clients : after.clients = s.clients) :
    Enrolled after (⟨i, e, r, s, after⟩ :: log) := by
  refine ⟨?_, fun m member => ?_, fun m attending gone => ?_⟩
  · rw [clients]
    exact enrolled.distinct
  · rw [history_other (.inr quiet)]
    obtain ⟨attending, identified⟩ := enrolled.attending m (clients ▸ member)
    exact ⟨attending, identified_later identified _⟩
  · rw [history_other (.inr quiet)] at attending
    obtain ⟨x, member, lost⟩ := enrolled.missing m attending (clients ▸ gone)
    exact ⟨x, List.mem_cons_of_mem _ member, lost⟩

theorem Enrolled.entry (enrolled : Enrolled s log) (clients : after.clients = clientsAfter s.clients e)
    (permitted : rosterPermits i (historyOf i log) e) : Enrolled after (⟨i, e, r, s, after⟩ :: log) := by
  cases e with
  | addClient n =>
    obtain ⟨rfl, u, known, first⟩ := socket_of_adds permitted
    exact enrolled.add ⟨known, first⟩ clients
  | discardClient n => exact enrolled.discard permitted clients
  | _ => exact enrolled.other rfl clients

end Steps

theorem enrolled_nil (store : MappingStore) : Enrolled { backend := { store } } [] :=
  ⟨.nil, fun _ member => absurd member List.not_mem_nil, fun _ attending => by cases attending⟩

theorem enrolled_entry {store : MappingStore} {events : List (StateTask × StateChoice)} {newer older : StateLog}
    {x : Entry StateTask StateAnswer StateShared} (split : (stateRun store events).log = newer ++ x :: older) :
    Enrolled x.before older ∧ stateSystem.Answered x ∧
      rosterPermits x.thread (historyOf x.thread older) x.effect := by
  refine rosterContract.run_before { backend := { store } } (P := Enrolled) (enrolled_nil store) ?_ events split
  rintro ⟨i, e, r, s, after⟩ log enrolled ⟨c, replied⟩ permitted
  exact enrolled.entry (StateShared.reply_clients replied) permitted

def sends : History StateAnswer → List (Nat × Option Received)
  | [] => []
  | ⟨.sendState n msg, _⟩ :: h => (n, msg) :: sends h
  | _ :: h => sends h

theorem round_of_looked {h : History StateAnswer} (begun : looked h = true) :
    ∃ round clients rest, h = round ++ ⟨.clients, clients⟩ :: rest ∧ ∀ s ∈ round, s.1 ≠ .clients := by
  induction h with
  | nil => cases begun
  | cons s h ih =>
    by_cases looks : s.1 = .clients
    · rcases s with ⟨e, clients⟩
      cases looks
      exact ⟨[], clients, h, rfl, fun s member => absurd member List.not_mem_nil⟩
    · have earlier : looked h = true := by
        rcases s with ⟨e, r⟩
        cases e <;> first | exact begun | exact absurd rfl looks
      obtain ⟨round, clients, rest, rfl, once⟩ := ih earlier
      refine ⟨s :: round, clients, rest, rfl, fun t member => ?_⟩
      rcases List.mem_cons.mp member with rfl | member
      · exact looks
      · exact once t member

section Round

variable {round rest : History StateAnswer} {clients : List Nat}

theorem round_observed (once : ∀ s ∈ round, s.1 ≠ .clients) :
    roster (round ++ ⟨.clients, clients⟩ :: rest) = clients ∧
      sentTo (round ++ ⟨.clients, clients⟩ :: rest) = (sends round).map Prod.fst ∧
      roundState (round ++ ⟨.clients, clients⟩ :: rest) = sample rest := by
  induction round with
  | nil => exact ⟨rfl, rfl, rfl⟩
  | cons s round ih =>
    obtain ⟨whole, sent, read⟩ := ih fun t member => once t (List.mem_cons_of_mem _ member)
    have other := once s List.mem_cons_self
    rcases s with ⟨e, r⟩
    cases e with
    | clients => exact absurd rfl other
    | sendState n msg => exact ⟨whole, congrArg (n :: ·) sent, read⟩
    | _ => exact ⟨whole, sent, read⟩

theorem round_same (once : ∀ s ∈ round, s.1 ≠ .clients)
    (permitted : Permitted roundsPermits (round ++ ⟨.clients, clients⟩ :: rest)) :
    ∀ p ∈ sends round, p.2 = sample rest := by
  induction round with
  | nil => exact fun p member => absurd member List.not_mem_nil
  | cons s round ih =>
    have within : ∀ t ∈ round, t.1 ≠ .clients := fun t member => once t (List.mem_cons_of_mem _ member)
    have older := ih within permitted.tail
    rcases s with ⟨e, r⟩
    cases e with
    | sendState n msg =>
      intro p member
      rcases List.mem_cons.mp member with rfl | member
      · have now : msg = roundState (round ++ ⟨.clients, clients⟩ :: rest) := permitted.head.1
        rw [now, (round_observed within).2.2]
      · exact older p member
    | _ => exact older

end Round

/-- What a round does for the sockets, `before` being everything up to its look at the clients. -/
structure Reaches (round : History StateAnswer) (before : StateLog) : Prop where
  once : ((sends round).map Prod.fst).Nodup
  users : ∀ n ∈ (sends round).map Prod.fst, attends (historyOf (.stateSocket n) before) = true ∧
    Identified (historyOf (.stateSocket n) before)
  all : ∀ n, attends (historyOf (.stateSocket n) before) = true →
    n ∈ (sends round).map Prod.fst ∨ ∃ x ∈ before, failed n x.step = true
  same : ∀ p ∈ sends round, p.2 = sample (ofBroadcaster before)

theorem rounds_permitted (store : MappingStore) (events : List (StateTask × StateChoice)) :
    Permitted roundsPermits (ofBroadcaster (stateRun store events).log) :=
  System.run_permitted (S := stateSystem) (i := .backend .broadcaster) (stateLoop_roster [])
    (fun _ h _ => stateLoop_roster h) { backend := { store } } events

/-- Every round of the broadcaster sends the state it has read to each socket of a known user whose `ws_state` is
    going on when the round looks at the clients, once, except for those to whom an earlier send has failed; and it
    sends to nobody else. -/
theorem round_reaches {store : MappingStore} {events : List (StateTask × StateChoice)} {newer older : StateLog}
    {x : Entry StateTask StateAnswer StateShared} (split : (stateRun store events).log = newer ++ x :: older)
    (sleeps : x.thread = .backend .broadcaster ∧ x.effect = .backend .sleep) :
    ∃ middle y before, older = middle ++ y :: before ∧ y.thread = .backend .broadcaster ∧ y.effect = .clients ∧
      (∀ s ∈ ofBroadcaster middle, s.1 ≠ .clients) ∧ Reaches (ofBroadcaster middle) before := by
  have permitted := (enrolled_entry split).2.2
  rw [sleeps.1, sleeps.2] at permitted
  obtain ⟨begun, all⟩ := permitted
  obtain ⟨round, clients, rest, whole, once⟩ := round_of_looked begun
  obtain ⟨middle, y, before, rfl, own, step, rfl, rfl⟩ := split_of_historyOf whole
  refine ⟨middle, y, before, rfl, own, congrArg Sigma.fst step, once, ?_⟩
  have at_y : (stateRun store events).log = (newer ++ x :: middle) ++ y :: before := by
    rw [split]
    simp
  obtain ⟨enrolled, answered, -⟩ := enrolled_entry at_y
  have perm : clients.Perm y.before.clients := by
    obtain ⟨c, replied⟩ := answered
    rcases y with ⟨thread, e, r, s, after⟩
    cases step
    exact StateShared.reply_perm replied
  obtain ⟨clients_, sent, -⟩ : roster (historyOf _ (middle ++ y :: before)) = clients ∧ _ ∧ _ :=
    whole ▸ round_observed once
  have served : (sends (ofBroadcaster middle)).map Prod.fst = clients.reverse := by
    rw [ofBroadcaster, ← sent, ← clients_, all, List.reverse_reverse]
  have members {n : Nat} : n ∈ (sends (ofBroadcaster middle)).map Prod.fst ↔ n ∈ y.before.clients := by
    rw [served, List.mem_reverse, perm.mem_iff]
  refine ⟨?_, fun n member => enrolled.attending n (members.mp member), fun n attending => ?_, ?_⟩
  · rw [served, List.nodup_reverse, perm.nodup_iff]
    exact enrolled.distinct
  · -- who attends and is no client has had a send fail
    by_cases member : n ∈ y.before.clients
    · exact .inl (members.mpr member)
    · exact .inr (enrolled.missing n attending member)
  · have along := rounds_permitted store events
    rw [split, ofBroadcaster, historyOf_append] at along
    have before_ := along.of_append
    rw [← sleeps.1, historyOf_cons_self, sleeps.1, whole] at before_
    exact round_same once before_.tail

def watchedRound : List (StateTask × StateChoice) := secondGame ++ loopRound 3 [0]

theorem round_reaches_watched :
    ∃ x older, (stateRun .empty watchedRound).log = x :: older ∧ ∃ middle y before, older = middle ++ y :: before ∧
      y.effect = .clients ∧ Reaches (ofBroadcaster middle) before := by
  have split : (stateRun .empty watchedRound).log =
      [] ++ (stateRun .empty watchedRound).log.head (by decide +kernel) :: (stateRun .empty watchedRound).log.tail :=
    (List.cons_head_tail _).symm
  obtain ⟨middle, y, before, older, -, looks, -, reaches⟩ := round_reaches split ⟨rfl, rfl⟩
  exact ⟨_, _, split, middle, y, before, older, looks, reaches⟩

end WebControl.Backend
