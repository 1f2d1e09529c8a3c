import WkWebControl.Backend.SentInOrder
import WkWebControl.Frontend.GameState

open Effects WebControl WebControl.Backend

namespace WebControl.Frontend

namespace GameState

def messageOf : Callback → Option StateMessage
  | .message msg => some msg
  | .close => none

def heardMessages (heard : List Callback) : List StateMessage := heard.filterMap messageOf

def gameOf : StateMessage → Option Int
  | .state snapshot => some snapshot.gameId
  | .offline => none

theorem heardIds_eq (heard : List Callback) : heardIds heard = (heardMessages heard).filterMap gameOf := by
  rw [heardIds, heardMessages, List.filterMap_filterMap]
  congr
  funext callback
  cases callback with
  | message msg => cases msg <;> rfl
  | close => rfl

structure Silent (s s' : GameState) : Prop where
  ws : s'.ws = s.ws
  made : s'.sockets.length = s.sockets.length
  heard : heardMessages s'.heard = heardMessages s.heard

variable (s : GameState)

theorem silent_onclose {s' : GameState} (silent : Silent s s') : Silent s s'.onclose := by
  unfold onclose
  split
  · exact silent
  · exact ⟨silent.ws, silent.made, silent.heard⟩

theorem silent_opens (socket : Nat) : Silent s (s.step (.opens socket)) := by
  rw [step]
  split
  · exact ⟨rfl, List.length_set, rfl⟩
  · exact ⟨rfl, rfl, rfl⟩

theorem silent_closes (socket : Nat) (error : Bool) : Silent s (s.step (.closes socket error)) := by
  rw [step]
  split
  · exact ⟨rfl, rfl, rfl⟩
  · exact ⟨rfl, rfl, rfl⟩
  · apply silent_onclose
    split
    · refine ⟨rfl, ?_, rfl⟩
      rw [onerror, closeSocket, List.length_modify, List.length_set]
    · exact ⟨rfl, List.length_set, rfl⟩

theorem silent_unmount : Silent s (s.step .unmount) := by
  rw [step]
  split
  · exact ⟨rfl, rfl, rfl⟩
  · rw [cleanup_eq]
    exact ⟨rfl, List.length_modify _ _ _, rfl⟩

end GameState

/-- `_envelope` -/
def envelope : Option Received → StateMessage
  | none => .offline
  | some received => .state received.snapshot

structure Browser where
  endpoint : Nat → Nat
  socket : Nat → Option Nat
  socket_endpoint : ∀ n k, socket n = some k ↔ endpoint k = n

/-- A page and the backend; `arrived` counts the messages that have come in on each socket of the page. -/
structure Watching where
  backend : State StateTask StateEffect StateAnswer StateShared StateFlow
  page : GameState
  arrived : Nat → Nat

inductive WatchEvent where
  | backend (thread : StateTask) (choice : StateChoice)
  | opens (socket : Nat)
  | arrives (socket : Nat)
  | closes (socket : Nat) (error : Bool)
  | timeout (timer : Nat)
  | unmount

namespace Watching

variable (b : Browser)

/-- The backend hears of a socket of the page only after the page has made it. -/
def made (s : Watching) : StateTask → Bool
  | .stateSocket n => (b.socket n).all (· < s.page.sockets.length)
  | _ => true

def sent (s : Watching) (socket : Nat) : List StateMessage :=
  ((messages (b.endpoint socket) s.backend.log).map envelope).reverse

/-- Messages arrive in the order in which they were sent, as long as the socket is open. -/
def step (s : Watching) : WatchEvent → Watching
  | .backend thread choice =>
    if s.made b thread then { s with backend := stateSystem.step s.backend (thread, choice) } else s
  | .arrives socket =>
    if s.page.sockets[socket]? = some .opened then
      match (s.sent b socket)[s.arrived socket]? with
      | some msg =>
        { s with
          page := s.page.step (.message socket msg)
          arrived := Function.update s.arrived socket (s.arrived socket + 1) }
      | none => s
    else s
  | .opens socket => { s with page := s.page.step (.opens socket) }
  | .closes socket error => { s with page := s.page.step (.closes socket error) }
  | .timeout timer => { s with page := s.page.step (.timeout timer) }
  | .unmount => { s with page := s.page.step .unmount }

def initial (store : MappingStore) : Watching :=
  { backend := stateSystem.initial { backend := { store } }, page := GameState.connect {}, arrived := fun _ => 0 }

def run (store : MappingStore) (events : List WatchEvent) : Watching := events.foldl (step b) (initial store)

open GameState

/-- The moments from which the page has its messages: `delivered` came in on its present socket, `earlier` on those
    before, which is before the backend heard of this one. -/
structure Stems (s : Watching) (delivered earlier : List Nat) : Prop where
  now : ∃ pending, moments (b.endpoint s.page.ws) s.backend.log = pending ++ delivered
  count : delivered.length = s.arrived s.page.ws
  heard : heardMessages s.page.heard = (delivered ++ earlier).map fun k => envelope (heldAt s.backend.log k)
  order : earlier.Pairwise (· ≥ ·)
  past : ∀ k ∈ earlier, k < (held s.backend.log).length
  before : ∀ k ∈ earlier, ∀ j, joined (b.endpoint s.page.ws) s.backend.log = some j → k ≤ j

structure Heard (s : Watching) : Prop where
  fresh : ∀ k, s.page.sockets.length ≤ k → joined (b.endpoint k) s.backend.log = none ∧ s.arrived k = 0
  stems : ∃ delivered earlier, Stems b s delivered earlier

variable {b} {s : Watching}

section Stems

variable {delivered earlier : List Nat} (stems : Stems b s delivered earlier)

include stems

theorem Stems.mem_moments {k : Nat} (member : k ∈ delivered) : k ∈ moments (b.endpoint s.page.ws) s.backend.log := by
  obtain ⟨pending, now⟩ := stems.now
  rw [now]
  exact List.mem_append_right pending member

variable (told : Told (b.endpoint s.page.ws) s.backend.log)

include told

theorem Stems.all_past : ∀ k ∈ delivered ++ earlier, k < (held s.backend.log).length := by
  intro k member
  rcases List.mem_append.mp member with member | member
  · exact told.past k (stems.mem_moments member)
  · exact stems.past k member

theorem Stems.all_order : (delivered ++ earlier).Pairwise (· ≥ ·) := by
  obtain ⟨pending, now⟩ := stems.now
  have order := told.order
  rw [now] at order
  refine List.pairwise_append.mpr ⟨(List.pairwise_append.mp order).2.1, stems.order, fun k among l before => ?_⟩
  obtain ⟨j, since, le⟩ := told.since k (stems.mem_moments among)
  exact Nat.le_trans (stems.before l before j since) le

end Stems

theorem Heard.backend (heard : Heard b s) (told : Told (b.endpoint s.page.ws) s.backend.log)
    {x : Entry StateTask StateAnswer StateShared} (made : s.made b x.thread = true)
    {after : State StateTask StateEffect StateAnswer StateShared StateFlow} (log : after.log = x :: s.backend.log) :
    Heard b { s with backend := after } := by
  obtain ⟨delivered, earlier, stems⟩ := heard.stems
  refine ⟨fun k unmade => ?_, delivered, earlier, ?_, stems.count, ?_, stems.order, ?_, ?_⟩
  · refine ⟨?_, (heard.fresh k unmade).2⟩
    have other : x.thread ≠ .stateSocket (b.endpoint k) := by
      intro own
      rw [own, Watching.made, (b.socket_endpoint _ k).mpr rfl, Option.all_some, decide_eq_true_iff] at made
      exact Nat.not_lt.mpr unmade made
    change joined (b.endpoint k) after.log = none
    rw [log, joined_other other]
    exact (heard.fresh k unmade).1
  · obtain ⟨pending, now⟩ := stems.now
    obtain ⟨newer, grows⟩ := moments_cons (b.endpoint s.page.ws) x s.backend.log
    refine ⟨newer ++ pending, ?_⟩
    change moments (b.endpoint s.page.ws) after.log = _
    rw [log, grows, now, List.append_assoc]
  · change _ = (delivered ++ earlier).map fun k => envelope (heldAt after.log k)
    rw [stems.heard, log]
    apply List.map_congr_left
    intro k member
    rw [heldAt_cons x (stems.all_past told k member)]
  · intro k member
    change k < (held after.log).length
    rw [log]
    exact Nat.lt_of_lt_of_le (stems.past k member) (held_longer x s.backend.log)
  · intro k member j since
    change joined (b.endpoint s.page.ws) after.log = some j at since
    rw [log] at since
    rcases joined_cons (b.endpoint s.page.ws) x s.backend.log with same | ⟨-, now⟩
    · exact stems.before k member j (same.symm.trans since)
    · cases now.symm.trans since
      exact Nat.le_sub_one_of_lt (stems.past k member)

theorem Heard.silent (heard : Heard b s) {page : GameState} (silent : Silent s.page page) :
    Heard b { s with page } := by
  obtain ⟨delivered, earlier, stems⟩ := heard.stems
  refine ⟨fun k unmade => heard.fresh k (silent.made ▸ unmade), delivered, earlier, ?_⟩
  have same : ({ s with page } : Watching).page.ws = s.page.ws := silent.ws
  constructor
  · rw [same]
    exact stems.now
  · rw [same]
    exact stems.count
  · exact silent.heard.trans stems.heard
  · exact stems.order
  · exact stems.past
  · rw [same]
    exact stems.before

theorem Heard.connects (heard : Heard b s) (told : Told (b.endpoint s.page.ws) s.backend.log)
    (next : Told (b.endpoint s.page.sockets.length) s.backend.log) {page : GameState}
    (ws : page.ws = s.page.sockets.length) (made : page.sockets.length = s.page.sockets.length + 1)
    (same : heardMessages page.heard = heardMessages s.page.heard) : Heard b { s with page } := by
  obtain ⟨delivered, earlier, stems⟩ := heard.stems
  obtain ⟨new, none_⟩ := heard.fresh _ (Nat.le_refl _)
  refine ⟨fun k unmade => ?_, [], delivered ++ earlier, ?_, ?_, same.trans stems.heard,
    stems.all_order told, stems.all_past told, ?_⟩
  · change page.sockets.length ≤ k at unmade
    rw [made] at unmade
    exact heard.fresh k (Nat.le_of_succ_le unmade)
  · refine ⟨[], ?_⟩
    change moments (b.endpoint page.ws) s.backend.log = []
    rw [ws]
    apply List.eq_nil_iff_forall_not_mem.mpr
    intro k member
    obtain ⟨j, since, -⟩ := next.since k member
    rw [new] at since
    cases since
  · change 0 = s.arrived page.ws
    rw [ws, none_]
  · intro k _ j since
    change joined (b.endpoint page.ws) s.backend.log = some j at since
    rw [ws, new] at since
    cases since

theorem Stems.next {delivered earlier : List Nat} (stems : Stems b s delivered earlier)
    (told : Told (b.endpoint s.page.ws) s.backend.log) {msg : StateMessage}
    (next : (s.sent b s.page.ws)[s.arrived s.page.ws]? = some msg) :
    ∃ k pending, moments (b.endpoint s.page.ws) s.backend.log = pending ++ k :: delivered ∧
      msg = envelope (heldAt s.backend.log k) := by
  obtain ⟨pending, now⟩ := stems.now
  rw [sent, told.what, now, List.map_map, ← stems.count, ← List.map_reverse, List.reverse_append, List.map_append,
    List.getElem?_append_right (by simp), List.length_map, List.length_reverse, Nat.sub_self] at next
  cases pending using List.reverseRecOn with
  | nil => cases next
  | append_singleton pending k =>
    rw [List.reverse_append] at next
    exact ⟨k, pending, by rw [now, List.append_assoc]; rfl, (Option.some.inj next).symm⟩

theorem Heard.arrives (heard : Heard b s) (told : Told (b.endpoint s.page.ws) s.backend.log) {msg : StateMessage}
    (open_ : s.page.sockets[s.page.ws]? = some .opened)
    (next : (s.sent b s.page.ws)[s.arrived s.page.ws]? = some msg) :
    Heard b { s with
      page := s.page.step (.message s.page.ws msg)
      arrived := Function.update s.arrived s.page.ws (s.arrived s.page.ws + 1) } := by
  obtain ⟨delivered, earlier, stems⟩ := heard.stems
  obtain ⟨k, pending, now, stemming⟩ := stems.next told next
  have within : s.page.ws < s.page.sockets.length := (List.getElem?_eq_some_iff.mp open_).1
  have gets : s.page.step (.message s.page.ws msg) = s.page.onmessage msg := by rw [GameState.step, if_pos open_]
  have shape : (s.page.onmessage msg).ws = s.page.ws ∧ (s.page.onmessage msg).sockets = s.page.sockets ∧
      heardMessages (s.page.onmessage msg).heard = msg :: heardMessages s.page.heard := by
    cases msg <;> exact ⟨rfl, rfl, rfl⟩
  obtain ⟨ws, sockets, hears⟩ := shape
  refine ⟨fun l unmade => ?_, k :: delivered, earlier, ?_⟩
  · rw [gets] at unmade
    change (s.page.onmessage msg).sockets.length ≤ l at unmade
    rw [sockets] at unmade
    refine ⟨(heard.fresh l unmade).1, ?_⟩
    change Function.update s.arrived s.page.ws _ l = 0
    rw [Function.update_of_ne (Nat.ne_of_gt (Nat.lt_of_lt_of_le within unmade))]
    exact (heard.fresh l unmade).2
  · rw [gets]
    constructor
    · change ∃ pending, moments (b.endpoint (s.page.onmessage msg).ws) s.backend.log = _
      rw [ws]
      exact ⟨pending, now⟩
    · change _ = Function.update s.arrived s.page.ws _ (s.page.onmessage msg).ws
      rw [ws, Function.update_self, List.length_cons, stems.count]
    · change heardMessages (s.page.onmessage msg).heard = _
      rw [hears, stems.heard, stemming]
      rfl
    · exact stems.order
    · exact stems.past
    · change ∀ k ∈ earlier, ∀ j, joined (b.endpoint (s.page.onmessage msg).ws) s.backend.log = some j → k ≤ j
      rw [ws]
      exact stems.before

theorem Heard.timeout (heard : Heard b s) (told : ∀ n, Told n s.backend.log) (timer : Nat) :
    Heard b { s with page := s.page.step (.timeout timer) } := by
  by_cases due : timer ∈ s.page.timers
  · have makes : s.page.step (.timeout timer) = connect (s.page.clearTimeout timer) := by
      rw [GameState.step, if_pos due]
    refine heard.connects (told _) (told _) ?_ ?_ ?_
    · rw [makes]
      rfl
    · rw [makes]
      exact List.length_append
    · rw [makes]
      rfl
  · rw [GameState.step, if_neg due]
    exact heard

theorem Heard.step (heard : Heard b s) (told : ∀ n, Told n s.backend.log) {state : ReadyState}
    (connected : Connected s.page state) (e : WatchEvent) : Heard b (s.step b e) := by
  cases e with
  | backend thread choice =>
    rw [Watching.step]
    split
    · rename_i made
      rcases stateSystem.step_cases s.backend (thread, choice) with same | ⟨e, next, r, after, _, _, stepped⟩
      · rw [same]
        exact heard
      · exact heard.backend (told _) (x := ⟨thread, e, r, _, after⟩) made (by rw [stepped])
    · exact heard
  | opens socket => exact heard.silent (silent_opens _ socket)
  | closes socket error => exact heard.silent (silent_closes _ socket error)
  | unmount => exact heard.silent (silent_unmount _)
  | timeout timer => exact heard.timeout told timer
  | arrives socket =>
    rw [Watching.step]
    split
    · rename_i open_
      obtain ⟨rfl, -⟩ := connected.get open_ (by decide)
      split
      · rename_i msg next
        exact heard.arrives (told _) open_ next
      · exact heard
    · exact heard

theorem step_backend (b : Browser) (s : Watching) (e : WatchEvent) :
    (s.step b e).backend = s.backend ∨ ∃ event, (s.step b e).backend = stateSystem.step s.backend event := by
  cases e with
  | backend thread choice =>
    rw [step]
    split
    · exact .inr ⟨(thread, choice), rfl⟩
    · exact .inl rfl
  | arrives socket =>
    left
    rw [step]
    split
    · split <;> rfl
    · rfl
  | _ => exact .inl rfl

theorem step_page (b : Browser) (s : Watching) (e : WatchEvent) :
    (s.step b e).page = s.page ∨ ∃ callback, (s.step b e).page = s.page.step callback := by
  cases e with
  | opens socket => exact .inr ⟨.opens socket, rfl⟩
  | closes socket error => exact .inr ⟨.closes socket error, rfl⟩
  | timeout timer => exact .inr ⟨.timeout timer, rfl⟩
  | unmount => exact .inr ⟨.unmount, rfl⟩
  | backend thread choice =>
    left
    rw [step]
    split <;> rfl
  | arrives socket =>
    rw [step]
    split
    · split
      · rename_i msg _
        exact .inr ⟨.message socket msg, rfl⟩
      · exact .inl rfl
    · exact .inl rfl

theorem run_snoc (store : MappingStore) (events : List WatchEvent) (e : WatchEvent) :
    run b store (events ++ [e]) = (run b store events).step b e := by
  rw [run, List.foldl_append]
  rfl

theorem run_backend (b : Browser) (store : MappingStore) (events : List WatchEvent) :
    ∃ steps, (run b store events).backend = stateRun store steps := by
  induction events using List.reverseRecOn with
  | nil => exact ⟨[], rfl⟩
  | append_singleton events e ih =>
    obtain ⟨steps, before⟩ := ih
    rw [run_snoc]
    rcases step_backend b (run b store events) e with same | ⟨event, stepped⟩
    · exact ⟨steps, same.trans before⟩
    · refine ⟨steps ++ [event], ?_⟩
      rw [stepped, before, stateRun, stateRun, System.run, System.run, List.foldl_append]
      rfl

theorem run_page (b : Browser) (store : MappingStore) (events : List WatchEvent) :
    ∃ callbacks, (run b store events).page = GameState.run callbacks := by
  induction events using List.reverseRecOn with
  | nil => exact ⟨[], rfl⟩
  | append_singleton events e ih =>
    obtain ⟨callbacks, before⟩ := ih
    rw [run_snoc]
    rcases step_page b (run b store events) e with same | ⟨callback, stepped⟩
    · exact ⟨callbacks, same.trans before⟩
    · exact ⟨callbacks ++ [callback], by rw [stepped, before, GameState.run_snoc]⟩

theorem uninterrupted_step {e : WatchEvent} (along : uninterrupted (s.step b e).backend.log = true) :
    uninterrupted s.backend.log = true := by
  rcases step_backend b s e with same | ⟨event, stepped⟩
  · exact same ▸ along
  · rw [stepped] at along
    rcases stateSystem.step_cases s.backend event with same | ⟨e, next, r, after, _, _, entry⟩
    · exact same ▸ along
    · rw [entry] at along
      exact ((Bool.and_eq_true _ _).mp along).1

theorem run_told (b : Browser) (store : MappingStore) (events : List WatchEvent)
    (along : uninterrupted (run b store events).backend.log = true) (n : Nat) :
    Told n (run b store events).backend.log := by
  obtain ⟨steps, same⟩ := run_backend b store events
  rw [same] at along ⊢
  exact (run_inTime store steps along).told n

theorem run_heard (b : Browser) (store : MappingStore) (events : List WatchEvent)
    (along : uninterrupted (run b store events).backend.log = true) : Heard b (run b store events) := by
  induction events using List.reverseRecOn with
  | nil =>
    refine ⟨fun k _ => ⟨rfl, rfl⟩, [], [], ?_⟩
    refine ⟨⟨[], rfl⟩, rfl, rfl, .nil, fun k member => absurd member List.not_mem_nil, ?_⟩
    exact fun k member => absurd member List.not_mem_nil
  | append_singleton events e ih =>
    rw [run_snoc] at along ⊢
    have older := uninterrupted_step along
    obtain ⟨callbacks, same⟩ := run_page b store events
    obtain ⟨state, connected⟩ := connected_run callbacks
    exact (ih older).step (run_told b store events older) (same ▸ connected) e

theorem heardIds_forward {log : StateLog} (forward : (arrivals log).Pairwise (· ≥ ·)) {moments : List Nat}
    (order : moments.Pairwise (· ≥ ·)) :
    ((moments.map fun k => envelope (heldAt log k)).filterMap gameOf).Pairwise (· ≥ ·) := by
  rw [List.filterMap_map]
  refine List.Pairwise.filterMap _ (fun k l le id shown id' shown' => ?_) order
  have read {m : Nat} {id : Int} (shown : gameOf (envelope (heldAt log m)) = some id) :
      ∃ seen, heldAt log m = some seen ∧ seen.snapshot.gameId = id := by
    cases at_ : heldAt log m with
    | none =>
      rw [at_] at shown
      cases shown
    | some seen =>
      rw [at_] at shown
      exact ⟨seen, rfl, Option.some.inj shown⟩
  obtain ⟨later, at_k, rfl⟩ := read shown
  obtain ⟨earlier, at_l, rfl⟩ := read shown'
  exact heldAt_forward forward le at_l at_k

/-- From `_latest` to the page, across the reconnects of the hook: message after message it hears what `_latest` was at
    moments of which none is after the one before it. So no earlier game comes back as long as the snapshots
    arrive in the order of their games, and the team is fetched again at most once for each. -/
theorem shown_in_order (b : Browser) (store : MappingStore) (events : List WatchEvent)
    (along : uninterrupted (run b store events).backend.log = true) :
    (∃ moments : List Nat, moments.Pairwise (· ≥ ·) ∧
      (∀ k ∈ moments, k < (held (run b store events).backend.log).length) ∧
      heardMessages (run b store events).page.heard =
        moments.map fun k => envelope (heldAt (run b store events).backend.log k)) ∧
    ((arrivals (run b store events).backend.log).Pairwise (· ≥ ·) →
      (heardIds (run b store events).page.heard).Pairwise (· ≥ ·) ∧
      (changes (heardIds (run b store events).page.heard)).Pairwise (· > ·) ∧
      (run b store events).page.newGames = (changes (heardIds (run b store events).page.heard)).length) := by
  obtain ⟨delivered, earlier, stems⟩ := (run_heard b store events along).stems
  have told := run_told b store events along (b.endpoint (run b store events).page.ws)
  refine ⟨⟨_, stems.all_order told, stems.all_past told, stems.heard⟩, fun forward => ?_⟩
  have order : (heardIds (run b store events).page.heard).Pairwise (· ≥ ·) := by
    rw [heardIds_eq, stems.heard]
    exact heardIds_forward forward (stems.all_order told)
  refine ⟨order, changes_ascend order, ?_⟩
  obtain ⟨callbacks, same⟩ := run_page b store events
  rw [same]
  exact (tells_run callbacks).newGames

/-- The page is the only one, and is shown game 1 and then, on its second socket, game 2. -/
def onlyPage : Browser where
  endpoint := id
  socket := some
  socket_endpoint n k := by simp [eq_comm]

def byBackend (events : List (StateTask × StateChoice)) : List WatchEvent :=
  events.map fun event => .backend event.1 event.2

def reconnects : List WatchEvent :=
  byBackend secondGame ++ [.opens 0, .arrives 0, .closes 0 false, .timeout 0] ++ byBackend (loopRound 3 [0]) ++
    byBackend (watches 1 alice) ++ [.opens 1, .arrives 1]

theorem shown_in_order_reconnects :
    heardIds (run onlyPage .empty reconnects).page.heard = [2, 1] ∧
    (run onlyPage .empty reconnects).page.newGames =
      (changes (heardIds (run onlyPage .empty reconnects).page.heard)).length :=
  ⟨by decide +kernel,
    ((shown_in_order onlyPage .empty reconnects (by decide +kernel)).2 (by decide +kernel)).2.2⟩

end Watching

end WebControl.Frontend
