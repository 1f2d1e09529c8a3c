import Mathlib.Data.List.Basic
import WkWebControl.Backend.NewGameCalls

open WebControl.Backend

namespace WebControl.Frontend

inductive ReadyState where
  | connecting
  | opened
  | closing
  | closed
  deriving DecidableEq

def ReadyState.close : ReadyState → ReadyState
  | .connecting | .opened => .closing
  | state => state

inductive StateMessage where
  | state (snapshot : GameSnapshot)
  | offline

inductive Callback where
  | message (msg : StateMessage)
  | close

/-- `useGameState`: the variables of its effect and its state, with what the browser keeps for it. -/
structure GameState where
  closed : Bool := false
  /-- `ws`, a number of a socket -/
  ws : Nat := 0
  retry : Option Nat := none
  snapshot : Option GameSnapshot := none
  offline : Bool := true
  lastGameId : Option Int := none
  newGames : Nat := 0
  /-- The sockets in the order in which they were made, and the timers that are set. -/
  sockets : List ReadyState := []
  timers : List Nat := []
  timersSet : Nat := 0
  /-- What no code keeps: the callbacks so far, the newest first. -/
  heard : List Callback := []

namespace GameState

inductive Event where
  | opens (socket : Nat)
  | message (socket : Nat) (msg : StateMessage)
  /-- The socket is closed, after an error or without one. -/
  | closes (socket : Nat) (error : Bool)
  | timeout (timer : Nat)
  | unmount

def connect (s : GameState) : GameState :=
  { s with ws := s.sockets.length, sockets := s.sockets ++ [.connecting] }

def closeSocket (s : GameState) (socket : Nat) : GameState :=
  { s with sockets := s.sockets.modify socket ReadyState.close }

def onmessage (s : GameState) : StateMessage → GameState
  | .offline => { s with offline := true, snapshot := none, heard := .message .offline :: s.heard }
  | .state snapshot =>
    { s with
      offline := false
      snapshot := some snapshot
      newGames := match s.lastGameId with
        | some last => if snapshot.gameId ≠ last then s.newGames + 1 else s.newGames
        | none => s.newGames
      lastGameId := some snapshot.gameId
      heard := .message (.state snapshot) :: s.heard }

def onclose (s : GameState) : GameState :=
  if s.closed then s
  else
    { s with
      offline := true
      retry := some s.timersSet
      timers := s.timersSet :: s.timers
      timersSet := s.timersSet + 1
      heard := .close :: s.heard }

def onerror (s : GameState) : GameState := s.closeSocket s.ws

def clearTimeout (s : GameState) (timer : Nat) : GameState := { s with timers := s.timers.filter (· ≠ timer) }

def cleanup (s : GameState) : GameState :=
  let s := { s with closed := true }
  let s := match s.retry with
    | some timer => s.clearTimeout timer
    | none => s
  s.closeSocket s.ws

/-- What the browser does next; it tells nothing of a socket that is not open, and nothing more of one
    that is closed. -/
def step (s : GameState) : Event → GameState
  | .opens socket =>
    if s.sockets[socket]? = some .connecting then { s with sockets := s.sockets.set socket .opened } else s
  | .message socket msg => if s.sockets[socket]? = some .opened then s.onmessage msg else s
  | .closes socket error =>
    match s.sockets[socket]? with
    | some .closed | none => s
    | some _ =>
      let s : GameState := { s with sockets := s.sockets.set socket .closed }
      (if error then s.onerror else s).onclose
  | .timeout timer => if timer ∈ s.timers then connect (s.clearTimeout timer) else s
  | .unmount => if s.closed then s else s.cleanup

def run (events : List Event) : GameState := events.foldl step (connect {})

theorem run_snoc (events : List Event) (e : Event) : run (events ++ [e]) = (run events).step e := by
  rw [run, List.foldl_append]
  rfl

theorem newest_get (n : Nat) (state : ReadyState) :
    (List.replicate n ReadyState.closed ++ [state])[n]? = some state := by
  simp

theorem newest_set (n : Nat) (state state' : ReadyState) :
    (List.replicate n ReadyState.closed ++ [state]).set n state' = List.replicate n .closed ++ [state'] := by
  rw [List.set_append_right _ _ (by simp)]
  simp

theorem newest_modify (n : Nat) (state : ReadyState) :
    (List.replicate n ReadyState.closed ++ [state]).modify n ReadyState.close =
      List.replicate n .closed ++ [state.close] := by
  induction n with
  | zero => rfl
  | succ n ih => rw [List.replicate_succ, List.cons_append, List.modify_succ_cons, ih, List.cons_append]

theorem newest_of_get {n i : Nat} {state found : ReadyState}
    (get : (List.replicate n ReadyState.closed ++ [state])[i]? = some found) (open_ : found ≠ .closed) :
    i = n ∧ found = state := by
  rcases Nat.lt_trichotomy i n with less | rfl | more
  · rw [List.getElem?_append_left (by simpa using less), List.getElem?_replicate, if_pos less] at get
    cases get
    exact absurd rfl open_
  · rw [newest_get] at get
    cases get
    exact ⟨rfl, rfl⟩
  · rw [List.getElem?_eq_none (by simp; omega)] at get
    cases get

/-- All sockets but the newest are closed. While the hook is mounted, either that one is not, or a timer is
    set for the next; after that it will tell nothing any more, and no timer is set. -/
structure Connected (s : GameState) (state : ReadyState) : Prop where
  sockets : s.sockets = List.replicate s.ws .closed ++ [state]
  mounted : s.closed = false → state ≠ .closed ∧ s.timers = [] ∨
    state = .closed ∧ ∃ timer, s.retry = some timer ∧ s.timers = [timer]
  ended : s.closed = true → s.timers = [] ∧ (state = .closing ∨ state = .closed)

variable {s : GameState} {state : ReadyState}

theorem Connected.get {i : Nat} {found : ReadyState} (connected : Connected s state)
    (get : s.sockets[i]? = some found) (open_ : found ≠ .closed) : i = s.ws ∧ found = state := by
  rw [connected.sockets] at get
  exact newest_of_get get open_

theorem Connected.isMounted (connected : Connected s state) (open_ : state ≠ .closed) (going : state ≠ .closing) :
    s.closed = false := by
  cases ended : s.closed with
  | false => rfl
  | true =>
    rcases (connected.ended ended).2 with same | same
    · exact absurd same going
    · exact absurd same open_

theorem Connected.noTimer (connected : Connected s state) (open_ : state ≠ .closed) : s.timers = [] := by
  cases ended : s.closed with
  | false =>
    rcases connected.mounted ended with live | waiting
    · exact live.2
    · exact absurd waiting.1 open_
  | true => exact (connected.ended ended).1

theorem connected_connect (mounted : s.closed = false) (none_ : s.timers = [])
    (all : s.sockets = List.replicate s.sockets.length .closed) : Connected (connect s) .connecting where
  sockets := by
    change s.sockets ++ [.connecting] = List.replicate s.sockets.length .closed ++ [.connecting]
    rw [← all]
  mounted _ := .inl ⟨by decide, none_⟩
  ended ended := by
    change s.closed = true at ended
    rw [mounted] at ended
    cases ended

theorem Connected.opens (connected : Connected s state) (socket : Nat) :
    ∃ state', Connected (s.step (.opens socket)) state' := by
  rw [step]
  split
  · rename_i waits
    obtain ⟨rfl, rfl⟩ := connected.get waits (by decide)
    have none_ := connected.noTimer (by decide)
    have mounted := connected.isMounted (by decide) (by decide)
    refine ⟨.opened, ?_, fun _ => .inl ⟨by decide, none_⟩, fun ended => ?_⟩
    · change s.sockets.set s.ws .opened = List.replicate s.ws .closed ++ [.opened]
      rw [connected.sockets, newest_set]
    · change s.closed = true at ended
      rw [mounted] at ended
      cases ended
  · exact ⟨state, connected⟩

theorem Connected.message (connected : Connected s state) (socket : Nat) (msg : StateMessage) :
    ∃ state', Connected (s.step (.message socket msg)) state' := by
  rw [step]
  refine ⟨state, ?_⟩
  split
  · cases msg <;> exact ⟨connected.sockets, connected.mounted, connected.ended⟩
  · exact connected

theorem Connected.gone (connected : Connected s state) (error : Bool) :
    (if error then onerror { s with sockets := s.sockets.set s.ws .closed }
      else { s with sockets := s.sockets.set s.ws .closed }) =
      { s with sockets := List.replicate s.ws .closed ++ [.closed] } := by
  have closed : s.sockets.set s.ws .closed = List.replicate s.ws .closed ++ [.closed] := by
    rw [connected.sockets, newest_set]
  rw [closed]
  have again : onerror { s with sockets := List.replicate s.ws .closed ++ [.closed] } =
      { s with sockets := List.replicate s.ws .closed ++ [.closed] } := by
    simp only [onerror, closeSocket, newest_modify, ReadyState.close]
  rw [again, ite_self]

theorem Connected.onclose (connected : Connected s state) (open_ : state ≠ .closed) :
    Connected (GameState.onclose { s with sockets := List.replicate s.ws .closed ++ [.closed] }) .closed := by
  unfold GameState.onclose
  split
  · rename_i ended
    have rest := connected.ended ended
    refine ⟨rfl, fun mounted => ?_, fun _ => ⟨rest.1, .inr rfl⟩⟩
    cases ended.symm.trans mounted
  · rename_i mounted
    have none_ := connected.noTimer open_
    refine ⟨rfl, fun _ => .inr ⟨rfl, s.timersSet, rfl, ?_⟩, fun ended => absurd ended mounted⟩
    change s.timersSet :: s.timers = [s.timersSet]
    rw [none_]

theorem Connected.closes (connected : Connected s state) (socket : Nat) (error : Bool) :
    ∃ state', Connected (s.step (.closes socket error)) state' := by
  rw [step]
  split
  · exact ⟨state, connected⟩
  · exact ⟨state, connected⟩
  · rename_i found open_ get
    obtain ⟨rfl, rfl⟩ := connected.get get (by rintro rfl; exact open_ rfl)
    dsimp only
    rw [connected.gone]
    exact ⟨.closed, connected.onclose (by rintro rfl; exact open_ rfl)⟩

theorem Connected.timeout (connected : Connected s state) (timer : Nat) :
    ∃ state', Connected (s.step (.timeout timer)) state' := by
  rw [step]
  split
  · rename_i due
    cases ended : s.closed with
    | true =>
      rw [(connected.ended ended).1] at due
      exact absurd due List.not_mem_nil
    | false =>
      rcases connected.mounted ended with ⟨_, none_⟩ | ⟨rfl, timer', _, one⟩
      · rw [none_] at due
        exact absurd due List.not_mem_nil
      · rw [one, List.mem_singleton] at due
        subst due
        refine ⟨.connecting, connected_connect ended ?_ ?_⟩
        · change s.timers.filter _ = []
          rw [one]
          simp
        · change s.sockets = List.replicate s.sockets.length .closed
          rw [connected.sockets, List.length_append, List.length_replicate, List.length_singleton,
            List.replicate_succ']
  · exact ⟨state, connected⟩

theorem cleanup_eq (s : GameState) :
    s.cleanup = { s with
      closed := true
      timers := s.retry.elim s.timers fun timer => s.timers.filter (· ≠ timer)
      sockets := s.sockets.modify s.ws ReadyState.close } := by
  unfold cleanup
  cases retry : s.retry with
  | none => simp only [closeSocket, Option.elim_none]
  | some timer => simp only [closeSocket, clearTimeout, Option.elim_some]

theorem Connected.unmount (connected : Connected s state) : ∃ state', Connected (s.step .unmount) state' := by
  rw [step]
  split
  · exact ⟨state, connected⟩
  · rename_i mounted
    refine ⟨state.close, ?_, ?_, fun _ => ?_⟩
    · rw [cleanup_eq]
      change s.sockets.modify s.ws ReadyState.close = List.replicate s.ws .closed ++ [state.close]
      rw [connected.sockets, newest_modify]
    · rw [cleanup_eq]
      exact fun ended => by cases ended
    · rw [cleanup_eq]
      rcases connected.mounted (Bool.not_eq_true _ ▸ mounted) with ⟨open_, none_⟩ | ⟨rfl, timer, retry, one⟩
      · constructor
        · change (s.retry.elim s.timers fun timer => s.timers.filter (· ≠ timer)) = []
          rw [none_]
          cases s.retry <;> rfl
        · cases state <;> first | exact .inl rfl | exact absurd rfl open_
      · constructor
        · change (s.retry.elim s.timers fun timer => s.timers.filter (· ≠ timer)) = []
          rw [retry, one]
          simp
        · exact .inr rfl

theorem Connected.next (connected : Connected s state) (e : Event) : ∃ state', Connected (s.step e) state' := by
  cases e with
  | opens socket => exact connected.opens socket
  | message socket msg => exact connected.message socket msg
  | closes socket error => exact connected.closes socket error
  | timeout timer => exact connected.timeout timer
  | unmount => exact connected.unmount

theorem connected_run (events : List Event) : ∃ state, Connected (run events) state := by
  induction events using List.reverseRecOn with
  | nil => exact ⟨.connecting, connected_connect rfl rfl rfl⟩
  | append_singleton events e ih =>
    obtain ⟨state, connected⟩ := ih
    rw [run_snoc]
    exact connected.next e

def SameButSocket (s s' : GameState) : Prop :=
  ∃ state, s' = { s with sockets := List.replicate s.ws .closed ++ [state] }

theorem Connected.same (connected : Connected s state) : SameButSocket s s := by
  refine ⟨state, ?_⟩
  rw [← connected.sockets]

theorem Connected.ended_step (connected : Connected s state) (ended : s.closed = true) (e : Event) :
    SameButSocket s (s.step e) := by
  obtain ⟨none_, ends⟩ := connected.ended ended
  have quiet : ∀ {i : Nat} {found : ReadyState}, s.sockets[i]? = some found → found ≠ .closing →
      found = .closed := by
    intro i found get other
    by_contra open_
    obtain ⟨-, rfl⟩ := connected.get get open_
    rcases ends with same | same
    · exact other same
    · exact open_ same
  cases e with
  | opens socket =>
    rw [step]
    split
    · rename_i get
      cases quiet get (by decide)
    · exact connected.same
  | message socket msg =>
    rw [step]
    split
    · rename_i get
      cases quiet get (by decide)
    · exact connected.same
  | closes socket error =>
    rw [step]
    split
    · exact connected.same
    · exact connected.same
    · rename_i found open_ get
      -- the socket is still closing after the unmount, and `onclose` sets no timer then
      obtain ⟨rfl, rfl⟩ := connected.get get (by rintro rfl; exact open_ rfl)
      dsimp only
      rw [connected.gone]
      exact ⟨.closed, if_pos ended⟩
  | timeout timer =>
    rw [step, none_, if_neg List.not_mem_nil]
    exact connected.same
  | unmount =>
    rw [step, if_pos ended]
    exact connected.same

theorem ended_run {events : List Event} (ended : (run events).closed = true) (later : List Event) :
    SameButSocket (run events) (run (events ++ later)) := by
  induction later using List.reverseRecOn with
  | nil =>
    obtain ⟨state, connected⟩ := connected_run events
    rw [List.append_nil]
    exact connected.same
  | append_singleton later e ih =>
    obtain ⟨state, connected⟩ := connected_run (events ++ later)
    rw [← List.append_assoc, run_snoc]
    obtain ⟨before, same⟩ := ih
    rw [same] at connected ⊢
    exact connected.ended_step ended e

/-- Whatever the sockets, the timer and the page do in which order: while the hook is mounted it has either
    one socket that is not closed, which is the one in `ws`, or one timer set for the next; and from its
    cleanup on there is neither a timer nor a socket that could still tell it anything, and nothing it has
    shown or counted changes any more. -/
theorem one_connection (events : List Event) :
    (∃ state, (run events).sockets = List.replicate (run events).ws .closed ++ [state] ∧
      ((run events).closed = false → state ≠ .closed ∧ (run events).timers = [] ∨
        state = .closed ∧ ∃ timer, (run events).retry = some timer ∧ (run events).timers = [timer]) ∧
      ((run events).closed = true → (run events).timers = [] ∧ (state = .closing ∨ state = .closed))) ∧
    ((run events).closed = true → ∀ later, ∃ state,
      run (events ++ later) =
        { run events with sockets := List.replicate (run events).ws .closed ++ [state] }) := by
  obtain ⟨state, connected⟩ := connected_run events
  exact ⟨⟨state, connected.sockets, connected.mounted, connected.ended⟩, ended_run⟩

def idOf : Callback → Option Int
  | .message (.state snapshot) => some snapshot.gameId
  | _ => none

def heardIds (heard : List Callback) : List Int := heard.filterMap idOf

def newestSnapshot : List Callback → Option GameSnapshot
  | [] => none
  | .message (.state snapshot) :: _ => some snapshot
  | .message .offline :: _ => none
  | .close :: heard => newestSnapshot heard

def online : List Callback → Bool
  | .message (.state _) :: _ => true
  | _ => false

structure Tells (s : GameState) : Prop where
  snapshot : s.snapshot = newestSnapshot s.heard
  offline : s.offline = !online s.heard
  last : s.lastGameId = (heardIds s.heard).head?
  newGames : s.newGames = (changes (heardIds s.heard)).length

theorem Tells.onmessage (tells : Tells s) (msg : StateMessage) : Tells (s.onmessage msg) := by
  cases msg with
  | offline => exact ⟨rfl, rfl, tells.last, tells.newGames⟩
  | state snapshot =>
    refine ⟨rfl, rfl, rfl, ?_⟩
    change (match s.lastGameId with
      | some last => if snapshot.gameId ≠ last then s.newGames + 1 else s.newGames
      | none => s.newGames) = (changes (snapshot.gameId :: heardIds s.heard)).length
    rw [tells.last, tells.newGames]
    cases heardIds s.heard with
    | nil => rfl
    | cons id older =>
      change (if snapshot.gameId ≠ id then _ else _) = _
      rw [changes]
      by_cases same : snapshot.gameId = id
      · rw [if_neg (not_not_intro same), if_pos same]
      · rw [if_pos same, if_neg same, List.length_cons]

theorem Tells.same (tells : Tells s) {s' : GameState} (snapshot : s'.snapshot = s.snapshot)
    (offline : s'.offline = s.offline) (last : s'.lastGameId = s.lastGameId)
    (newGames : s'.newGames = s.newGames) (heard : s'.heard = s.heard) : Tells s' := by
  constructor
  · rw [snapshot, heard, tells.snapshot]
  · rw [offline, heard, tells.offline]
  · rw [last, heard, tells.last]
  · rw [newGames, heard, tells.newGames]

theorem Tells.onclose (tells : Tells s) : Tells s.onclose := by
  unfold GameState.onclose
  split
  · exact tells
  · exact ⟨tells.snapshot, rfl, tells.last, tells.newGames⟩

theorem Tells.step (tells : Tells s) (e : Event) : Tells (s.step e) := by
  cases e with
  | opens socket =>
    rw [GameState.step]
    split
    · exact tells.same rfl rfl rfl rfl rfl
    · exact tells
  | message socket msg =>
    rw [GameState.step]
    split
    · exact tells.onmessage msg
    · exact tells
  | closes socket error =>
    rw [GameState.step]
    split
    · exact tells
    · exact tells
    · apply Tells.onclose
      split
      · exact tells.same rfl rfl rfl rfl rfl
      · exact tells.same rfl rfl rfl rfl rfl
  | timeout timer =>
    rw [GameState.step]
    split
    · exact tells.same rfl rfl rfl rfl rfl
    · exact tells
  | unmount =>
    rw [GameState.step]
    split
    · exact tells
    · rw [cleanup_eq]
      exact tells.same rfl rfl rfl rfl rfl

theorem tells_run (events : List Event) : Tells (run events) := by
  unfold run
  induction events using List.reverseRecOn with
  | nil => exact ⟨rfl, rfl, rfl, rfl⟩
  | append_singleton events e ih =>
    rw [List.foldl_append]
    exact ih.step e

/-- What the page shows comes from the newest message, which a closed socket leaves as it is, though it
    counts as offline; and the team is fetched again at each change of the game's id from one message to the
    next, however often the backend was offline or the socket was opened again in between. -/
theorem shown_of_heard (events : List Event) :
    (run events).snapshot = newestSnapshot (run events).heard ∧
    (run events).offline = !online (run events).heard ∧
    (run events).newGames = (changes (heardIds (run events).heard)).length := by
  have tells := tells_run events
  exact ⟨tells.snapshot, tells.offline, tells.newGames⟩

end GameState

end WebControl.Frontend
