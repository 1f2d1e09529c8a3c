import WkWebControl.Link.Stream

open Effects WebControl Program
open WebControl.Dll (GameSnapshot)

namespace WebControl.Link

def showing : Prog Flow → Bool
  | .perform (.setLatest (some _)) _ => true
  | _ => false

/-- Every byte that has been sent on the current connection has been received and looked at. -/
def Consumed (s : Running) : Prop :=
  showing (s.residual .reader) = false ∧
    ∀ sock, onSock (historyOf .reader s.log) = some sock →
      (s.shared.net sock).received = (s.shared.net sock).sent.length

def Carried (codec : Codec) (s : Running) : Prop :=
  ∀ snap, (⟨.publish snap, ()⟩ : Step Answer) ∈ historyOf .game s.log → codec.Carries snap

/-- What `latest_state` says of a game that is over. -/
def Quiet (latest : Option Backend.GameSnapshot) : Prop :=
  ∀ snap, latest = some snap → snap.roundActive = false ∧ snap.turnTeam = none

variable {codec : Codec} {events : List (Task × Choice)}

theorem shows_of_consumed (consumed : Consumed (run codec events)) :
    Shows codec (historyOf .reader (run codec events).log) := by
  have meets := (streamContract codec).run_meets {} events .reader
  have idle := consumed.1
  change showing (((system codec).run ((system codec).initial {}) events).residual .reader) = false
    at idle
  cases residual : ((system codec).run ((system codec).initial {}) events).residual .reader with
  | done flow =>
    rw [residual] at meets
    cases flow with
    | connecting => exact Shows.offline codec meets.1 meets.2
    | consuming sock buf => exact meets.1
    | _ => exact meets.elim
  | perform e next =>
    rw [residual] at meets idle
    cases e with
    | connect | setSock => exact meets.1
    | receive => exact meets.1.1
    | setLatest latest =>
      cases latest with
      | none => exact meets.1
      | some snap => cases idle
    | _ => exact meets.1.elim

theorem sent_lines (carried : Carried codec (run codec events)) (c : Socket) :
    Lines.split newline ((run codec events).shared.net c).sent =
      ((completed c (historyOf .game (run codec events).log)).map fun p =>
          codec.dump (Dll.stateJson p.1),
        unfinished c (historyOf .game (run codec events).log)) := by
  have streams := run_streams codec events
  have clean : ∀ line ∈ (completed c (historyOf .game (run codec events).log)).map fun p =>
      codec.dump (Dll.stateJson p.1), newline ∉ line := by
    intro line member
    obtain ⟨p, pushed, rfl⟩ := List.mem_map.mp member
    exact (carried p.1 (streams.framed.completed c p pushed).2).clean
  have whole := Lines.split_lines clean (streams.framed.clean carried c)
  rw [List.map_map] at whole
  rw [streams.sender.sent c]
  exact whole

/-- With everything consumed, the backend has the snapshot that was last pushed whole on its connection,
    if there is one. -/
theorem latest_eq (carried : Carried codec (run codec events)) (consumed : Consumed (run codec events)) :
    (run codec events).shared.latest =
      (onSock (historyOf .reader (run codec events).log)).bind fun sock =>
        (completed sock (historyOf .game (run codec events).log)).getLast?.map fun p =>
          Backend.gameSnapshot p.1 := by
  have streams := run_streams codec events
  have shows := shows_of_consumed consumed
  rw [streams.receiver.latest]
  cases current : onSock (historyOf .reader (run codec events).log) with
  | none =>
    have nothing := streams.receiver.idle current
    rw [shows (by simp [nothing]), nothing]
    rfl
  | some sock =>
    have all := (streams.receiver.current sock current).2
    rw [consumed.2 sock current, List.take_length] at all
    have lines := sent_lines carried sock
    rw [← all] at lines
    have read : ∀ p ∈ completed sock (historyOf .game (run codec events).log),
        reads codec (codec.dump (Dll.stateJson p.1)) = some (Backend.gameSnapshot p.1) :=
      fun p member => (carried p.1 (streams.framed.completed sock p member).2).reads
    rw [shows ?_, lines, Option.bind_some, List.getLast?_map]
    · cases newest : (completed sock (historyOf .game (run codec events).log)).getLast? with
      | none => rfl
      | some p => exact read p (List.mem_of_getLast? newest)
    · intro line member
      rw [lines] at member
      obtain ⟨p, pushed, rfl⟩ := List.mem_map.mp member
      rw [read p pushed]
      simp

/-- With everything consumed, `latest_state` says that there is no game exactly when the last frame
    pushed whole on the connection, if there was one, came without a `GameGlobal`. -/
theorem latest_quiet_iff (carried : Carried codec (run codec events))
    (consumed : Consumed (run codec events)) :
    Quiet (run codec events).shared.latest ↔
      ∀ sock snap global, onSock (historyOf .reader (run codec events).log) = some sock →
        (completed sock (historyOf .game (run codec events).log)).getLast? = some (snap, global) →
        global = 0 := by
  have framed := (run_streams codec events).framed
  rw [latest_eq carried consumed]
  constructor
  · intro quiet sock snap global current newest
    have fits := (framed.completed sock _ (List.mem_of_getLast? newest)).1
    have off := (quiet (Backend.gameSnapshot snap) (by rw [current, Option.bind_some, newest]; rfl)).1
    by_contra there
    have on : snap.roundActive = true := fits.1.mpr there
    rw [show snap.roundActive = false from off] at on
    cases on
  · intro gone snap shown
    obtain ⟨sock, current, shown⟩ := Option.bind_eq_some_iff.mp shown
    obtain ⟨p, newest, rfl⟩ := Option.map_eq_some_iff.mp shown
    have fits := (framed.completed sock p (List.mem_of_getLast? newest)).1
    have none_ := gone sock p.1 p.2 current newest
    have off : p.1.roundActive = false := by
      rw [← Bool.not_eq_true, fits.1, none_]
      simp
    exact ⟨off, fits.2 off⟩

def tornDown : History Answer → Bool
  | [] => false
  | ⟨.nextCall, .destroyGameGlobal⟩ :: _ => true
  | ⟨.nextCall, .turnHandleMessage .frameFinish _⟩ :: _ => false
  | _ :: h => tornDown h

def framePushed (snap : GameSnapshot) : List (Task × Choice) :=
  [(.game, .calls (.turnHandleMessage .frameFinish none) tinyMemory), (.game, .go), (.game, .go),
   (.game, .go), (.game, .tick 15), (.game, .go),
   (.game, .bytes (Dll.stateLine sampleCodec snap).length), (.game, .go), (.game, .go)]

def lineTaken (snap : GameSnapshot) : List (Task × Choice) :=
  [(.reader, .bytes (Dll.stateLine sampleCodec snap).length), (.reader, .go)]

def lastFrame : List (Task × Choice) :=
  initialises ++ constructs ++ startsTurn 1 ++ joins ++ framePushed tinySnapshot ++ lineTaken tinySnapshot ++
    destroys

def published? : Step Answer → Option GameSnapshot
  | ⟨.publish snap, _⟩ => some snap
  | _ => none

theorem sample_carries {snap : GameSnapshot} (known : snap = {} ∨ snap = tinySnapshot) :
    sampleCodec.Carries snap := by
  rcases known with rfl | rfl
  · refine ⟨by decide +kernel, by decide +kernel, ?_⟩
    exact List.find?_cons_of_pos (p := fun j => compact j == compact (Dll.stateJson {}))
      (l := [Dll.stateJson tinySnapshot]) (beq_self_eq_true _)
  · refine ⟨by decide +kernel, by decide +kernel, ?_⟩
    have differs : ¬ (compact (Dll.stateJson {}) == compact (Dll.stateJson tinySnapshot)) = true := by
      decide +kernel
    refine (List.find?_cons_of_neg (p := fun j => compact j == compact (Dll.stateJson tinySnapshot))
      (l := [Dll.stateJson tinySnapshot]) differs).trans ?_
    exact List.find?_cons_of_pos (p := fun j => compact j == compact (Dll.stateJson tinySnapshot))
      (l := []) (beq_self_eq_true _)

theorem sample_carried {events : List (Task × Choice)}
    (known : ∀ snap ∈ (historyOf .game (run sampleCodec events).log).filterMap published?,
      snap = {} ∨ snap = tinySnapshot) : Carried sampleCodec (run sampleCodec events) :=
  fun snap member => sample_carries (known snap (List.mem_filterMap.mpr ⟨_, member, rfl⟩))

theorem consumed_of_current {events : List (Task × Choice)} {sock : Socket}
    (idle : showing ((run sampleCodec events).residual .reader) = false)
    (current : onSock (historyOf .reader (run sampleCodec events).log) = some sock)
    (all : ((run sampleCodec events).shared.net sock).received =
      ((run sampleCodec events).shared.net sock).sent.length) : Consumed (run sampleCodec events) :=
  ⟨idle, fun other same => by
    cases current.symm.trans same
    exact all⟩

def reconnected : List (Task × Choice) :=
  lastFrame ++ [(.reader, .fail), (.reader, .go), (.reader, .go), (.reader, .go), (.reader, .go)]

theorem latest_quiet_iff_reconnected : Quiet (run sampleCodec reconnected).shared.latest := by
  have current : onSock (historyOf .reader (run sampleCodec reconnected).log) = some 1 := by
    decide +kernel
  have nothing : completed 1 (historyOf .game (run sampleCodec reconnected).log) = [] := by
    decide +kernel
  refine (latest_quiet_iff (sample_carried (by decide +kernel))
    (consumed_of_current (by decide +kernel) current (by decide +kernel))).mpr ?_
  intro sock snap global same newest
  cases current.symm.trans same
  rw [nothing] at newest
  cases newest

/-- After the teardown the backend still has the last frame of the game, with team 1 on turn. -/
theorem latest_after_teardown :
    ¬ ∀ (codec : Codec) (events : List (Task × Choice)), Carried codec (run codec events) →
      tornDown (historyOf .game (run codec events).log) = true →
      returned ((run codec events).residual .game) = true → Consumed (run codec events) →
      Quiet (run codec events).shared.latest := by
  intro always
  have current : onSock (historyOf .reader (run sampleCodec lastFrame).log) = some 0 := by
    decide +kernel
  have quiet := always sampleCodec lastFrame (sample_carried (by decide +kernel)) (by decide +kernel)
    (by decide +kernel) (consumed_of_current (by decide +kernel) current (by decide +kernel))
  have shown : (run sampleCodec lastFrame).shared.latest = some (Backend.gameSnapshot tinySnapshot) := by
    decide +kernel
  exact absurd (quiet _ shown).1 (by decide +kernel)

end WebControl.Link
