import WkWebControl.Link.Wire

open Effects WebControl Program
open WebControl.Backend (CommandMessage)

namespace WebControl.Link

abbrev Arguments : Type := Dll.ControlAction × Dll.ControlPhase × Int

def heard : History Answer → List (Socket × List UInt8)
  | [] => []
  | ⟨.setClient (some client), _⟩ :: h => (client, []) :: heard h
  | ⟨.recv _, .data bytes⟩ :: h =>
    match heard h with
    | [] => []
    | (client, text) :: older => (client, text ++ bytes) :: older
  | _ :: h => heard h

def applyCalls : History Answer → List Arguments
  | [] => []
  | ⟨.applyControl action phase value, _⟩ :: h => applyCalls h ++ [(action, phase, value)]
  | _ :: h => applyCalls h

def obeyed (codec : Codec) (line : List UInt8) : Option Arguments :=
  if line.isEmpty then none
  else match codec.parse line with
    | none => none
    | some j => match Dll.readCommand j with
      | .ok command => command
      | .error _ => none

def Fatal (codec : Codec) (line : List UInt8) : Prop :=
  ∃ j error, codec.parse line = some j ∧ Dll.readCommand j = .error error

def told (codec : Codec) (h : History Answer) : List Arguments :=
  (heard h).reverse.flatMap fun x => (linesOf x.2).filterMap (obeyed codec)

def Undone (codec : Codec) (h : History Answer) : Prop :=
  ∃ x ∈ heard h, ∃ line ∈ linesOf x.2, Fatal codec line

def hearPermits (codec : Codec) (h : History Answer) : Effect → Prop
  | .applyControl action phase value => ∃ rest, told codec h = applyCalls h ++ (action, phase, value) :: rest
  | .terminate => Undone codec h
  | .running | .accept | .setClient _ | .recv _ | .closesocket _ => applyCalls h = told codec h
  | _ => False

def hearPost (codec : Codec) : Flow → History Answer → Prop
  | .serving client buffer, h => applyCalls h = told codec h ∧
      ∃ text older, heard h = (client, text) :: older ∧ buffer = (Lines.split newline text).2
  | .accepting, h | .stopped, h => applyCalls h = told codec h
  | .terminated, h => Undone codec h
  | _, _ => False

variable {codec : Codec} {h : History Answer}

theorem handleLines_hears (lines : List (List UInt8)) {heard_ : List (Socket × List UInt8)}
    (same : heard h = heard_) (ahead : told codec h = applyCalls h ++ lines.filterMap (obeyed codec))
    (fatal : ∀ line ∈ lines, Fatal codec line → Undone codec h) :
    Meets (hearPermits codec) (fun going after => heard after = heard_ ∧
        (if going then applyCalls after = told codec after else Undone codec after))
      (Dll.handleLines codec lines) h := by
  induction lines generalizing h with
  | nil => exact ⟨same, by simpa using ahead.symm⟩
  | cons line lines ih =>
    have rest : ∀ l ∈ lines, Fatal codec l → Undone codec h :=
      fun l member => fatal l (List.mem_cons_of_mem _ member)
    have skipped (nothing : obeyed codec line = none) :
        told codec h = applyCalls h ++ lines.filterMap (obeyed codec) := by
      rw [ahead, List.filterMap_cons_none nothing]
    unfold Dll.handleLines
    split
    · rename_i empty
      exact ih same (skipped (if_pos empty)) rest
    · rename_i text
      rw [meets_bind]
      unfold Dll.handleCommand
      cases parsed : codec.parse line with
      | none =>
        refine ih same (skipped ?_) rest
        rw [obeyed, if_neg text, parsed]
      | some j =>
        cases command : Dll.readCommand j with
        | error error =>
          have undone := fatal line List.mem_cons_self ⟨j, error, parsed, command⟩
          simp only [command, meets_bind, call]
          exact ⟨undone, fun _ => ⟨same, undone⟩⟩
        | ok found =>
          have obeys : obeyed codec line = found := by
            rw [obeyed, if_neg text, parsed]
            simp only [command]
          cases found with
          | none =>
            simp only [command]
            exact ih same (skipped obeys) rest
          | some found =>
            obtain ⟨action, phase, value⟩ := found
            rw [List.filterMap_cons_some obeys] at ahead
            simp only [command, meets_bind, call]
            refine ⟨⟨_, ahead⟩, fun _ => ?_⟩
            refine ih (h := ⟨.applyControl action phase value, ()⟩ :: h) same ?_ rest
            rw [applyCalls, List.append_assoc]
            exact ahead

theorem leaveClient_hears (client : Socket) (done : applyCalls h = told codec h) :
    Meets (hearPermits codec) (hearPost codec) (Dll.leaveClient client) h := by
  simp only [Dll.leaveClient, meets_bind, call]
  exact ⟨done, fun _ => ⟨done, fun _ => done⟩⟩

theorem told_recv {client : Socket} {text buffer : List UInt8} {older : List (Socket × List UInt8)}
    (current : heard h = (client, text) :: older) (rest : buffer = (Lines.split newline text).2)
    (sock : Socket) (bytes : List UInt8) :
    told codec (⟨.recv sock, .data bytes⟩ :: h) =
      told codec h ++ (linesOf (buffer ++ bytes)).filterMap (obeyed codec) := by
  have whole : Lines.split newline (text ++ bytes) = _ := Lines.split_append text bytes
  have after : heard (⟨.recv sock, .data bytes⟩ :: h) = (client, text ++ bytes) :: older := by
    rw [heard, current]
  simp only [told, after, current, List.reverse_cons, List.flatMap_append, List.flatMap_cons,
    List.flatMap_nil, List.append_nil, linesOf, whole, rest, List.filterMap_append, List.append_assoc]

theorem serveClient_hears {client : Socket} {buffer : List UInt8}
    (post : hearPost codec (.serving client buffer) h) :
    Meets (hearPermits codec) (hearPost codec) (Dll.serveClient codec client buffer) h := by
  obtain ⟨done, text, older, current, rest⟩ := post
  simp only [Dll.serveClient, meets_bind, call, meets_call]
  refine ⟨done, fun on => ?_⟩
  split
  · simp only [meets_bind, meets_call]
    refine ⟨done, fun chunk => ?_⟩
    cases chunk with
    | data bytes =>
      have added : told codec (⟨.recv client, .data bytes⟩ :: ⟨.running, on⟩ :: h) = _ :=
        told_recv (h := ⟨.running, on⟩ :: h) current rest client bytes
      have after : heard (⟨.recv client, .data bytes⟩ :: ⟨.running, on⟩ :: h) =
          (client, text ++ bytes) :: older := by
        change (match heard h with | [] => [] | (client, text) :: older => (client, text ++ bytes) :: older) = _
        rw [current]
      have whole : Lines.split newline (text ++ bytes) = _ := Lines.split_append text bytes
      rw [← rest] at whole
      dsimp only
      rw [meets_bind]
      refine (handleLines_hears (Lines.split newline (buffer ++ bytes)).1 after ?_ ?_).mono ?_
      · rw [added]
        exact congrArg (· ++ _) done.symm
      · intro line member fatal
        refine ⟨(client, text ++ bytes), ?_, line, ?_, fatal⟩
        · rw [after]
          exact List.mem_cons_self
        · rw [linesOf, whole]
          exact List.mem_append_right _ member
      · intro going later kept
        cases going with
        | true =>
          refine ⟨by simpa using kept.2, text ++ bytes, older, kept.1, ?_⟩
          rw [whole]
        | false => exact (by simpa using kept.2 : Undone codec later)
    | wouldBlock => exact ⟨done, text, older, current, rest⟩
    | _ => exact leaveClient_hears client done
  · exact leaveClient_hears client done

theorem serverLoop_hears (done : applyCalls h = told codec h) :
    Meets (hearPermits codec) (hearPost codec) Dll.serverLoop h := by
  simp only [Dll.serverLoop, meets_bind, call, meets_call]
  refine ⟨done, fun on => ?_⟩
  split
  · simp only [meets_bind, meets_call]
    refine ⟨done, fun client => ?_⟩
    cases client with
    | none => exact done
    | some client =>
      refine ⟨done, fun _ => ⟨?_, [], heard h, rfl, rfl⟩⟩
      have same : told codec (⟨.setClient (some client), ()⟩ :: ⟨.accept, some client⟩ ::
          ⟨.running, on⟩ :: h) = told codec h := by
        simp only [told, heard, List.reverse_cons, List.flatMap_append, List.flatMap_cons, linesOf,
          Lines.split_nil, List.filterMap_nil, List.flatMap_nil, List.append_nil]
      rw [same]
      exact done
  · exact done

theorem ipc_hears (codec : Codec) (events : List (Task × Choice)) :
    ((run codec events).residual .ipc).Meets (hearPermits codec) (hearPost codec)
      (historyOf .ipc (run codec events).log) := by
  refine System.run_thread (S := system codec) ?_ ?_ {} events
  · exact serverLoop_hears rfl
  · intro flow h post
    cases flow with
    | accepting => exact serverLoop_hears post
    | serving client buffer => exact serveClient_hears post
    | stopped | terminated => exact post
    | _ => exact post.elim

def delivered (cmds : List CommandMessage) (text : List UInt8) : List CommandMessage :=
  cmds.take (text.count newline)

/-- Each client in turn has been sent the lines of these commands, and TCP has delivered a part of
    them from the beginning on. -/
def Sends (written : List (List CommandMessage)) (h : History Answer) : Prop :=
  List.Forall₂ (fun cmds x => x.2 <+: cmds.flatMap CommandMessage.toWire) written (heard h).reverse

def deliveredAll (written : List (List CommandMessage)) (h : History Answer) : List CommandMessage :=
  (List.zipWith (fun cmds x => delivered cmds x.2) written (heard h).reverse).flatten

def applying : Prog Flow → Bool
  | .perform (.applyControl _ _ _) _ => true
  | _ => false

theorem flatMap_toWire (cmds : List CommandMessage) :
    cmds.flatMap CommandMessage.toWire = ((cmds.map commandText).map fun line => line ++ [newline]).flatten := by
  rw [List.map_map, ← List.flatMap_def]
  exact List.flatMap_congr fun cmd _ => toWire_eq cmd

theorem linesOf_sent {cmds : List CommandMessage} {text : List UInt8}
    (within : text <+: cmds.flatMap CommandMessage.toWire) :
    linesOf text = (delivered cmds text).map commandText := by
  rw [flatMap_toWire] at within
  have clean : ∀ line ∈ cmds.map commandText, newline ∉ line := by
    intro line member
    obtain ⟨cmd, -, rfl⟩ := List.mem_map.mp member
    exact commandText_clean cmd
  rw [linesOf, Lines.split_prefix clean within, delivered, List.map_take]

theorem delivered_all (cmds : List CommandMessage) :
    delivered cmds (cmds.flatMap CommandMessage.toWire) = cmds := by
  have each : ∀ cmd : CommandMessage, cmd.toWire.count newline = 1 := by
    intro cmd
    rw [toWire_eq, List.count_append, List.count_eq_zero_of_not_mem (commandText_clean cmd)]
    rfl
  have count : (cmds.flatMap CommandMessage.toWire).count newline = cmds.length := by
    induction cmds with
    | nil => rfl
    | cons cmd cmds ih =>
      rw [List.flatMap_cons, List.count_append, each, ih, List.length_cons, Nat.add_comm]
  rw [delivered, count, List.take_length]

section Sent

variable (parses : codec.ParsesFlat)
include parses

theorem obeyed_commandText {cmd : CommandMessage} (fits : FitsInt cmd) :
    obeyed codec (commandText cmd) = some (arguments cmd) := by
  obtain ⟨j, parsed, command⟩ := commandText_read parses fits
  have some_ : ¬ (commandText cmd).isEmpty = true := by
    rw [List.isEmpty_iff]
    exact commandText_ne_nil cmd
  rw [obeyed, if_neg some_, parsed]
  simp only [command]

theorem commandText_survived {cmd : CommandMessage} (fits : FitsInt cmd) :
    ¬ Fatal codec (commandText cmd) := by
  rintro ⟨j, error, parsed, failed⟩
  obtain ⟨found, same, command⟩ := commandText_read parses fits
  cases parsed.symm.trans same
  cases failed.symm.trans command

theorem obeyed_commands {cmds : List CommandMessage} (fits : ∀ cmd ∈ cmds, FitsInt cmd) :
    (cmds.map commandText).filterMap (obeyed codec) = cmds.map arguments := by
  induction cmds with
  | nil => rfl
  | cons cmd cmds ih =>
    rw [List.map_cons, List.filterMap_cons_some (obeyed_commandText parses (fits cmd List.mem_cons_self)),
      ih fun c member => fits c (List.mem_cons_of_mem _ member), List.map_cons]

theorem told_sent {written : List (List CommandMessage)} (fits : ∀ cmds ∈ written, ∀ cmd ∈ cmds, FitsInt cmd)
    (sends : Sends written h) : told codec h = (deliveredAll written h).map arguments := by
  unfold Sends at sends
  unfold told deliveredAll
  generalize (heard h).reverse = clients at sends ⊢
  induction sends with
  | nil => rfl
  | @cons cmds x _ _ within _ ih =>
    have own : ∀ cmd ∈ delivered cmds x.2, FitsInt cmd := fun cmd member =>
      fits cmds List.mem_cons_self cmd (List.mem_of_mem_take member)
    rw [List.flatMap_cons, List.zipWith_cons_cons, List.flatten_cons, List.map_append,
      ih fun cmds member => fits cmds (List.mem_cons_of_mem _ member), linesOf_sent within,
      obeyed_commands parses own]

theorem sent_survived {written : List (List CommandMessage)}
    (fits : ∀ cmds ∈ written, ∀ cmd ∈ cmds, FitsInt cmd) (sends : Sends written h) :
    ¬ Undone codec h := by
  rintro ⟨x, member, line, inside, fatal⟩
  obtain ⟨i, low, eq⟩ := List.mem_iff_getElem.mp (List.mem_reverse.mpr member)
  have shorter : i < written.length := by rw [sends.length_eq]; exact low
  have within := (List.forall₂_iff_get.mp sends).2 i shorter low
  simp only [List.get_eq_getElem, eq] at within
  rw [linesOf_sent within] at inside
  obtain ⟨cmd, taken, rfl⟩ := List.mem_map.mp inside
  exact commandText_survived parses
    (fits _ (List.getElem_mem shorter) cmd (List.mem_of_mem_take taken)) fatal

end Sent

/-- The plugin applies the commands whose lines have come through whole, once each and in order. Of a
    line that is cut off at the end of a connection nothing is left for the next one. -/
theorem applyCalls_of_sent (parses : codec.ParsesFlat) {events : List (Task × Choice)}
    {written : List (List CommandMessage)} (fits : ∀ cmds ∈ written, ∀ cmd ∈ cmds, FitsInt cmd)
    (sends : Sends written (historyOf .ipc (run codec events).log)) :
    applyCalls (historyOf .ipc (run codec events).log) <+:
      (deliveredAll written (historyOf .ipc (run codec events).log)).map arguments ∧
    (applying ((run codec events).residual .ipc) = false →
      applyCalls (historyOf .ipc (run codec events).log) =
        (deliveredAll written (historyOf .ipc (run codec events).log)).map arguments) ∧
    (applying ((run codec events).residual .ipc) = false →
      (heard (historyOf .ipc (run codec events).log)).reverse.map Prod.snd =
        written.map (fun cmds => cmds.flatMap CommandMessage.toWire) →
      applyCalls (historyOf .ipc (run codec events).log) = written.flatten.map arguments) := by
  have meets := ipc_hears codec events
  have survived := sent_survived parses fits sends
  rw [← told_sent parses fits sends]
  have settled : applyCalls (historyOf .ipc (run codec events).log) = told codec (historyOf .ipc (run codec events).log) ∨
      applying ((run codec events).residual .ipc) = true ∧
        applyCalls (historyOf .ipc (run codec events).log) <+: told codec (historyOf .ipc (run codec events).log) := by
    cases residual : (run codec events).residual .ipc with
    | done flow =>
      rw [residual] at meets
      cases flow with
      | serving client buffer => exact .inl meets.1
      | accepting | stopped => exact .inl meets
      | terminated => exact absurd meets survived
      | _ => exact meets.elim
    | perform e next =>
      rw [residual] at meets
      cases e with
      | applyControl action phase value =>
        -- in the middle of a chunk: the commands of its other lines are still to be applied
        obtain ⟨rest, ahead⟩ := meets.1
        exact .inr ⟨rfl, ahead ▸ List.prefix_append _ _⟩
      | terminate => exact absurd meets.1 survived
      | running | accept | setClient | recv | closesocket => exact .inl meets.1
      | _ => exact meets.1.elim
  have idle (at_rest : applying ((run codec events).residual .ipc) = false) :
      applyCalls (historyOf .ipc (run codec events).log) =
        told codec (historyOf .ipc (run codec events).log) := by
    rcases settled with done | ⟨busy, -⟩
    · exact done
    · rw [at_rest] at busy
      cases busy
  refine ⟨?_, idle, fun at_rest whole => ?_⟩
  · rcases settled with done | ⟨-, ahead⟩
    · exact ⟨[], by rw [done, List.append_nil]⟩
    · exact ahead
  · rw [idle at_rest, told_sent parses fits sends, deliveredAll]
    have each : List.zipWith (fun cmds x => delivered cmds x.2) written
        (heard (historyOf .ipc (run codec events).log)).reverse = written := by
      have texts : List.zipWith (fun cmds (x : Socket × List UInt8) => delivered cmds x.2) written
          (heard (historyOf .ipc (run codec events).log)).reverse =
          List.zipWith delivered written
            ((heard (historyOf .ipc (run codec events).log)).reverse.map Prod.snd) := by
        rw [List.zipWith_map_right]
      rw [texts, whole, List.zipWith_map_right, List.zipWith_self]
      simp only [delivered_all, List.map_id']
    rw [each]

def cutOff : List (Task × Choice) :=
  joins ++ [(.ipc, .go), (.ipc, .data (pressLeft.toWire ++ releaseLeft.toWire.take 20)), (.ipc, .go)] ++
    leaves ++ [(.reader, .fail), (.reader, .go), (.reader, .go), (.reader, .go), (.reader, .go), (.ipc, .go),
      (.ipc, .go), (.ipc, .go), (.ipc, .go), (.ipc, .data releaseLeft.toWire), (.ipc, .go)]

theorem applyCalls_cutOff :
    applyCalls (historyOf .ipc (run plainCodec cutOff).log) =
      [arguments pressLeft, arguments releaseLeft] := by
  have clients : (heard (historyOf .ipc (run plainCodec cutOff).log)).reverse =
      [(0, pressLeft.toWire ++ releaseLeft.toWire.take 20), (1, releaseLeft.toWire)] := by
    decide +kernel
  have fits : ∀ cmds ∈ [[pressLeft, releaseLeft], [releaseLeft]], ∀ cmd ∈ cmds, FitsInt cmd := by
    decide
  have sends : Sends [[pressLeft, releaseLeft], [releaseLeft]]
      (historyOf .ipc (run plainCodec cutOff).log) := by
    rw [Sends, clients]
    refine .cons ?_ (.cons ?_ .nil)
    · decide +kernel
    · decide +kernel
  have all : deliveredAll [[pressLeft, releaseLeft], [releaseLeft]]
      (historyOf .ipc (run plainCodec cutOff).log) = [pressLeft, releaseLeft] := by
    decide +kernel
  rw [(applyCalls_of_sent plainCodec_parsesFlat fits sends).2.1 (by decide +kernel), all]
  rfl

end WebControl.Link
