import WkWebControl.Link.Wire

open WebControl
open WebControl.Backend (CommandMessage)

namespace WebControl.Backend.TcpIpcTransport

open WebControl.Link (Socket)

inductive GameOfflineError where
  | noConnection
  | sendFailed
  deriving DecidableEq

/-- What `sock.sendall` does with a line: it writes all of it, or raises after a part. -/
inductive SendAll where
  | all
  | raises (written : Nat)

/-- The transport as the senders of commands see it, with what has been written to each socket. -/
structure Transport where
  sock : Option Socket
  sent : Socket → List UInt8 := fun _ => []

/-- `send_command`. Whatever `sendall` has done, the socket stays the one to write to. -/
def sendCommand (t : Transport) (cmd : CommandMessage) (outcome : SendAll) :
    Except GameOfflineError Unit × Transport :=
  match t.sock with
  | none => (.error .noConnection, t)
  | some sock =>
    match outcome with
    | .all => (.ok (), { t with sent := Function.update t.sent sock (t.sent sock ++ cmd.toWire) })
    | .raises written =>
      (.error .sendFailed,
        { t with sent := Function.update t.sent sock (t.sent sock ++ cmd.toWire.take written) })

end WebControl.Backend.TcpIpcTransport

namespace WebControl.Link

open WebControl.Backend.TcpIpcTransport

def opening : List Char := ['{', '"', 't']

theorem opening_append {front back : List Char} (none_ : '{' ∉ front)
    (inside : opening <:+: front ++ back) : opening <:+: back := by
  induction front with
  | nil => exact inside
  | cons c front ih =>
    rw [List.mem_cons, not_or] at none_
    rcases List.infix_cons_iff.mp inside with here | later
    · have same : '{' = c := (List.cons_prefix_cons.mp here).1
      exact absurd same none_.1
    · exact ih none_.2 later

theorem escapeAscii_head (c : Char) : ∃ d rest, Json.escapeAscii c = d :: rest ∧ d ≠ '"' := by
  have read := Json.escapeAscii_reads c []
  cases text : Json.escapeAscii c with
  | nil =>
    rw [text] at read
    cases read
  | cons d rest =>
    refine ⟨d, rest, rfl, ?_⟩
    rintro rfl
    rw [text] at read
    cases read

theorem escapeAscii_brace {c : Char} (other : c ≠ '{') : '{' ∉ Json.escapeAscii c := by
  have digit : ∀ d, Nat.digitChar d ≠ '{' := by
    intro d
    have all : ∀ d < 16, Nat.digitChar d ≠ '{' := by decide
    by_cases small : d < 16
    · exact all d small
    · rw [Nat.digitChar_eq_star.mpr (by omega)]
      decide
  have unicode : ∀ unit, '{' ∉ Json.unicodeEscape unit := by
    intro unit
    simp [Json.unicodeEscape, Json.hexDigits, (digit _).symm]
  unfold Json.escapeAscii
  cases letter : Json.short c with
  | some letter =>
    unfold Json.short at letter
    split at letter <;> cases letter <;> decide
  | none =>
    simp only
    split
    · simpa using other.symm
    · split
      · exact unicode _
      · rw [List.mem_append, not_or]
        exact ⟨unicode _, unicode _⟩

/-- In the text of a string a quote that is not the last one is escaped, so that no line begins there. -/
theorem escaped_opening {rest : List Char} (none_ : ¬ opening <:+: '"' :: ',' :: rest) (cs : List Char) :
    ¬ opening <:+: cs.flatMap Json.escapeAscii ++ '"' :: ',' :: rest := by
  induction cs with
  | nil => exact none_
  | cons c cs ih =>
    intro inside
    rw [List.flatMap_cons, List.append_assoc] at inside
    by_cases brace : c = '{'
    · subst brace
      have single : Json.escapeAscii '{' = ['{'] := by decide
      rw [single, List.singleton_append] at inside
      rcases List.infix_cons_iff.mp inside with here | later
      · have quote := (List.cons_prefix_cons.mp here).2
        cases cs with
        | nil =>
          have letter := (List.cons_prefix_cons.mp quote).2
          exact absurd (List.cons_prefix_cons.mp letter).1 (by decide)
        | cons d cs =>
          obtain ⟨e, more, text, other⟩ := escapeAscii_head d
          rw [List.flatMap_cons, text] at quote
          exact other (List.cons_prefix_cons.mp quote).1.symm
      · exact ih later
    · exact ih (opening_append (escapeAscii_brace brace) inside)

theorem integer_brace (n : Int) : '{' ∉ Json.Style.integer n := by
  have digits : ∀ k, '{' ∉ Nat.toDigits 10 k := fun k member =>
    absurd (Json.toDigits_isDigit k member) (by decide)
  unfold Json.Style.integer
  split
  · rw [List.mem_cons, not_or]
    exact ⟨by decide, digits _⟩
  · exact digits _

def commandFront : List Char :=
  Json.Style.dumps.quoted "type" ++ ':' :: ' ' :: (Json.Style.dumps.quoted "cmd" ++
    ',' :: ' ' :: (Json.Style.dumps.quoted "team" ++ [':', ' ', '"']))

def commandBack (cmd : CommandMessage) : List Char :=
  ' ' :: (Json.Style.dumps.quoted "action" ++ ':' :: ' ' :: (Json.Style.dumps.quoted cmd.action.value ++
    ',' :: ' ' :: (Json.Style.dumps.quoted "phase" ++ ':' :: ' ' ::
      (Json.Style.dumps.quoted cmd.phase.value ++ ',' :: ' ' :: (Json.Style.dumps.quoted "value" ++
        ':' :: ' ' :: (Json.Style.integer cmd.value ++ ['}']))))))

theorem write_modelDump (cmd : CommandMessage) :
    Json.Style.dumps.write cmd.modelDump = '{' :: (commandFront ++
      (cmd.team.toList.flatMap Json.escapeAscii ++ '"' :: ',' :: commandBack cmd)) := by
  have gap : Json.Style.dumps.gap = [' '] := rfl
  have team : Json.Style.dumps.quoted cmd.team =
      '"' :: (cmd.team.toList.flatMap Json.escapeAscii ++ ['"']) := rfl
  simp only [CommandMessage.modelDump, Json.Style.write, Json.Style.moreFields, gap, team, commandFront,
    commandBack, List.cons_append, List.append_assoc, List.nil_append]

theorem commandBack_brace (cmd : CommandMessage) : '{' ∉ '"' :: ',' :: commandBack cmd := by
  have number := integer_brace cmd.value
  have action : '{' ∉ Json.Style.dumps.quoted cmd.action.value := by
    cases cmd.action <;> decide
  have phase : '{' ∉ Json.Style.dumps.quoted cmd.phase.value := by
    cases cmd.phase <;> decide
  have keys : '{' ∉ Json.Style.dumps.quoted "action" ∧ '{' ∉ Json.Style.dumps.quoted "phase" ∧
      '{' ∉ Json.Style.dumps.quoted "value" := by decide
  simp [commandBack, number, action, phase, keys]

/-- After its first character no command line begins within the text of a command. -/
theorem modelDump_opening (cmd : CommandMessage) : ¬ opening <:+: commandFront ++
    (cmd.team.toList.flatMap Json.escapeAscii ++ '"' :: ',' :: commandBack cmd) := by
  intro inside
  have front : '{' ∉ commandFront := by decide
  refine escaped_opening ?_ _ (opening_append front inside)
  intro back
  have nothing : opening <:+: [] := opening_append (commandBack_brace cmd) (by rwa [List.append_nil])
  simp [opening] at nothing

theorem commandText_bytes (cmd : CommandMessage) :
    commandText cmd = (Json.Style.dumps.write cmd.modelDump).map fun c => UInt8.ofNat c.toNat :=
  Json.utf8_printable (Json.Style.dumps_printable (modelDump_plain cmd))

theorem joined_ne_commandText {front : List UInt8} (some_ : front ≠ []) (cmd other : CommandMessage) :
    front ++ commandText cmd ≠ commandText other := by
  intro joined
  rw [commandText_bytes other] at joined
  obtain ⟨first, second, whole, rfl, tail⟩ := List.map_eq_append_iff.mp joined.symm
  have printable := Json.Style.dumps_printable (modelDump_plain other)
  have same : second = Json.Style.dumps.write cmd.modelDump := by
    have ascii : ∀ c ∈ second, Json.Printable c := fun c member =>
      printable c (whole ▸ List.mem_append_right first member)
    have decoded := Json.decode_utf8 second
    rw [Json.utf8_printable ascii, tail, commandText, Json.Style.text, Json.decode_utf8] at decoded
    exact (Option.some.inj decoded).symm
  cases first with
  | nil => exact some_ rfl
  | cons c first =>
    rw [write_modelDump other, List.cons_append, List.cons.injEq] at whole
    apply modelDump_opening other
    rw [whole.2, same, write_modelDump cmd]
    have start : opening <+: '{' :: (commandFront ++
        (cmd.team.toList.flatMap Json.escapeAscii ++ '"' :: ',' :: commandBack cmd)) := ⟨_, rfl⟩
    exact start.isInfix.trans (List.suffix_append first _).isInfix

structure Attempt where
  cmd : CommandMessage
  outcome : SendAll
  short : ∀ written, outcome = .raises written → written < cmd.toWire.length

namespace Attempt

def returned (a : Attempt) : Bool :=
  match a.outcome with
  | .all => true
  | .raises _ => false

def torn (a : Attempt) : Bool :=
  match a.outcome with
  | .all => false
  | .raises written => 0 < written

def bytes (a : Attempt) : List UInt8 :=
  match a.outcome with
  | .all => a.cmd.toWire
  | .raises written => a.cmd.toWire.take written

end Attempt

def sendCommands (t : Transport) (attempts : List Attempt) : Transport :=
  attempts.foldl (fun t a => (sendCommand t a.cmd a.outcome).2) t

def extracted : List UInt8 → List (List UInt8) → List (List UInt8)
  | _, [] => []
  | buffer, chunk :: chunks =>
    (linesOf (buffer ++ chunk)).filter (fun line => !line.isEmpty) ++
      extracted (Lines.split newline (buffer ++ chunk)).2 chunks

theorem sendCommands_sent {t : Transport} {sock : Socket} (current : t.sock = some sock)
    (attempts : List Attempt) :
    (sendCommands t attempts).sent sock = t.sent sock ++ attempts.flatMap Attempt.bytes := by
  induction attempts generalizing t with
  | nil => simp [sendCommands]
  | cons a attempts ih =>
    have one : (sendCommand t a.cmd a.outcome).2.sock = some sock ∧
        (sendCommand t a.cmd a.outcome).2.sent sock = t.sent sock ++ a.bytes := by
      rcases a with ⟨cmd, outcome, short⟩
      cases outcome <;> simp [sendCommand, current, Attempt.bytes]
    rw [sendCommands, List.foldl_cons]
    change (sendCommands _ attempts).sent sock = _
    rw [ih one.1, one.2, List.append_assoc, List.flatMap_cons]

theorem extracted_eq (text : List UInt8) (chunks : List (List UInt8)) :
    (linesOf text).filter (fun line => !line.isEmpty) ++
        extracted (Lines.split newline text).2 chunks =
      (linesOf (text ++ chunks.flatten)).filter fun line => !line.isEmpty := by
  induction chunks generalizing text with
  | nil => simp [extracted]
  | cons chunk chunks ih =>
    have whole : Lines.split newline (text ++ chunk) = _ := Lines.split_append text chunk
    have later := ih (text ++ chunk)
    simp only [linesOf, whole, List.filter_append, List.append_assoc] at later
    rw [extracted, List.flatten_cons]
    exact later

theorem linesOf_whole (cmd : CommandMessage) (rest : List UInt8) :
    linesOf (cmd.toWire ++ rest) = commandText cmd :: linesOf rest := by
  rw [toWire_eq, List.append_assoc, List.singleton_append, linesOf,
    Lines.split_line (commandText_clean cmd)]
  rfl

theorem bytes_returned {a : Attempt} (ok : a.returned = true) : a.bytes = a.cmd.toWire := by
  rcases a with ⟨cmd, outcome, short⟩
  cases outcome with
  | all => rfl
  | raises written => cases ok

theorem bytes_clean {a : Attempt} (failed : a.returned = false) : newline ∉ a.bytes := by
  rcases a with ⟨cmd, outcome, short⟩
  cases outcome with
  | all => cases failed
  | raises written =>
    change newline ∉ cmd.toWire.take written
    have within : written ≤ (commandText cmd).length := by
      have proper := short written rfl
      rw [toWire_eq, List.length_append, List.length_singleton] at proper
      omega
    rw [toWire_eq, List.take_append_of_le_length within]
    exact fun member => commandText_clean cmd (List.mem_of_mem_take member)

theorem stream_clean {attempts : List Attempt} (failed : ∀ a ∈ attempts, a.returned = false) :
    newline ∉ attempts.flatMap Attempt.bytes := by
  rw [List.mem_flatMap]
  rintro ⟨a, member, inside⟩
  exact bytes_clean (failed a member) inside

theorem bytes_torn {a : Attempt} (torn : a.torn = true) : a.bytes ≠ [] := by
  rcases a with ⟨cmd, outcome, short⟩
  cases outcome with
  | all => cases torn
  | raises written =>
    have some_ : 0 < written := by simpa [Attempt.torn] using torn
    rw [← List.length_pos_iff]
    change 0 < (cmd.toWire.take written).length
    have proper := short written rfl
    rw [List.length_take]
    omega

theorem bytes_nothing {a : Attempt} (failed : a.returned = false) (whole : a.torn = false) :
    a.bytes = [] := by
  rcases a with ⟨cmd, outcome, short⟩
  cases outcome with
  | all => cases failed
  | raises written =>
    have none_ : written = 0 := by simpa [Attempt.torn] using whole
    change cmd.toWire.take written = []
    rw [none_, List.take_zero]

/-- Nothing more is sent with success after a line has been torn. -/
def Sound (attempts : List Attempt) : Prop :=
  attempts.Pairwise fun a b => a.torn = true → b.returned = false

theorem lines_of_sound {attempts : List Attempt} (sound : Sound attempts) :
    linesOf (attempts.flatMap Attempt.bytes) =
      (attempts.filter Attempt.returned).map fun a => commandText a.cmd := by
  induction sound with
  | nil => rfl
  | @cons a attempts later _ ih =>
    rw [List.flatMap_cons]
    cases ok : a.returned with
    | true => rw [bytes_returned ok, linesOf_whole, ih, List.filter_cons_of_pos ok, List.map_cons]
    | false =>
      rw [List.filter_cons_of_neg (by simp [ok])]
      cases torn : a.torn with
      | false => rw [bytes_nothing ok torn, List.nil_append, ih]
      | true =>
        have failed : ∀ b ∈ attempts, b.returned = false := fun b member => later b member torn
        have nothing : attempts.filter Attempt.returned = [] := by
          rw [List.filter_eq_nil_iff]
          intro b member
          simp [failed b member]
        have clean : newline ∉ a.bytes ++ attempts.flatMap Attempt.bytes := by
          rw [List.mem_append, not_or]
          exact ⟨bytes_clean ok, stream_clean failed⟩
        rw [linesOf, Lines.split_clean clean, nothing]
        rfl

def Spoilt (line : List UInt8) : Prop := ∀ cmd : CommandMessage, line ≠ commandText cmd

theorem joined_line {front : List UInt8} (some_ : front ≠ []) (clean : newline ∉ front)
    {attempts : List Attempt} (later : ∃ b ∈ attempts, b.returned = true) :
    ∃ line ∈ linesOf (front ++ attempts.flatMap Attempt.bytes), line ≠ [] ∧ Spoilt line := by
  induction attempts generalizing front with
  | nil =>
    obtain ⟨b, member, -⟩ := later
    cases member
  | cons a attempts ih =>
    rw [List.flatMap_cons, ← List.append_assoc]
    cases ok : a.returned with
    | true =>
      rw [bytes_returned ok, toWire_eq]
      have first : newline ∉ front ++ commandText a.cmd := by
        rw [List.mem_append, not_or]
        exact ⟨clean, commandText_clean a.cmd⟩
      refine ⟨front ++ commandText a.cmd, ?_, ?_, joined_ne_commandText some_ a.cmd⟩
      · rw [linesOf, ← List.append_assoc front, List.append_assoc, List.singleton_append,
          Lines.split_line first]
        exact List.mem_cons_self
      · simp [some_]
    | false =>
      apply ih
      · simp [some_]
      · rw [List.mem_append, not_or]
        exact ⟨clean, bytes_clean ok⟩
      · obtain ⟨b, member, sent⟩ := later
        rcases List.mem_cons.mp member with rfl | member
        · rw [ok] at sent
          cases sent
        · exact ⟨b, member, sent⟩

theorem spoilt_of_unsound {attempts : List Attempt} (unsound : ¬ Sound attempts) :
    ∃ line ∈ linesOf (attempts.flatMap Attempt.bytes), line ≠ [] ∧ Spoilt line := by
  induction attempts with
  | nil => exact absurd List.Pairwise.nil unsound
  | cons a attempts ih =>
    rw [List.flatMap_cons]
    by_cases here : ∀ b ∈ attempts, a.torn = true → b.returned = false
    · have rest : ¬ Sound attempts := fun sound => unsound (List.pairwise_cons.mpr ⟨here, sound⟩)
      obtain ⟨line, member, some_, spoilt⟩ := ih rest
      refine ⟨line, ?_, some_, spoilt⟩
      cases ok : a.returned with
      | true =>
        rw [bytes_returned ok, linesOf_whole]
        exact List.mem_cons_of_mem _ member
      | false =>
        cases torn : a.torn with
        | false => rwa [bytes_nothing ok torn, List.nil_append]
        | true =>
          have failed : ∀ b ∈ attempts, b.returned = false := fun b inside => here b inside torn
          rw [linesOf, Lines.split_clean (stream_clean failed)] at member
          cases member
    · simp only [not_forall, Bool.not_eq_false] at here
      obtain ⟨b, member, torn, sent⟩ := here
      have failed : a.returned = false := by
        rcases a with ⟨cmd, outcome, short⟩
        cases outcome with
        | all => cases torn
        | raises => rfl
      exact joined_line (bytes_torn torn) (bytes_clean failed) ⟨b, member, sent⟩

/-- What the plugin should find on a connection: on every line one command, and each command whose
    sender was told that it has been sent. -/
def Undamaged (attempts : List Attempt) (lines : List (List UInt8)) : Prop :=
  (∀ line ∈ lines, ∃ a ∈ attempts, line ++ [newline] = a.cmd.toWire) ∧
    ((attempts.filter Attempt.returned).map fun a => a.cmd.toWire).Sublist
      (lines.map fun line => line ++ [newline])

/-- The stream is undamaged exactly when nothing is sent with success after a torn line. -/
theorem undamaged_iff_sound (t : Transport) {sock : Socket} (current : t.sock = some sock)
    (fresh : t.sent sock = []) (attempts : List Attempt) {chunks : List (List UInt8)}
    (arrived : chunks.flatten = (sendCommands t attempts).sent sock) :
    Undamaged attempts (extracted [] chunks) ↔ Sound attempts := by
  have lines : extracted [] chunks =
      (linesOf (attempts.flatMap Attempt.bytes)).filter fun line => !line.isEmpty := by
    have all := extracted_eq [] chunks
    rw [List.nil_append, arrived, sendCommands_sent current, fresh, List.nil_append] at all
    exact all
  rw [lines]
  constructor
  · intro undamaged
    by_contra unsound
    -- the torn line and the next one run together into a line that is no command
    obtain ⟨line, member, some_, spoilt⟩ := spoilt_of_unsound unsound
    obtain ⟨a, -, same⟩ := undamaged.1 line (List.mem_filter.mpr ⟨member, by simpa using some_⟩)
    rw [toWire_eq] at same
    exact spoilt a.cmd (List.append_cancel_right same)
  · intro sound
    rw [lines_of_sound sound]
    have whole : (List.map (fun a => commandText a.cmd) (attempts.filter Attempt.returned)).filter
        (fun line => !line.isEmpty) =
        (attempts.filter Attempt.returned).map fun a => commandText a.cmd := by
      rw [List.filter_eq_self]
      intro line member
      obtain ⟨a, -, rfl⟩ := List.mem_map.mp member
      simpa using commandText_ne_nil a.cmd
    rw [whole]
    constructor
    · intro line member
      obtain ⟨a, inside, rfl⟩ := List.mem_map.mp member
      exact ⟨a, (List.mem_filter.mp inside).1, (toWire_eq a.cmd).symm⟩
    · have same : (attempts.filter Attempt.returned).map (fun a => a.cmd.toWire) =
          ((attempts.filter Attempt.returned).map fun a => commandText a.cmd).map
            fun line => line ++ [newline] := by
        rw [List.map_map]
        exact List.map_congr_left fun a _ => toWire_eq a.cmd
      rw [same]

/-- The first byte of a press has gone out when the socket times out, and the release follows. -/
def tornPress : List Attempt :=
  [⟨pressLeft, .raises 1, fun written eq => by cases eq; decide +kernel⟩, ⟨releaseLeft, .all, by simp⟩]

theorem tornPress_damaged :
    ¬ ∀ (t : Transport) (sock : Socket) (attempts : List Attempt) (chunks : List (List UInt8)),
      t.sock = some sock → t.sent sock = [] → chunks.flatten = (sendCommands t attempts).sent sock →
      Undamaged attempts (extracted [] chunks) := by
  intro always
  have undamaged := always ⟨some 0, fun _ => []⟩ 0 tornPress
    [(sendCommands ⟨some 0, fun _ => []⟩ tornPress).sent 0] rfl rfl (by simp)
  have line : (123 :: commandText releaseLeft) ∈ extracted []
      [(sendCommands ⟨some 0, fun _ => []⟩ tornPress).sent 0] := by
    decide +kernel
  obtain ⟨a, -, same⟩ := undamaged.1 _ line
  rw [toWire_eq] at same
  have some_ : [(123 : UInt8)] ≠ [] := by simp
  exact joined_ne_commandText some_ releaseLeft a.cmd (List.append_cancel_right same)

theorem undamaged_without_tear :
    Undamaged [⟨pressLeft, .raises 0, fun written eq => by cases eq; decide +kernel⟩,
        ⟨releaseLeft, .all, by simp⟩]
      (extracted [] [releaseLeft.toWire.take 7, releaseLeft.toWire.drop 7]) := by
  refine (undamaged_iff_sound ⟨some 0, fun _ => []⟩ rfl rfl _ ?_).mpr ?_
  · decide +kernel
  · refine .cons ?_ (.cons ?_ .nil)
    · intro b member torn
      cases torn
    · intro b member
      cases member

end WebControl.Link
