import WkWebControl.Link.Push
import WkWebControl.Link.Replies

open Effects WebControl Program
open WebControl.Dll (GameSnapshot)

namespace WebControl.Link

def taken : History Answer → List UInt8
  | [] => []
  | ⟨.connect, _⟩ :: _ => []
  | ⟨.setLatest none, _⟩ :: _ => []
  | ⟨.receive _, .data bytes⟩ :: g => taken g ++ bytes
  | _ :: g => taken g

def onSock : History Answer → Option Socket
  | [] => none
  | ⟨.connect, sock⟩ :: _ => sock
  | ⟨.setLatest none, _⟩ :: _ => none
  | _ :: g => onSock g

def lastSet : History Answer → Option Backend.GameSnapshot
  | [] => none
  | ⟨.setLatest latest, _⟩ :: _ => latest
  | _ :: g => lastSet g

def reads (codec : Codec) (line : List UInt8) : Option Backend.GameSnapshot :=
  if line.all Backend.TcpIpcTransport.isBlank then none else Backend.GameSnapshot.fromWire codec line

/-- As long as every line can be read, `_latest` is what the newest complete line says. -/
def Shows (codec : Codec) (g : History Answer) : Prop :=
  (∀ line ∈ (Lines.split newline (taken g)).1, reads codec line ≠ none) →
    lastSet g = (Lines.split newline (taken g)).1.getLast?.bind (reads codec)

def takePermits (codec : Codec) (g : History Answer) : Effect → Prop
  | .connect | .setSock _ | .setLatest none => Shows codec g
  | .receive sock => Shows codec g ∧ onSock g = some sock
  | .setLatest (some _) => True
  | _ => False

def takePost (codec : Codec) : Flow → History Answer → Prop
  | .connecting, g => lastSet g = none ∧ taken g = []
  | .consuming sock buf, g =>
    Shows codec g ∧ onSock g = some sock ∧ buf = (Lines.split newline (taken g)).2
  | _, _ => False

theorem Shows.offline (codec : Codec) {g : History Answer} (nothing : lastSet g = none)
    (none_ : taken g = []) : Shows codec g := by
  intro _
  rw [nothing, none_]
  rfl

theorem readerLoop_takes (codec : Codec) {g : History Answer} (post : takePost codec .connecting g) :
    Meets (takePermits codec) (takePost codec) Backend.TcpIpcTransport.readerLoop g := by
  obtain ⟨nothing, none_⟩ := post
  simp only [Backend.TcpIpcTransport.readerLoop, meets_bind, call, meets_call]
  refine ⟨Shows.offline codec nothing none_, fun sock => ?_⟩
  cases sock with
  | none => exact ⟨Shows.offline codec nothing rfl, fun _ => ⟨rfl, rfl⟩⟩
  | some s =>
    exact ⟨Shows.offline codec nothing rfl, fun _ => ⟨Shows.offline codec nothing rfl, rfl, rfl⟩⟩

theorem onLine_takes {codec : Codec} {g : History Answer} {line : List UInt8} {sock : Socket}
    {buf : List UInt8} (newest : (Lines.split newline (taken g)).1.getLast? = some line)
    (current : onSock g = some sock) (rest : buf = (Lines.split newline (taken g)).2) :
    Meets (takePermits codec) (fun _ => takePost codec (.consuming sock buf))
      (Backend.TcpIpcTransport.onLine codec line) g := by
  have unread (unreadable : reads codec line = none) : Shows codec g :=
    fun readable => absurd unreadable (readable line (List.mem_of_getLast? newest))
  unfold Backend.TcpIpcTransport.onLine
  split
  · rename_i blank
    exact ⟨unread (if_pos blank), current, rest⟩
  · rename_i text
    have read : reads codec line = Backend.GameSnapshot.fromWire codec line := if_neg text
    split
    · rename_i failed
      exact ⟨unread (read.trans failed), current, rest⟩
    · rename_i snap parsed
      refine ⟨trivial, fun _ => ⟨fun _ => ?_, current, rest⟩⟩
      change some snap = (Lines.split newline (taken g)).1.getLast?.bind (reads codec)
      rw [newest, Option.bind_some, read, parsed]

theorem consume_takes (codec : Codec) {sock : Socket} {buf : List UInt8} {g : History Answer}
    (post : takePost codec (.consuming sock buf) g) :
    Meets (takePermits codec) (takePost codec) (Backend.TcpIpcTransport.consume codec sock buf) g := by
  obtain ⟨shows, current, rest⟩ := post
  simp only [Backend.TcpIpcTransport.consume, meets_bind, call, meets_call]
  refine ⟨⟨shows, current⟩, fun chunk => ?_⟩
  cases chunk with
  | data bytes =>
    have whole : Lines.split newline (taken (⟨.receive sock, .data bytes⟩ :: g)) = _ :=
      Lines.split_append (taken g) bytes
    rw [← rest] at whole
    dsimp only
    split
    · rename_i line newest
      rw [meets_bind]
      refine (onLine_takes (g := ⟨.receive sock, .data bytes⟩ :: g) ?_ current
        (by rw [whole])).mono fun _ _ post => post
      rw [whole, List.getLast?_append, newest]
      rfl
    · rename_i none_
      refine ⟨?_, current, by rw [whole]⟩
      have same : (Lines.split newline (taken (⟨.receive sock, .data bytes⟩ :: g))).1 =
          (Lines.split newline (taken g)).1 := by
        rw [whole, List.getLast?_eq_none_iff.mp none_, List.append_nil]
      intro readable
      rw [same] at readable ⊢
      exact shows readable
  | _ =>
    simp only [meets_bind]
    exact ⟨shows, fun _ => ⟨shows, fun _ => ⟨rfl, rfl⟩⟩⟩

def streamPermits (codec : Codec) : Task → History Answer → Effect → Prop
  | .game => pushPermits codec
  | .ipc => ipcPermits codec
  | .reader => takePermits codec

def streamPost (codec : Codec) : Task → Flow → History Answer → Prop
  | .game => pushPost
  | .ipc => ipcPost
  | .reader => takePost codec

theorem stream_again_meets (codec : Codec) (i : Task) (flow : Flow) (h : History Answer)
    (done : streamPost codec i flow h) :
    (again codec flow).Meets (streamPermits codec i) (streamPost codec i) h := by
  cases i with
  | game =>
    cases flow with
    | game g => exact gameThread_pushes done
    | _ => exact done.elim
  | ipc =>
    cases flow with
    | accepting => exact serverLoop_meets codec h
    | serving client buffer => exact serveClient_meets codec done
    | stopped => exact done
    | terminated => exact done
    | _ => exact done.elim
  | reader =>
    cases flow with
    | connecting => exact readerLoop_takes codec done
    | consuming sock buf => exact consume_takes codec done
    | _ => exact done.elim

theorem stream_start_meets (codec : Codec) (i : Task) :
    (start codec i).Meets (streamPermits codec i) (streamPost codec i) [] := by
  cases i with
  | game => exact gameThread_pushes ⟨rfl, rfl⟩
  | ipc => exact serverLoop_meets codec []
  | reader => exact readerLoop_takes codec ⟨rfl, rfl⟩

def streamContract (codec : Codec) : (system codec).Contract where
  permits := streamPermits codec
  post := streamPost codec
  start := stream_start_meets codec
  again := stream_again_meets codec

/-- The snapshots whose lines have been sent whole to `c`, the oldest first, each with what
    `addrGameGlobal` was in its frame. -/
def completed (c : Socket) : History Answer → List (GameSnapshot × UInt32)
  | [] => []
  | ⟨.send client data, .sent n _ _⟩ :: h =>
    if client = c ∧ n = data.length then completed c h ++ (published h).toList else completed c h
  | _ :: h => completed c h

def unfinished (c : Socket) : History Answer → List UInt8
  | [] => []
  | ⟨.send client data, .sent n _ _⟩ :: h =>
    if client = c then if n = data.length then [] else unfinished c h ++ data.take n
    else unfinished c h
  | _ :: h => unfinished c h

def pending (codec : Codec) (c : Socket) (h : History Answer) : List UInt8 :=
  if holding h = some c ∧ sofar h ≠ line codec h then sofar h else []

section Pending

variable {codec : Codec} {c : Socket} {h : History Answer}

theorem pending_other (other : holding h ≠ some c) : pending codec c h = [] :=
  if_neg fun both => other both.1

theorem pending_held (held : holding h = some c) (short : sofar h ≠ line codec h) :
    pending codec c h = sofar h :=
  if_pos ⟨held, short⟩

theorem pending_whole (whole : sofar h = line codec h) : pending codec c h = [] :=
  if_neg fun both => both.2 whole

theorem pending_nothing (nothing : sofar h = []) : pending codec c h = [] := by
  unfold pending
  rw [nothing, ite_self]

end Pending

/-- On each connection there are whole lines, and at most one that is unfinished: the one that is being
    sent, unless the connection has been closed. -/
structure Sender (codec : Codec) (net : Socket → Connection) (h : History Answer) : Prop where
  sent : ∀ c, (net c).sent =
    ((completed c h).map fun p => Dll.stateLine codec p.1).flatten ++ unfinished c h
  started : ∀ c, (net c).closed = false → unfinished c h = pending codec c h
  gone : gaveUp h = true → ∀ c, holding h = some c → (net c).closed = true

theorem Sender.other {codec : Codec} {net net' : Socket → Connection} {h : History Answer}
    (sender : Sender codec net h) (sent : ∀ c, (net' c).sent = (net c).sent)
    (closed : ∀ c, (net c).closed = true → (net' c).closed = true) : Sender codec net' h where
  sent c := (sent c).trans (sender.sent c)
  started c open_ := sender.started c (by
    by_contra shut
    rw [Bool.not_eq_false] at shut
    rw [closed c shut] at open_
    cases open_)
  gone gave c held := closed c (sender.gone gave c held)

theorem Sender.between {codec : Codec} {net : Socket → Connection} {h : History Answer}
    (sender : Sender codec net h) (free : holding h = none) {c : Socket} (open_ : (net c).closed = false) :
    unfinished c h = [] := by
  rw [sender.started c open_, pending_other]
  rw [free]
  simp

theorem Sender.current {codec : Codec} {net : Socket → Connection} {h : History Answer}
    (sender : Sender codec net h) {c : Socket} {data : List UInt8} (held : holding h = some c)
    (some_ : data ≠ []) (rest : line codec h = sofar h ++ data) (open_ : (net c).closed = false) :
    unfinished c h = sofar h := by
  rw [sender.started c open_, pending_held held]
  intro same
  rw [rest] at same
  exact some_ (List.self_eq_append_right.mp same)

theorem line_of_published {codec : Codec} {h : History Answer} {data : List UInt8} (some_ : data ≠ [])
    (rest : line codec h = sofar h ++ data) :
    ∃ p, published h = some p ∧ line codec h = Dll.stateLine codec p.1 := by
  unfold line at rest ⊢
  cases newest : published h with
  | none =>
    rw [newest] at rest
    exact absurd (List.append_eq_nil_iff.mp rest.symm).2 some_
  | some p => exact ⟨p, rfl, rfl⟩

theorem Sender.send {codec : Codec} {s : Shared} {h : History Answer} (sender : Sender codec s.net h)
    {client : Socket} {data : List UInt8} {n : Nat} (some_ : 0 < n) (within : n ≤ data.length)
    (permitted : pushPermits codec h (.send client data)) (open_ : (s.net client).closed = false) :
    Sender codec
      (s.update client { s.net client with sent := (s.net client).sent ++ data.take n }).net
      (⟨.send client data, .sent n some_ within⟩ :: h) := by
  obtain ⟨held, left, rest⟩ := permitted
  have begun := sender.current held left rest open_
  obtain ⟨p, newest, whole⟩ := line_of_published left rest
  have all (full : n = data.length) : data.take n = data := by
    rw [full, List.take_length]
  refine ⟨fun c => ?_, fun c open' => ?_, fun gave c held' => ?_⟩
  · by_cases same : c = client
    · subst same
      rw [Shared.update_self, sender.sent c, begun, completed, unfinished]
      by_cases full : n = data.length
      · rw [if_pos ⟨rfl, full⟩, if_pos rfl, if_pos full, newest, all full, List.append_assoc, ← rest,
          whole]
        simp
      · rw [if_neg fun both => full both.2, if_pos rfl, if_neg full, begun, List.append_assoc]
    · rw [Shared.update_other _ _ same, sender.sent c, completed, unfinished,
        if_neg fun both => same both.1.symm, if_neg (Ne.symm same)]
  · by_cases same : c = client
    · subst same
      rw [unfinished, if_pos rfl, begun]
      by_cases full : n = data.length
      · rw [if_pos full, pending_whole]
        change sofar h ++ data.take n = line codec h
        rw [all full, rest]
      · rw [if_neg full, pending_held]
        · rfl
        · exact held
        · change sofar h ++ data.take n ≠ line codec h
          intro eq
          rw [rest] at eq
          have lengths := congrArg List.length (List.append_cancel_left eq)
          rw [List.length_take] at lengths
          omega
    · rw [Shared.update_other _ _ same] at open'
      have differs : holding h ≠ some c := by
        rw [held]
        exact fun eq => same (Option.some.inj eq).symm
      rw [unfinished, if_neg (Ne.symm same), sender.started c open', pending_other differs]
      exact (pending_other (h := ⟨.send client data, .sent n some_ within⟩ :: h) differs).symm
  · have closed := sender.gone gave c held'
    have same : client = c := Option.some.inj (held.symm.trans held')
    subst same
    rw [open_] at closed
    cases closed

theorem Sender.step {codec : Codec} {s after : Shared} {h : History Answer} {e : Effect} {r : Answer e}
    (sender : Sender codec s.net h) (permitted : pushPermits codec h e)
    (replies : s.Replies e r after) : Sender codec after.net (⟨e, r⟩ :: h) := by
  cases e with
  | send client data =>
    cases r with
    | sent n some_ within =>
      obtain ⟨open_, rfl⟩ := replies
      exact sender.send some_ within permitted open_
    | _ =>
      cases replies
      exact ⟨sender.sent, sender.started, sender.gone⟩
  | lockClient =>
    obtain ⟨_, _, rfl⟩ := replies
    refine ⟨sender.sent, fun c open_ => ?_, fun gave => by cases gave⟩
    rw [pending_nothing rfl]
    exact sender.between permitted open_
  | unlockClient =>
    -- what is unfinished on an open connection would be torn by the next push
    cases replies
    refine ⟨sender.sent, fun c open_ => ?_, fun _ c held => by cases held⟩
    rw [pending_other (h := ⟨.unlockClient, r⟩ :: h) (by simp [holding])]
    apply (sender.started c open_).trans
    rcases permitted with free | nothing | all | gave
    · exact pending_other (by simp [free])
    · exact pending_nothing nothing
    · exact pending_whole all
    · apply pending_other
      intro held
      have closed := sender.gone gave c held
      rw [open_] at closed
      cases closed
  | closesocket client =>
    have net := Shared.Replies.net replies
    cases replies
    have kept := sender.other (fun c => by simpa [wrote] using (net c).1) fun c => (net c).2
    refine ⟨kept.sent, kept.started, fun _ c held => ?_⟩
    have same : client = c := Option.some.inj (permitted.symm.trans held)
    subst same
    rw [Shared.update_self]
  | publish snap =>
    cases replies
    refine ⟨sender.sent, fun c open_ => ?_, sender.gone⟩
    have free : holding (⟨.publish snap, r⟩ :: h) ≠ some c := by simp [holding, permitted.1]
    rw [pending_other free]
    exact sender.between permitted.1 open_
  | nextCall =>
    obtain ⟨_, rfl⟩ := replies
    exact ⟨sender.sent, sender.started, sender.gone⟩
  | dispatch =>
    obtain ⟨_, _, rfl⟩ := replies
    exact ⟨sender.sent, sender.started, sender.gone⟩
  | readMemory | loadTurn | readControl =>
    obtain ⟨_, rfl⟩ := replies
    exact ⟨sender.sent, sender.started, sender.gone⟩
  | storeTurn | getTickCount | dropClient | clearControl | writeWeapon =>
    cases replies
    exact ⟨sender.sent, sender.started, sender.gone⟩
  | _ => exact permitted.elim

/-- A snapshot whose line comes through: no line break within it, and the reader gets back the value
    that was written. -/
structure Codec.Carries (codec : Codec) (snap : GameSnapshot) : Prop where
  clean : newline ∉ codec.dump (Dll.stateJson snap)
  text : (codec.dump (Dll.stateJson snap)).all Backend.TcpIpcTransport.isBlank = false
  loads : codec.loads (codec.dump (Dll.stateJson snap)) = some (Dll.stateJson snap)

theorem Codec.Carries.reads {codec : Codec} {snap : GameSnapshot} (carries : codec.Carries snap) :
    reads codec (codec.dump (Dll.stateJson snap)) = some (Backend.gameSnapshot snap) := by
  rw [Link.reads, carries.text, if_neg Bool.false_ne_true, Backend.GameSnapshot.fromWire, carries.loads,
    Option.bind_some, Backend.GameSnapshot.ofJson_stateJson]

def FromFrame (h : History Answer) (p : GameSnapshot × UInt32) : Prop :=
  Fits p.1 p.2 ∧ (⟨.publish p.1, ()⟩ : Step Answer) ∈ h

theorem FromFrame.later {h : History Answer} {p : GameSnapshot × UInt32} (from_ : FromFrame h p)
    (s : Step Answer) : FromFrame (s :: h) p :=
  ⟨from_.1, List.mem_cons_of_mem _ from_.2⟩

structure Framed (codec : Codec) (h : History Answer) : Prop where
  published : ∀ p, published h = some p → FromFrame h p
  completed : ∀ c, ∀ p ∈ completed c h, FromFrame h p
  clean : (∀ snap, (⟨.publish snap, ()⟩ : Step Answer) ∈ h → codec.Carries snap) →
    ∀ c, newline ∉ unfinished c h

theorem Framed.plain {codec : Codec} {h : History Answer} (framed : Framed codec h) {s : Step Answer}
    (published_ : Link.published (s :: h) = Link.published h)
    (completed_ : ∀ c, Link.completed c (s :: h) = Link.completed c h)
    (unfinished_ : ∀ c, unfinished c (s :: h) = unfinished c h) : Framed codec (s :: h) where
  published p newest := (framed.published p (published_ ▸ newest)).later s
  completed c p member := (framed.completed c p (completed_ c ▸ member)).later s
  clean carries c := by
    rw [unfinished_]
    exact framed.clean (fun snap member => carries snap (List.mem_cons_of_mem _ member)) c

theorem clean_of_short {front back text : List UInt8} (whole : front ++ back = text ++ [newline])
    (short : back ≠ []) (clean : newline ∉ text) : newline ∉ front := by
  rcases List.eq_nil_or_concat back with rfl | ⟨rest, b, rfl⟩
  · exact absurd rfl short
  · rw [List.concat_eq_append, ← List.append_assoc] at whole
    obtain ⟨rfl, _⟩ := List.append_inj' whole rfl
    exact fun member => clean (List.mem_append_left _ member)

theorem Framed.send {codec : Codec} {net : Socket → Connection} {h : History Answer}
    (framed : Framed codec h) (sender : Sender codec net h) {client : Socket} {data : List UInt8} {n : Nat}
    (some_ : 0 < n) (within : n ≤ data.length) (permitted : pushPermits codec h (.send client data))
    (open_ : (net client).closed = false) :
    Framed codec (⟨.send client data, .sent n some_ within⟩ :: h) := by
  obtain ⟨held, left, rest⟩ := permitted
  obtain ⟨p, newest, whole⟩ := line_of_published left rest
  refine ⟨fun q newest => (framed.published q newest).later _, fun c q member => ?_,
    fun carries c => ?_⟩
  · rw [Link.completed] at member
    split at member
    · rcases List.mem_append.mp member with member | member
      · exact (framed.completed c q member).later _
      · exact (framed.published q (Option.mem_toList.mp member)).later _
    · exact (framed.completed c q member).later _
  · have before := framed.clean (fun snap member => carries snap (List.mem_cons_of_mem _ member)) c
    rw [unfinished]
    split
    · rename_i same
      subst same
      split
      · simp
      · rename_i short
        rw [sender.current held left rest open_]
        have known := carries p.1 (List.mem_cons_of_mem _ (framed.published p newest).2)
        have back : sofar h ++ data.take n ++ data.drop n =
            codec.dump (Dll.stateJson p.1) ++ [newline] := by
          rw [List.append_assoc, List.take_append_drop, ← rest, whole]
          rfl
        refine clean_of_short back (fun nothing => ?_) known.clean
        have length := List.drop_eq_nil_iff.mp nothing
        omega
    · exact before

theorem Framed.step {codec : Codec} {s after : Shared} {h : History Answer} {e : Effect} {r : Answer e}
    (framed : Framed codec h) (sender : Sender codec s.net h) (permitted : pushPermits codec h e)
    (replies : s.Replies e r after) : Framed codec (⟨e, r⟩ :: h) := by
  cases e with
  | send client data =>
    cases r with
    | sent n some_ within => exact framed.send sender some_ within permitted replies.1
    | _ => exact framed.plain rfl (fun _ => rfl) fun _ => rfl
  | publish snap =>
    refine ⟨fun p newest => ?_, fun c p member => (framed.completed c p member).later _, ?_⟩
    · cases newest
      exact ⟨permitted.2, List.mem_cons_self⟩
    · exact fun carries c =>
        framed.clean (fun snap member => carries snap (List.mem_cons_of_mem _ member)) c
  | _ => exact framed.plain rfl (fun _ => rfl) fun _ => rfl

/-- The reader has what was sent on its connection, up to the bytes that are still on the way. -/
structure Receiver (s : Shared) (g : History Answer) : Prop where
  within : ∀ c, (s.net c).received ≤ (s.net c).sent.length
  fresh : ∀ c, s.connections ≤ c → (s.net c).received = 0
  current : ∀ sock, onSock g = some sock → sock < s.connections ∧
    taken g = (s.net sock).sent.take (s.net sock).received
  idle : onSock g = none → taken g = []
  latest : s.latest = lastSet g

theorem Receiver.other {s after : Shared} {g : History Answer} {e : Effect} {r : Answer e}
    (receiver : Receiver s g) (replies : s.Replies e r after) (others : takes e = false) :
    Receiver after g := by
  obtain ⟨received, connections, latest⟩ := replies.receiving others
  have sent := fun c => (replies.net c).1
  refine ⟨fun c => ?_, fun c new => ?_, fun sock current => ?_, receiver.idle,
    latest.trans receiver.latest⟩
  · rw [received, sent, List.length_append]
    exact Nat.le_add_right_of_le (receiver.within c)
  · rw [received]
    exact receiver.fresh c (connections ▸ new)
  · obtain ⟨old, same⟩ := receiver.current sock current
    refine ⟨connections.symm ▸ old, ?_⟩
    rw [received, sent, List.take_append_of_le_length (receiver.within sock)]
    exact same

theorem Receiver.step {codec : Codec} {s after : Shared} {g : History Answer} {e : Effect}
    {r : Answer e} (receiver : Receiver s g) (permitted : takePermits codec g e)
    (replies : s.Replies e r after) : Receiver after (⟨e, r⟩ :: g) := by
  cases e with
  | connect =>
    cases r with
    | none =>
      cases replies
      exact ⟨receiver.within, receiver.fresh, fun _ current => (by cases current), fun _ => rfl,
        receiver.latest⟩
    | some sock =>
      -- nothing has been sent on a connection that nobody has made yet
      obtain ⟨rfl, rfl⟩ := replies
      refine ⟨receiver.within, fun c new => receiver.fresh c (Nat.le_of_succ_le new), ?_,
        fun _ => rfl, receiver.latest⟩
      intro sock current
      cases current
      refine ⟨Nat.lt_succ_self _, ?_⟩
      rw [receiver.fresh _ le_rfl]
      rfl
  | receive sock =>
    cases r with
    | data bytes =>
      obtain ⟨n, there, rfl, rfl⟩ := replies
      obtain ⟨old, same⟩ := receiver.current sock permitted.2
      refine ⟨fun c => ?_, fun c new => ?_, fun sock' current => ?_, fun none_ => ?_, receiver.latest⟩
      · by_cases own : c = sock
        · subst own
          rw [Shared.update_self]
          exact there
        · rw [Shared.update_other _ _ own]
          exact receiver.within c
      · rw [Shared.update_other _ _ (Nat.ne_of_gt (Nat.lt_of_lt_of_le old new))]
        exact receiver.fresh c new
      · cases permitted.2.symm.trans current
        refine ⟨old, ?_⟩
        rw [Shared.update_self, List.take_add, ← same]
        rfl
      · cases permitted.2.symm.trans none_
    | _ =>
      cases replies
      exact ⟨receiver.within, receiver.fresh, receiver.current, receiver.idle, receiver.latest⟩
  | setSock sock =>
    cases replies
    exact ⟨receiver.within, receiver.fresh, receiver.current, receiver.idle, receiver.latest⟩
  | setLatest latest =>
    cases replies
    cases latest with
    | none =>
      exact ⟨receiver.within, receiver.fresh, fun _ current => (by cases current), fun _ => rfl, rfl⟩
    | some snap => exact ⟨receiver.within, receiver.fresh, receiver.current, receiver.idle, rfl⟩
  | _ => exact permitted.elim

structure Streams (codec : Codec) (s : Shared) (log : Log) : Prop where
  sender : Sender codec s.net (historyOf .game log)
  framed : Framed codec (historyOf .game log)
  receiver : Receiver s (historyOf .reader log)

theorem ipcPermits_takes {codec : Codec} {h : History Answer} {e : Effect}
    (permitted : ipcPermits codec h e) : takes e = false := by
  cases e <;> first | rfl | cases permitted

theorem pushPermits_takes {codec : Codec} {h : History Answer} {e : Effect}
    (permitted : pushPermits codec h e) : takes e = false := by
  cases e <;> first | rfl | cases permitted

theorem Streams.entry {codec : Codec} {x : Entry Task Answer Shared} {log : Log}
    (streams : Streams codec x.before log) (replies : x.before.Replies x.effect x.reply x.after)
    (permitted : streamPermits codec x.thread (historyOf x.thread log) x.effect) :
    Streams codec x.after (x :: log) := by
  have net := replies.net
  rcases x with ⟨thread, effect, reply, before, after⟩
  cases thread with
  | game =>
    exact ⟨streams.sender.step permitted replies, streams.framed.step streams.sender permitted replies,
      streams.receiver.other replies (pushPermits_takes permitted)⟩
  | ipc =>
    refine ⟨streams.sender.other (fun c => ?_) fun c => (net c).2, streams.framed,
      streams.receiver.other replies (ipcPermits_takes permitted)⟩
    have sent := (net c).1
    cases effect <;> first | simpa [wrote] using sent | exact permitted.elim
  | reader =>
    refine ⟨streams.sender.other (fun c => ?_) fun c => (net c).2, streams.framed,
      streams.receiver.step permitted replies⟩
    have sent := (net c).1
    cases effect <;> first | simpa [wrote] using sent | exact permitted.elim

/-- In every state of a run the two ends of the stream are in step. -/
theorem run_streams (codec : Codec) (events : List (Task × Choice)) :
    Streams codec (run codec events).shared (run codec events).log := by
  refine (streamContract codec).run_log {} (P := Streams codec) ?_ ?_ events
  · exact ⟨⟨fun _ => rfl, fun _ _ => rfl, fun gave => (by cases gave)⟩,
      ⟨fun _ newest => (by cases newest), fun _ _ member => (by cases member),
        fun _ _ => List.not_mem_nil⟩,
      ⟨fun _ => le_rfl, fun _ _ => rfl, fun _ current => (by cases current), fun _ => rfl, rfl⟩⟩
  · exact fun x log streams answered permitted =>
      streams.entry (answered_replies answered rfl) permitted

end WebControl.Link
