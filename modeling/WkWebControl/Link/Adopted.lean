import WkWebControl.Link.Wire

open Effects WebControl Program
open WebControl.Dll (GameSnapshot)

namespace WebControl.Link

def adopted : History Answer → List (List UInt8)
  | [] => []
  | ⟨.connect, _⟩ :: _ => []
  | ⟨.setLatest none, _⟩ :: _ => []
  | ⟨.setLatest (some _), _⟩ :: g => adopted g ++ (linesOf (taken g)).getLast?.toList
  | _ :: g => adopted g

variable {codec : Codec} {g : History Answer}

/-- Each line has been adopted at most once and in order, `_latest` is what the newest of them says, and
    that is the newest line there is unless some line could not be read. -/
structure Adopts (codec : Codec) (g : History Answer) : Prop where
  order : (adopted g).Sublist (linesOf (taken g))
  shown : lastSet g = (adopted g).getLast?.bind (reads codec)
  newest : (∀ line ∈ linesOf (taken g), reads codec line ≠ none) →
    (adopted g).getLast? = (linesOf (taken g)).getLast?

structure Adopting (codec : Codec) (g : History Answer) (snap : Backend.GameSnapshot) : Prop where
  order : (adopted g).Sublist (linesOf (taken g)).dropLast
  shown : lastSet g = (adopted g).getLast?.bind (reads codec)
  line : (linesOf (taken g)).getLast?.bind (reads codec) = some snap

def adoptPermits (codec : Codec) (g : History Answer) : Effect → Prop
  | .connect | .setSock _ | .setLatest none | .receive _ => Adopts codec g
  | .setLatest (some snap) => Adopting codec g snap
  | _ => False

def adoptPost (codec : Codec) : Flow → History Answer → Prop
  | .connecting, g => lastSet g = none ∧ taken g = [] ∧ adopted g = []
  | .consuming _ buf, g => Adopts codec g ∧ buf = (Lines.split newline (taken g)).2
  | _, _ => False

theorem Adopts.nothing (none_ : taken g = []) (unset : lastSet g = none) (empty : adopted g = []) :
    Adopts codec g where
  order := by rw [empty]; exact List.nil_sublist _
  shown := by rw [unset, empty]; rfl
  newest := by
    intro _
    rw [empty, none_]
    rfl

theorem Adopting.adopts {snap : Backend.GameSnapshot} (adopting : Adopting codec g snap) :
    Adopts codec (⟨.setLatest (some snap), ()⟩ :: g) := by
  obtain ⟨line, last, read⟩ := Option.bind_eq_some_iff.mp adopting.line
  have after : adopted (⟨.setLatest (some snap), ()⟩ :: g) = adopted g ++ [line] := by
    rw [adopted, last]
    rfl
  have taken_ : taken (⟨.setLatest (some snap), ()⟩ :: g) = taken g := rfl
  refine ⟨?_, ?_, fun _ => ?_⟩
  · have whole : linesOf (taken g) = (linesOf (taken g)).dropLast ++ [line] :=
      (List.dropLast_append_getLast? line last).symm
    rw [after, taken_, whole]
    exact adopting.order.append_right [line]
  · rw [after, List.getLast?_concat, Option.bind_some, read]
    rfl
  · rw [after, taken_, List.getLast?_concat, last]

theorem readerLoop_adopts (idle : adoptPost codec .connecting g) :
    Meets (adoptPermits codec) (adoptPost codec) Backend.TcpIpcTransport.readerLoop g := by
  obtain ⟨unset, none_, empty⟩ := idle
  simp only [Backend.TcpIpcTransport.readerLoop, meets_bind, call, meets_call]
  refine ⟨.nothing none_ unset empty, fun sock => ?_⟩
  have fresh : Adopts codec (⟨.connect, sock⟩ :: g) := .nothing rfl unset rfl
  cases sock with
  | none => exact ⟨fresh, fun _ => ⟨rfl, rfl, rfl⟩⟩
  | some s => exact ⟨fresh, fun _ => ⟨.nothing rfl unset rfl, rfl⟩⟩

theorem onLine_adopts {sock : Socket} {bytes buf line : List UInt8} {new : List (List UInt8)}
    (adopts : Adopts codec g)
    (whole : Lines.split newline (taken g ++ bytes) = (linesOf (taken g) ++ (new ++ [line]), buf)) :
    Meets (adoptPermits codec) (fun _ => adoptPost codec (.consuming sock buf))
      (Backend.TcpIpcTransport.onLine codec line) (⟨.receive sock, .data bytes⟩ :: g) := by
  have lines : linesOf (taken (⟨.receive sock, .data bytes⟩ :: g)) =
      (linesOf (taken g) ++ new) ++ [line] := by
    change (Lines.split newline (taken g ++ bytes)).1 = _
    rw [whole, List.append_assoc]
  have rest : buf = (Lines.split newline (taken (⟨.receive sock, .data bytes⟩ :: g))).2 :=
    (congrArg Prod.snd whole).symm
  have order : (adopted g).Sublist (linesOf (taken g) ++ new) :=
    adopts.order.trans (List.sublist_append_left _ _)
  have skipped (unreadable : reads codec line = none) :
      Adopts codec (⟨.receive sock, .data bytes⟩ :: g) := by
    refine ⟨?_, adopts.shown, fun readable => ?_⟩
    · rw [lines]
      exact order.trans (List.sublist_append_left _ _)
    · rw [lines] at readable
      exact absurd unreadable (readable line (List.mem_append_right _ List.mem_cons_self))
  unfold Backend.TcpIpcTransport.onLine
  split
  · rename_i blank
    exact ⟨skipped (if_pos blank), rest⟩
  · rename_i text
    have read : reads codec line = Backend.GameSnapshot.fromWire codec line := if_neg text
    split
    · rename_i failed
      exact ⟨skipped (read.trans failed), rest⟩
    · rename_i snap parsed
      have adopting : Adopting codec (⟨.receive sock, .data bytes⟩ :: g) snap := by
        refine ⟨?_, adopts.shown, ?_⟩
        · rw [lines, List.dropLast_concat]
          exact order
        · rw [lines, List.getLast?_concat, Option.bind_some, read, parsed]
      exact ⟨adopting, fun _ => ⟨adopting.adopts, rest⟩⟩

theorem consume_adopts {sock : Socket} {buf : List UInt8} (post : adoptPost codec (.consuming sock buf) g) :
    Meets (adoptPermits codec) (adoptPost codec) (Backend.TcpIpcTransport.consume codec sock buf) g := by
  obtain ⟨adopts, rest⟩ := post
  simp only [Backend.TcpIpcTransport.consume, meets_bind, call, meets_call]
  refine ⟨adopts, fun chunk => ?_⟩
  cases chunk with
  | data bytes =>
    have whole : Lines.split newline (taken g ++ bytes) = _ := Lines.split_append (taken g) bytes
    rw [← rest] at whole
    dsimp only
    split
    · rename_i line newest
      rw [meets_bind]
      have new : (Lines.split newline (buf ++ bytes)).1 =
          (Lines.split newline (buf ++ bytes)).1.dropLast ++ [line] :=
        (List.dropLast_append_getLast? line newest).symm
      rw [new] at whole
      exact (onLine_adopts adopts whole).mono fun _ _ post => post
    · rename_i none_
      rw [List.getLast?_eq_none_iff.mp none_, List.append_nil] at whole
      have lines : linesOf (taken (⟨.receive sock, .data bytes⟩ :: g)) = linesOf (taken g) := by
        change (Lines.split newline (taken g ++ bytes)).1 = _
        rw [whole]
        rfl
      refine ⟨⟨?_, adopts.shown, ?_⟩, (congrArg Prod.snd whole).symm⟩
      · rw [lines]
        exact adopts.order
      · rw [lines]
        exact adopts.newest
  | _ =>
    simp only [meets_bind]
    exact ⟨⟨adopts.order, adopts.shown, adopts.newest⟩,
      fun _ => ⟨⟨adopts.order, adopts.shown, adopts.newest⟩, fun _ => ⟨rfl, rfl, rfl⟩⟩⟩

theorem reader_adopts (codec : Codec) (events : List (Task × Choice)) :
    ((run codec events).residual .reader).Meets (adoptPermits codec) (adoptPost codec)
      (historyOf .reader (run codec events).log) := by
  refine System.run_thread (S := system codec) ?_ ?_ {} events
  · exact readerLoop_adopts ⟨rfl, rfl, rfl⟩
  · intro flow h post
    cases flow with
    | connecting => exact readerLoop_adopts post
    | consuming sock buf => exact consume_adopts post
    | _ => exact post.elim

section Run

variable {events : List (Task × Choice)}

theorem adopted_shown (codec : Codec) (events : List (Task × Choice)) :
    (adopted (historyOf .reader (run codec events).log)).Sublist
      (linesOf (taken (historyOf .reader (run codec events).log))) ∧
    lastSet (historyOf .reader (run codec events).log) =
      (adopted (historyOf .reader (run codec events).log)).getLast?.bind (reads codec) := by
  have meets := reader_adopts codec events
  have known (adopts : Adopts codec (historyOf .reader (run codec events).log)) := And.intro adopts.order adopts.shown
  cases residual : (run codec events).residual .reader with
  | done flow =>
    rw [residual] at meets
    cases flow with
    | connecting =>
      obtain ⟨unset, none_, empty⟩ := meets
      exact known (.nothing none_ unset empty)
    | consuming sock buf => exact known meets.1
    | _ => exact meets.elim
  | perform e next =>
    rw [residual] at meets
    cases e with
    | connect | receive | setSock => exact known meets.1
    | setLatest latest =>
      cases latest with
      | none => exact known meets.1
      | some snap => exact ⟨meets.1.order.trans (List.dropLast_sublist _), meets.1.shown⟩
    | _ => exact meets.1.elim

theorem adopted_newest (consumed : Consumed (run codec events))
    (readable : ∀ line ∈ linesOf (taken (historyOf .reader (run codec events).log)),
      reads codec line ≠ none) :
    (adopted (historyOf .reader (run codec events).log)).getLast? =
      (linesOf (taken (historyOf .reader (run codec events).log))).getLast? := by
  have meets := reader_adopts codec events
  have idle := consumed.1
  cases residual : (run codec events).residual .reader with
  | done flow =>
    rw [residual] at meets
    cases flow with
    | connecting =>
      obtain ⟨unset, none_, empty⟩ := meets
      exact (Adopts.nothing none_ unset empty).newest readable
    | consuming sock buf => exact meets.1.newest readable
    | _ => exact meets.elim
  | perform e next =>
    rw [residual] at meets idle
    cases e with
    | connect | receive | setSock => exact meets.1.newest readable
    | setLatest latest =>
      cases latest with
      | none => exact meets.1.newest readable
      | some snap => cases idle
    | _ => exact meets.1.elim

/-- For the snapshots of a run the libraries keep to the grammar. -/
def Standards (codec : Codec) (s : Running) : Prop :=
  ∀ snap, (⟨.publish snap, ()⟩ : Step Answer) ∈ historyOf .game s.log → codec.Standard snap

def pushedLines (codec : Codec) (s : Running) (sock : Socket) : List (List UInt8) :=
  (completed sock (historyOf .game s.log)).map fun p => (Dll.stateLine codec p.1).dropLast

theorem taken_lines (standards : Standards codec (run codec events)) {sock : Socket}
    (current : onSock (historyOf .reader (run codec events).log) = some sock) :
    linesOf (taken (historyOf .reader (run codec events).log)) <+: pushedLines codec (run codec events) sock := by
  have carried : Carried codec (run codec events) := fun snap member => (standards snap member).carries
  have prefix_ := ((run_streams codec events).receiver.current sock current).2
  have lines := congrArg Prod.fst (sent_lines carried sock)
  have cut : Lines.split newline (taken (historyOf .reader (run codec events).log) ++
      ((run codec events).shared.net sock).sent.drop ((run codec events).shared.net sock).received) = _ :=
    Lines.split_append _ _
  rw [prefix_, List.take_append_drop, ← prefix_] at cut
  rw [cut] at lines
  refine ⟨_, lines.trans ?_⟩
  exact List.map_congr_left fun p _ => (dropLast_stateLine codec p.1).symm

/-- What the backend shows is always a line that the plugin has sent whole on the current connection. The
    lines are adopted in the order in which they were sent, and once everything has been consumed the
    last one is shown. -/
theorem latest_of_stream (standards : Standards codec (run codec events)) :
    (∀ snap, (run codec events).shared.latest = some snap →
      ∃ sock p, onSock (historyOf .reader (run codec events).log) = some sock ∧
        p ∈ completed sock (historyOf .game (run codec events).log) ∧
        (adopted (historyOf .reader (run codec events).log)).getLast? =
          some (Dll.stateLine codec p.1).dropLast ∧
        Backend.GameSnapshot.fromWire codec (Dll.stateLine codec p.1).dropLast = some snap) ∧
    (∀ sock, onSock (historyOf .reader (run codec events).log) = some sock →
      (adopted (historyOf .reader (run codec events).log)).Sublist
        (pushedLines codec (run codec events) sock)) ∧
    (Consumed (run codec events) → ∀ sock,
      onSock (historyOf .reader (run codec events).log) = some sock →
      (adopted (historyOf .reader (run codec events).log)).getLast? =
        (pushedLines codec (run codec events) sock).getLast?) := by
  have streams := run_streams codec events
  have carried : Carried codec (run codec events) := fun snap member => (standards snap member).carries
  obtain ⟨order, shown⟩ := adopted_shown codec events
  have readable : ∀ sock, ∀ p ∈ completed sock (historyOf .game (run codec events).log),
      reads codec (Dll.stateLine codec p.1).dropLast = some (Backend.gameSnapshot p.1) := by
    intro sock p member
    rw [dropLast_stateLine]
    exact (carried p.1 (streams.framed.completed sock p member).2).reads
  refine ⟨fun snap latest => ?_, fun sock current => ?_, fun consumed sock current => ?_⟩
  · rw [streams.receiver.latest, shown] at latest
    obtain ⟨line, newest, read⟩ := Option.bind_eq_some_iff.mp latest
    cases current : onSock (historyOf .reader (run codec events).log) with
    | none =>
      rw [streams.receiver.idle current] at order
      rw [List.sublist_nil.mp order] at newest
      cases newest
    | some sock =>
      have pushed := (taken_lines standards current).subset (order.subset (List.mem_of_getLast? newest))
      obtain ⟨p, member, rfl⟩ := List.mem_map.mp pushed
      have text := (fromWire_stateLine (standards p.1 (streams.framed.completed sock p member).2)).1
      have same := (readable sock p member).symm.trans read
      exact ⟨sock, p, rfl, member, newest, text.trans same⟩
  · exact order.trans (taken_lines standards current).sublist
  · have all := (streams.receiver.current sock current).2
    rw [consumed.2 sock current, List.take_length] at all
    have lines : linesOf (taken (historyOf .reader (run codec events).log)) =
        pushedLines codec (run codec events) sock := by
      rw [linesOf, all, sent_lines carried sock]
      exact List.map_congr_left fun p _ => (dropLast_stateLine codec p.1).symm
    rw [← lines]
    apply adopted_newest consumed
    intro line member
    rw [lines] at member
    obtain ⟨p, pushed, rfl⟩ := List.mem_map.mp member
    rw [readable sock p pushed]
    simp

end Run

theorem latest_of_lastFrame :
    ∃ sock p, onSock (historyOf .reader (run plainCodec lastFrame).log) = some sock ∧
      p ∈ completed sock (historyOf .game (run plainCodec lastFrame).log) ∧
      (adopted (historyOf .reader (run plainCodec lastFrame).log)).getLast? =
        some (Dll.stateLine plainCodec p.1).dropLast ∧
      Backend.GameSnapshot.fromWire plainCodec (Dll.stateLine plainCodec p.1).dropLast =
        some (Backend.gameSnapshot tinySnapshot) :=
  (latest_of_stream fun snap _ => plainCodec_standard snap).1 _ (by decide +kernel)

end WebControl.Link
