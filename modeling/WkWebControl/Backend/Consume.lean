import Mathlib.Data.List.Induction
import Mathlib.Data.List.TakeWhile
import WkWebControl.Backend.Ipc

open WebControl
open WebControl.Link (Codec Socket newline)
open Lines (Cut)

namespace WebControl.Backend.TcpIpcTransport

/-- `buf.partition(b"\n")` where there is one. -/
def partition (buf : List UInt8) : List UInt8 × List UInt8 :=
  (buf.takeWhile (· ≠ newline), (buf.dropWhile (· ≠ newline)).tail)

theorem partition_whole {buf : List UInt8} (there : newline ∈ buf) :
    buf = (partition buf).1 ++ newline :: (partition buf).2 := by
  induction buf with
  | nil => cases there
  | cons b buf ih =>
    by_cases same : b = newline
    · simp [partition, same]
    · have later := ih ((List.mem_cons.mp there).resolve_left (Ne.symm same))
      simpa [partition, same] using later

theorem partition_clean (buf : List UInt8) : newline ∉ (partition buf).1 := by
  intro member
  simpa using List.mem_takeWhile_imp member

theorem partition_length {buf : List UInt8} (there : newline ∈ buf) : (partition buf).2.length < buf.length := by
  have lengths := congrArg List.length (partition_whole there)
  rw [List.length_append, List.length_cons] at lengths
  omega

theorem split_partition {buf : List UInt8} (there : newline ∈ buf) :
    Lines.split newline buf = ((partition buf).1 :: (Lines.split newline (partition buf).2).1,
      (Lines.split newline (partition buf).2).2) := by
  conv_lhs => rw [partition_whole there]
  exact Lines.split_line (partition_clean buf) _

def takeNewest (buf : List UInt8) : Option (List UInt8) × List UInt8 :=
  if _there : newline ∈ buf then
    if newline ∈ (partition buf).2 then takeNewest (partition buf).2
    else (some (partition buf).1, (partition buf).2)
  else (none, buf)
termination_by buf.length
decreasing_by exact partition_length _there

theorem takeNewest_eq (buf : List UInt8) :
    takeNewest buf = ((Lines.split newline buf).1.getLast?, (Lines.split newline buf).2) := by
  fun_induction takeNewest buf with
  | case1 buf there more ih =>
    rw [ih, split_partition there]
    cases later : (Lines.split newline (partition buf).2).1 with
    | nil => exact absurd later (Lines.split_ne_nil_iff.mpr more)
    | cons line lines => rw [List.getLast?_cons_cons]
  | case2 buf there last =>
    rw [split_partition there, Lines.split_clean last]
    rfl
  | case3 buf none_ =>
    rw [Lines.split_clean none_]
    rfl

/-- A round of `_consume` with its loop as it is written. -/
def consumeRound (codec : Codec) (s : Socket) (buf : List UInt8) : Link.Prog Link.Flow := do
  match ← Link.call (.receive s) with
  | .data data =>
    match (takeNewest (buf ++ data)).1 with
    | some line => onLine codec line
    | none => pure ()
    return .consuming s (takeNewest (buf ++ data)).2
  | _ =>
    Link.call (.setSock none)
    Link.call (.setLatest none)
    return .connecting

theorem consume_eq_consumeRound (codec : Codec) (s : Socket) (buf : List UInt8) :
    consume codec s buf = consumeRound codec s buf := by
  simp only [consumeRound, takeNewest_eq]
  rfl

structure Consumed where
  buf : List UInt8 := []
  handed : List (List UInt8) := []

def Consumed.extend (c : Consumed) (data : List UInt8) : Consumed where
  buf := (takeNewest (c.buf ++ data)).2
  handed := c.handed ++ (takeNewest (c.buf ++ data)).1.toList

def consumed (chunks : List (List UInt8)) : Consumed := chunks.foldl Consumed.extend {}

theorem consumed_append (chunks : List (List UInt8)) (data : List UInt8) :
    consumed (chunks ++ [data]) = (consumed chunks).extend data := by
  rw [consumed, List.foldl_append]
  rfl

theorem consumed_buf (chunks : List (List UInt8)) :
    (consumed chunks).buf = (Lines.split newline chunks.flatten).2 := by
  induction chunks using List.reverseRecOn with
  | nil => rfl
  | append_singleton chunks data ih =>
    rw [consumed_append, List.flatten_append, List.flatten_singleton, Lines.split_append, ← ih]
    change (takeNewest ((consumed chunks).buf ++ data)).2 = _
    rw [takeNewest_eq]

structure HandedOver (lines handed : List (List UInt8)) : Prop where
  once : ∃ indices : List Nat, indices.Pairwise (· < ·) ∧ handed.map some = indices.map (lines[·]?)
  last : handed.getLast? = lines.getLast?

theorem HandedOver.append {lines handed : List (List UInt8)} (given : HandedOver lines handed)
    (more : List (List UInt8)) : HandedOver (lines ++ more) (handed ++ more.getLast?.toList) := by
  obtain ⟨⟨indices, rising, each⟩, last⟩ := given
  cases newest : more.getLast? with
  | none =>
    rw [List.getLast?_eq_none_iff.mp newest, List.append_nil, Option.toList_none, List.append_nil]
    exact ⟨⟨indices, rising, each⟩, last⟩
  | some line =>
    have old : ∀ i ∈ indices, i < lines.length := by
      intro i member
      have there : lines[i]? ∈ handed.map some := each ▸ List.mem_map_of_mem member
      obtain ⟨l, -, found⟩ := List.mem_map.mp there
      exact (List.getElem?_eq_some_iff.mp found.symm).1
    have some_ : more ≠ [] := by
      rintro rfl
      cases newest
    have positive := List.length_pos_iff.mpr some_
    refine ⟨⟨indices ++ [lines.length + (more.length - 1)], ?_, ?_⟩, ?_⟩
    · rw [List.pairwise_append]
      refine ⟨rising, List.pairwise_singleton _ _, fun i member j same => ?_⟩
      rw [List.mem_singleton.mp same]
      exact Nat.lt_of_lt_of_le (old i member) (Nat.le_add_right _ _)
    · have first : indices.map ((lines ++ more)[·]?) = indices.map (lines[·]?) :=
        List.map_congr_left fun i member => List.getElem?_append_left (old i member)
      have next : (lines ++ more)[lines.length + (more.length - 1)]? = some line := by
        rw [List.getElem?_append_right (Nat.le_add_right _ _), Nat.add_sub_cancel_left, ← List.getLast?_eq_getElem?,
          newest]
      rw [List.map_append, List.map_append, first, each, Option.toList_some, List.map_singleton,
        List.map_singleton, next]
    · rw [Option.toList_some, List.getLast?_append, List.getLast?_append, newest]
      rfl

theorem consumed_handed (chunks : List (List UInt8)) (data : List UInt8) :
    (consumed (chunks ++ [data])).handed =
      (consumed chunks).handed ++ (Lines.split newline ((consumed chunks).buf ++ data)).1.getLast?.toList := by
  rw [consumed_append, Consumed.extend, takeNewest_eq]

theorem lines_append (chunks : List (List UInt8)) (data : List UInt8) :
    (Lines.split newline (chunks ++ [data]).flatten).1 =
      (Lines.split newline chunks.flatten).1 ++ (Lines.split newline ((consumed chunks).buf ++ data)).1 := by
  rw [List.flatten_append, List.flatten_singleton, Lines.split_append, consumed_buf]

theorem consumed_over (chunks : List (List UInt8)) :
    HandedOver (Lines.split newline chunks.flatten).1 (consumed chunks).handed := by
  induction chunks using List.reverseRecOn with
  | nil => exact ⟨⟨[], .nil, rfl⟩, rfl⟩
  | append_singleton chunks data ih =>
    rw [consumed_handed, lines_append]
    exact ih.append _

theorem consumed_cut (chunks : List (List UInt8)) :
    Cut newline chunks.flatten (Lines.split newline chunks.flatten).1 (consumed chunks).buf := by
  rw [consumed_buf]
  exact Lines.cut_split chunks.flatten

theorem consumed_next (chunks : List (List UInt8)) (data : List UInt8) :
    (consumed (chunks ++ [data])).handed = (consumed chunks).handed ++
      if newline ∈ data then (Lines.split newline (chunks ++ [data]).flatten).1.getLast?.toList else [] := by
  have ends : (Lines.split newline ((consumed chunks).buf ++ data)).1 ≠ [] ↔ newline ∈ data := by
    rw [Lines.split_ne_nil_iff, List.mem_append]
    exact or_iff_right (consumed_cut chunks).open_
  rw [consumed_handed, lines_append]
  cases more : (Lines.split newline ((consumed chunks).buf ++ data)).1 with
  | nil => rw [if_neg fun member => ends.mpr member more, List.getLast?_nil, Option.toList_none]
  | cons line lines =>
    rw [if_pos (ends.mp (by rw [more]; exact List.cons_ne_nil _ _)), List.getLast?_append, List.getLast?_cons,
      Option.some_or]

/-- However a stream is cut into chunks: the buffer holds its open end, the lines handed over are whole lines
    of it, each once, in their order and up to the last one, and each chunk that ends a line hands over the
    line that is the last one then. -/
theorem consumed_newest (chunks : List (List UInt8)) :
    ∃ lines, Cut newline chunks.flatten lines (consumed chunks).buf ∧ HandedOver lines (consumed chunks).handed ∧
      ∀ data, ∃ lines', Cut newline (chunks ++ [data]).flatten lines' (consumed (chunks ++ [data])).buf ∧
        (consumed (chunks ++ [data])).handed =
          (consumed chunks).handed ++ (if newline ∈ data then lines'.getLast?.toList else []) ∧
        (newline ∈ data → lines' ≠ []) := by
  refine ⟨_, consumed_cut chunks, consumed_over chunks, fun data => ?_⟩
  refine ⟨_, consumed_cut (chunks ++ [data]), consumed_next chunks data, fun member => ?_⟩
  rw [Lines.split_ne_nil_iff, List.flatten_append, List.flatten_singleton]
  exact List.mem_append_right _ member

end WebControl.Backend.TcpIpcTransport
