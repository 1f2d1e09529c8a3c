import Mathlib.Data.List.Basic

namespace Lines

variable {α : Type} [DecidableEq α]

/-- The complete lines of a buffer, without the separators, and what is left after the last one. -/
def split (sep : α) : List α → List (List α) × List α
  | [] => ([], [])
  | a :: buffer =>
    if a = sep then ([] :: (split sep buffer).1, (split sep buffer).2)
    else match (split sep buffer).1 with
      | [] => ([], a :: (split sep buffer).2)
      | line :: lines => ((a :: line) :: lines, (split sep buffer).2)

variable {sep : α}

@[simp] theorem split_nil : split sep [] = ([], []) := rfl

theorem split_cons_sep (buffer : List α) :
    split sep (sep :: buffer) = ([] :: (split sep buffer).1, (split sep buffer).2) := by
  simp [split]

theorem split_open {open_ : List α} (clean : sep ∉ open_) (buffer : List α) :
    split sep (open_ ++ buffer) =
      match (split sep buffer).1 with
      | [] => ([], open_ ++ (split sep buffer).2)
      | line :: lines => ((open_ ++ line) :: lines, (split sep buffer).2) := by
  induction open_ with
  | nil =>
    rw [List.nil_append]
    cases eq : split sep buffer with
    | mk lines rest => cases lines <;> rfl
  | cons a open_ ih =>
    rw [List.mem_cons, not_or] at clean
    rw [List.cons_append, split, if_neg (Ne.symm clean.1), ih clean.2]
    cases (split sep buffer).1 <;> rfl

theorem split_clean {open_ : List α} (clean : sep ∉ open_) : split sep open_ = ([], open_) := by
  have whole := split_open clean []
  simpa using whole

theorem split_line {line : List α} (clean : sep ∉ line) (buffer : List α) :
    split sep (line ++ sep :: buffer) =
      (line :: (split sep buffer).1, (split sep buffer).2) := by
  rw [split_open clean, split_cons_sep]
  simp

theorem split_append (first second : List α) :
    split sep (first ++ second) =
      ((split sep first).1 ++ (split sep ((split sep first).2 ++ second)).1,
        (split sep ((split sep first).2 ++ second)).2) := by
  induction first with
  | nil => rfl
  | cons a first ih =>
    by_cases same : a = sep
    · subst same
      rw [List.cons_append, split_cons_sep, split_cons_sep, ih]
      rfl
    · rw [List.cons_append, split, if_neg same, ih, split, if_neg same]
      cases lines : (split sep first).1 with
      | nil =>
        simp only [List.nil_append]
        have clean : sep ∉ [a] := by simpa using fun eq => same eq.symm
        have step := split_open clean ((split sep first).2 ++ second)
        rw [List.singleton_append] at step
        rw [List.cons_append, step]
        cases (split sep ((split sep first).2 ++ second)).1 <;> rfl
      | cons line lines => rfl

theorem split_lines {lines : List (List α)} (clean : ∀ line ∈ lines, sep ∉ line) {open_ : List α}
    (last : sep ∉ open_) :
    split sep ((lines.map fun line => line ++ [sep]).flatten ++ open_) = (lines, open_) := by
  induction lines with
  | nil => exact split_clean last
  | cons line lines ih =>
    rw [List.map_cons, List.flatten_cons, List.append_assoc, List.append_assoc,
      List.singleton_append, split_line (clean line List.mem_cons_self),
      ih fun l m => clean l (List.mem_cons_of_mem _ m)]

structure Cut (sep : α) (text : List α) (lines : List (List α)) (rest : List α) : Prop where
  whole : text = (lines.map fun line => line ++ [sep]).flatten ++ rest
  clean : ∀ line ∈ lines, sep ∉ line
  open_ : sep ∉ rest

theorem cut_split (text : List α) : Cut sep text (split sep text).1 (split sep text).2 := by
  induction text with
  | nil => exact ⟨rfl, nofun, List.not_mem_nil⟩
  | cons a text ih =>
    by_cases same : a = sep
    · subst same
      rw [split_cons_sep]
      refine ⟨congrArg (a :: ·) ih.whole, ?_, ih.open_⟩
      intro line member
      rcases List.mem_cons.mp member with rfl | member
      · exact List.not_mem_nil
      · exact ih.clean line member
    · rw [Lines.split, if_neg same]
      cases lines : (Lines.split sep text).1 with
      | nil =>
        rw [lines] at ih
        refine ⟨congrArg (a :: ·) ih.whole, nofun, ?_⟩
        rw [List.mem_cons, not_or]
        exact ⟨Ne.symm same, ih.open_⟩
      | cons line lines =>
        rw [lines] at ih
        refine ⟨congrArg (a :: ·) ih.whole, ?_, ih.open_⟩
        intro l member
        rcases List.mem_cons.mp member with rfl | member
        · rw [List.mem_cons, not_or]
          exact ⟨Ne.symm same, ih.clean line List.mem_cons_self⟩
        · exact ih.clean l (List.mem_cons_of_mem _ member)

theorem split_ne_nil_iff {text : List α} : (split sep text).1 ≠ [] ↔ sep ∈ text := by
  constructor
  · intro some_
    by_contra clean
    rw [split_clean clean] at some_
    exact some_ rfl
  · intro member none_
    have cut : Cut sep text _ _ := cut_split text
    rw [none_] at cut
    rw [cut.whole] at member
    exact cut.open_ member

theorem split_prefix {lines : List (List α)} (clean : ∀ line ∈ lines, sep ∉ line) {text : List α}
    (within : text <+: (lines.map fun line => line ++ [sep]).flatten) :
    (split sep text).1 = lines.take (text.count sep) := by
  induction lines generalizing text with
  | nil =>
    have empty : text = [] := List.prefix_nil.mp within
    rw [empty]
    rfl
  | cons line lines ih =>
    have within_line (short : sep ∉ text) : (split sep text).1 = (line :: lines).take (text.count sep) := by
      rw [split_clean short, List.count_eq_zero_of_not_mem short, List.take_zero]
    have cleanLine : sep ∉ line := clean line List.mem_cons_self
    obtain ⟨left, whole⟩ := within
    rw [List.map_cons, List.flatten_cons, List.append_assoc, List.singleton_append] at whole
    rcases List.append_eq_append_iff.mp whole with ⟨more, cut, -⟩ | ⟨more, cut, rest⟩
    · apply within_line
      intro member
      rw [cut] at cleanLine
      exact cleanLine (List.mem_append_left _ member)
    · cases more with
      | nil =>
        rw [List.append_nil] at cut
        exact within_line (cut ▸ cleanLine)
      | cons a more =>
        rw [List.cons_append, List.cons.injEq] at rest
        obtain ⟨rfl, rest⟩ := rest
        have others := ih (fun l member => clean l (List.mem_cons_of_mem _ member)) ⟨left, rest.symm⟩
        rw [cut, split_line cleanLine, others, List.count_append, List.count_cons_self,
          List.count_eq_zero_of_not_mem cleanLine, Nat.zero_add, List.take_succ_cons]

end Lines
