import WkWebControl.Dll.ControlCalls

namespace WebControl.Dll

namespace ControlCall

open ControlState

def sampled : List ControlCall → Bool
  | [] => false
  | clear :: _ => false
  | read :: calls => (of calls).firing
  | apply _ _ _ :: calls => sampled calls

def sampledEdges : List ControlCall → Nat
  | [] => 0
  | clear :: _ => 0
  | read :: calls => if (of calls).firing = sampled calls then sampledEdges calls else sampledEdges calls + 1
  | apply _ _ _ :: calls => sampledEdges calls

/-- The presses of fire in this game that a release has followed. -/
def pairs : List ControlCall → Nat
  | [] => 0
  | clear :: _ => 0
  | apply .fire .release _ :: calls => if (of calls).firing then pairs calls + 1 else pairs calls
  | _ :: calls => pairs calls

def isEdge (c : ControlCall) (calls : List ControlCall) : Bool :=
  match c with
  | apply .fire .press _ => !(of calls).firing
  | apply .fire .release _ => (of calls).firing
  | _ => false

def unread : List ControlCall → Bool
  | [] => false
  | apply a phase value :: calls => isEdge (apply a phase value) calls || unread calls
  | _ => false

/-- Between two edges of this game there is a `read`. -/
def EachRead : List ControlCall → Prop
  | [] => True
  | clear :: _ => True
  | c :: calls => (isEdge c calls = true → unread calls = false) ∧ EachRead calls

instance EachRead.decidable : ∀ calls, Decidable (EachRead calls)
  | [] => .isTrue trivial
  | clear :: _ => .isTrue trivial
  | read :: calls =>
    have := decidable calls
    inferInstanceAs (Decidable ((isEdge read calls = true → unread calls = false) ∧ EachRead calls))
  | apply a phase value :: calls =>
    have := decidable calls
    inferInstanceAs (Decidable ((isEdge (apply a phase value) calls = true → unread calls = false) ∧ EachRead calls))

def edges (calls : List ControlCall) : Nat := 2 * pairs calls + (of calls).firing.toNat

def ahead (calls : List ControlCall) : Nat := if (of calls).firing = sampled calls then 0 else 1

theorem firing_apply (a : ControlAction) (phase : ControlPhase) (value : Int) (calls : List ControlCall) :
    (of (apply a phase value :: calls)).firing =
      ((of calls).firing ^^ isEdge (apply a phase value) calls) := by
  rw [of_cons]
  cases a <;> cases phase <;> simp [ControlState.after, ControlState.apply, isEdge]

theorem edges_apply (a : ControlAction) (phase : ControlPhase) (value : Int) (calls : List ControlCall) :
    edges (apply a phase value :: calls) = edges calls + (isEdge (apply a phase value) calls).toNat := by
  rw [edges, edges, firing_apply]
  cases a with
  | fire =>
    cases phase <;> cases firing : (of calls).firing <;> simp [pairs, isEdge, firing]
    omega
  | _ => simp [pairs, isEdge]

/-- The reads show all edges but those that another has taken back before a `read`. -/
structure Shown (calls : List ControlCall) : Prop where
  least : sampledEdges calls + ahead calls ≤ edges calls
  whole : edges calls = sampledEdges calls + ahead calls ↔ EachRead calls
  pending : EachRead calls → (unread calls = true ↔ (of calls).firing ≠ sampled calls)

theorem sampledEdges_read (calls : List ControlCall) :
    sampledEdges (read :: calls) = sampledEdges calls + ahead calls := by
  rw [sampledEdges, ahead]
  split <;> rfl

theorem eachRead_read (calls : List ControlCall) : EachRead (read :: calls) ↔ EachRead calls :=
  ⟨fun each => each.2, fun each => ⟨fun edge => (by cases edge), each⟩⟩

theorem shown_silent {a : ControlAction} {phase : ControlPhase} {value : Int} {calls : List ControlCall}
    (silent : isEdge (apply a phase value) calls = false) (before : Shown calls) :
    Shown (apply a phase value :: calls) := by
  have level := firing_apply a phase value calls
  have count := edges_apply a phase value calls
  rw [silent, Bool.xor_false] at level
  rw [silent, Bool.toNat_false, Nat.add_zero] at count
  have seen : sampledEdges (apply a phase value :: calls) = sampledEdges calls := rfl
  have last : sampled (apply a phase value :: calls) = sampled calls := rfl
  have same : ahead (apply a phase value :: calls) = ahead calls := by rw [ahead, ahead, level, last]
  have each : EachRead (apply a phase value :: calls) ↔ EachRead calls := by simp [EachRead, silent]
  have open_ : unread (apply a phase value :: calls) = unread calls := by simp [unread, silent]
  refine ⟨?_, ?_, ?_⟩
  · rw [count, seen, same]
    exact before.least
  · rw [count, seen, same, each]
    exact before.whole
  · rw [each, open_, level, last]
    exact before.pending

theorem shown_edge {a : ControlAction} {phase : ControlPhase} {value : Int} {calls : List ControlCall}
    (edge : isEdge (apply a phase value) calls = true) (before : Shown calls) :
    Shown (apply a phase value :: calls) := by
  obtain ⟨least, whole, pending⟩ := before
  have level := firing_apply a phase value calls
  have count := edges_apply a phase value calls
  rw [edge, Bool.xor_true] at level
  rw [edge, Bool.toNat_true] at count
  have seen : sampledEdges (apply a phase value :: calls) = sampledEdges calls := rfl
  have last : sampled (apply a phase value :: calls) = sampled calls := rfl
  have each : EachRead (apply a phase value :: calls) ↔ unread calls = false ∧ EachRead calls := by
    simp [EachRead, edge]
  have open_ : unread (apply a phase value :: calls) = true := by simp [unread, edge]
  by_cases shown : (of calls).firing = sampled calls
  · have before : ahead calls = 0 := if_pos shown
    have after : ahead (apply a phase value :: calls) = 1 := by
      rw [ahead, level, last, if_neg]
      simp [shown]
    have closed : EachRead calls → unread calls = false := by
      intro eachRead
      rw [← Bool.not_eq_true, pending eachRead]
      exact not_not_intro shown
    refine ⟨?_, ?_, ?_⟩
    · omega
    · rw [count, seen, after, each, Nat.add_right_cancel_iff, and_iff_right_of_imp closed, ← whole, before]
      rfl
    · intro _
      rw [open_, level, last, shown]
      simp
  · have before : ahead calls = 1 := if_neg shown
    have after : ahead (apply a phase value :: calls) = 0 := by
      rw [ahead, level, last, if_pos]
      exact (Bool.eq_not_of_ne (Ne.symm shown)).symm
    have taken : ¬ EachRead (apply a phase value :: calls) := by
      intro eachRead
      obtain ⟨closed, eachRead⟩ := each.mp eachRead
      have opened := (pending eachRead).mpr shown
      rw [closed] at opened
      cases opened
    refine ⟨?_, iff_of_false ?_ taken, fun eachRead => absurd eachRead taken⟩
    · omega
    · omega

theorem shown (calls : List ControlCall) : Shown calls := by
  induction calls with
  | nil => exact ⟨Nat.le_refl 0, iff_of_true rfl trivial, fun _ => by simp [unread, sampled]⟩
  | cons c calls ih =>
    cases c with
    | clear => exact ⟨Nat.le_refl 0, iff_of_true rfl trivial, fun _ => by simp [unread, sampled, ControlState.after]⟩
    | read =>
      have level : (of (read :: calls)).firing = sampled (read :: calls) := rfl
      have shown : ahead (read :: calls) = 0 := if_pos level
      have count : edges (read :: calls) = edges calls := rfl
      refine ⟨?_, ?_, ?_⟩
      · rw [count, shown, sampledEdges_read]
        exact ih.least
      · rw [count, shown, sampledEdges_read, eachRead_read]
        exact ih.whole
      · intro _
        rw [level]
        simp [unread]
    | apply a phase value =>
      cases edge : isEdge (apply a phase value) calls with
      | false => exact shown_silent edge ih
      | true => exact shown_edge edge ih

/-- Once the level has been read, the reads have shown every edge exactly if each was read before the
    next. -/
theorem sampledEdges_eq_iff {calls : List ControlCall} (settled : sampled calls = (of calls).firing) :
    sampledEdges calls = edges calls ↔ EachRead calls := by
  have nothing : ahead calls = 0 := if_pos settled.symm
  rw [← (shown calls).whole, nothing, Nat.add_zero]
  exact eq_comm

end ControlCall

end WebControl.Dll
