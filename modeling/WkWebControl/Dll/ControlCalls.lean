import WkWebControl.Dll.ControlState

namespace WebControl.Dll

inductive ControlCall where
  | apply (action : ControlAction) (phase : ControlPhase) (value : Int)
  | read
  | clear
  deriving DecidableEq

namespace ControlCall

def isClear : ControlCall → Bool
  | clear => true
  | _ => false

def isApply : ControlCall → Bool
  | apply _ _ _ => true
  | _ => false

def phaseOf (a : ControlAction) : ControlCall → Option ControlPhase
  | apply b phase _ => if b = a then some phase else none
  | _ => none

def selected : ControlCall → Option Int
  | apply .selectWeapon .press value => some value
  | _ => none

def jumps : ControlCall → Bool
  | apply .jump .press _ => true
  | _ => false

/-- The calls since the last `clear`. Calls stand in the order of the mutex, the newest first. -/
def sinceClear (calls : List ControlCall) : List ControlCall := calls.takeWhile (!·.isClear)

/-- The calls since the later of the last `read` and the last `clear`. -/
def sinceRead (calls : List ControlCall) : List ControlCall := calls.takeWhile (·.isApply)

def lastPhase (a : ControlAction) (calls : List ControlCall) : Option ControlPhase :=
  (sinceClear calls).findSome? (phaseOf a)

def lastSelected (calls : List ControlCall) : Option Int := (sinceRead calls).findSome? selected

end ControlCall

namespace ControlState

def after (state : ControlState) : ControlCall → ControlState
  | .apply action phase value => state.apply action phase value
  | .read => state.consume
  | .clear => {}

def of (calls : List ControlCall) : ControlState := calls.foldr (fun c state => state.after c) {}

@[simp] theorem of_nil : of [] = {} := rfl

@[simp] theorem of_cons (c : ControlCall) (calls : List ControlCall) :
    of (c :: calls) = (of calls).after c := rfl

end ControlState

namespace ControlCall

open ControlState

theorem sinceClear_cons {c : ControlCall} (other : c.isClear = false) (calls : List ControlCall) :
    sinceClear (c :: calls) = c :: sinceClear calls := by
  rw [sinceClear, List.takeWhile_cons, other]
  rfl

theorem sinceRead_cons (a : ControlAction) (phase : ControlPhase) (value : Int)
    (calls : List ControlCall) :
    sinceRead (apply a phase value :: calls) = apply a phase value :: sinceRead calls := rfl

theorem lastPhase_cons {c : ControlCall} (other : c.isClear = false) (a : ControlAction)
    (calls : List ControlCall) :
    lastPhase a (c :: calls) = (phaseOf a c).or (lastPhase a calls) := by
  rw [lastPhase, sinceClear_cons other, List.findSome?_cons]
  cases phaseOf a c <;> rfl

theorem lastSelected_apply (a : ControlAction) (phase : ControlPhase) (value : Int)
    (calls : List ControlCall) :
    lastSelected (apply a phase value :: calls) =
      (selected (apply a phase value)).or (lastSelected calls) := by
  rw [lastSelected, sinceRead_cons, List.findSome?_cons]
  cases selected (apply a phase value) <;> rfl

theorem asks_of {a : ControlAction} (weapon : a ≠ .selectWeapon) (jump : a ≠ .jump)
    (calls : List ControlCall) :
    (of calls).asks a = true ↔ lastPhase a calls = some .press := by
  induction calls with
  | nil => simp [lastPhase, sinceClear]
  | cons c calls ih =>
    cases c with
    | clear => simp [lastPhase, sinceClear, isClear, ControlState.after]
    | read =>
      rw [lastPhase_cons rfl, show phaseOf a read = none from rfl, Option.none_or, ← ih]
      cases a <;> first | rfl | exact absurd rfl weapon | exact absurd rfl jump
    | apply b phase value =>
      rw [lastPhase_cons rfl, of_cons]
      by_cases own : b = a
      · subst own
        rw [phaseOf, if_pos rfl]
        cases b <;> cases phase <;>
          first | exact absurd rfl weapon | exact absurd rfl jump | simp [ControlState.after, ControlState.apply, asks]
      · rw [phaseOf, if_neg own, Option.none_or, ← ih]
        cases a <;> cases b <;> cases phase <;>
          first | rfl | exact absurd rfl own

theorem jump_of (calls : List ControlCall) :
    (of calls).jump = (sinceRead calls).any jumps := by
  induction calls with
  | nil => rfl
  | cons c calls ih =>
    cases c with
    | clear => rfl
    | read => rfl
    | apply b phase value =>
      rw [sinceRead_cons, List.any_cons, ← ih, of_cons]
      cases b <;> cases phase <;> rfl

theorem selectWeapon_of (calls : List ControlCall) :
    (of calls).selectWeapon = (lastSelected calls).getD (-1) := by
  induction calls with
  | nil => rfl
  | cons c calls ih =>
    cases c with
    | clear => rfl
    | read => rfl
    | apply b phase value =>
      rw [lastSelected_apply, of_cons]
      cases b <;> cases phase <;> first | rfl | exact ih

/-- A one-shot that has been read once is not read again. -/
theorem sinceRead_read (newer older : List ControlCall) :
    sinceRead (newer ++ read :: older) = sinceRead newer := by
  induction newer with
  | nil => rfl
  | cons c newer ih =>
    cases c with
    | apply b phase value => rw [List.cons_append, sinceRead_cons, sinceRead_cons, ih]
    | read => rfl
    | clear => rfl

theorem sinceRead_append {newer : List ControlCall} (applied : ∀ c ∈ newer, c.isApply = true)
    (older : List ControlCall) : sinceRead (newer ++ older) = newer ++ sinceRead older :=
  List.takeWhile_append_of_pos applied

theorem jump_pending {newer : List ControlCall} (applied : ∀ c ∈ newer, c.isApply = true)
    (value : Int) (older : List ControlCall) :
    (of (newer ++ apply .jump .press value :: older)).jump = true := by
  rw [jump_of, sinceRead_append applied, List.any_append, sinceRead_cons]
  simp [jumps]

theorem selectWeapon_pending {newer : List ControlCall} (applied : ∀ c ∈ newer, c.isApply = true)
    (latest : ∀ c ∈ newer, selected c = none) (value : Int) (older : List ControlCall) :
    (of (newer ++ apply .selectWeapon .press value :: older)).selectWeapon = value := by
  have nothing : newer.findSome? selected = none := List.findSome?_eq_none_iff.mpr latest
  rw [selectWeapon_of, lastSelected, sinceRead_append applied, List.findSome?_append, nothing]
  rfl

/-- What a `read` returns after any calls: the level of every action that is held, and the
    one-shots that have come since the last `read` or `clear`. So a one-shot is read once at most,
    it gets lost only to a `clear` or a later selection, and releasing one does nothing. -/
theorem read_returns (calls : List ControlCall) :
    (∀ a, a ≠ .selectWeapon → a ≠ .jump →
      ((of calls).asks a = true ↔ lastPhase a calls = some .press)) ∧
    ((of calls).jump = true ↔ ∃ value, apply .jump .press value ∈ sinceRead calls) ∧
    (of calls).selectWeapon = (lastSelected calls).getD (-1) ∧
    (∀ newer older, calls = newer ++ read :: older →
      (of calls).jump = (of newer).jump ∧ (of calls).selectWeapon = (of newer).selectWeapon) ∧
    (∀ newer value older, calls = newer ++ apply .jump .press value :: older →
      (∀ c ∈ newer, c ≠ read ∧ c ≠ clear) → (of calls).jump = true) ∧
    (∀ newer value older, calls = newer ++ apply .selectWeapon .press value :: older →
      (∀ c ∈ newer, c ≠ read ∧ c ≠ clear ∧ ∀ other, c ≠ apply .selectWeapon .press other) →
      (of calls).selectWeapon = value) ∧
    ∀ a value, a = .selectWeapon ∨ a = .jump → of (apply a .release value :: calls) = of calls := by
  have applied : ∀ c : ControlCall, c ≠ read → c ≠ clear → c.isApply = true := by
    intro c notRead notClear
    cases c with
    | apply b phase value => rfl
    | read => exact absurd rfl notRead
    | clear => exact absurd rfl notClear
  refine ⟨fun a weapon jump => asks_of weapon jump calls, ?_, selectWeapon_of calls, ?_, ?_, ?_, ?_⟩
  · rw [jump_of, List.any_eq_true]
    constructor
    · rintro ⟨c, member, press⟩
      unfold jumps at press
      split at press
      · exact ⟨_, member⟩
      · cases press
    · rintro ⟨value, member⟩
      exact ⟨_, member, rfl⟩
  · rintro newer older rfl
    constructor
    · rw [jump_of, jump_of, sinceRead_read]
    · rw [selectWeapon_of, selectWeapon_of, lastSelected, lastSelected, sinceRead_read]
  · rintro newer value older rfl since
    exact jump_pending (fun c member => applied c (since c member).1 (since c member).2) value older
  · rintro newer value older rfl since
    apply selectWeapon_pending (fun c member => applied c (since c member).1 (since c member).2.1)
    intro c member
    unfold selected
    split
    · exact absurd rfl ((since _ member).2.2 _)
    · rfl
  · rintro a value (rfl | rfl) <;> rfl

end ControlCall

end WebControl.Dll
