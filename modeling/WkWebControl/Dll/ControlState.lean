import WkWebControl.Dll.Protocol

namespace WebControl.Dll

structure ControlState where
  moveLeft : Bool := false
  moveRight : Bool := false
  aimUp : Bool := false
  aimDown : Bool := false
  firing : Bool := false
  selectWeapon : Int := -1
  jump : Bool := false
  deriving DecidableEq, Repr

namespace ControlState

def apply (state : ControlState) (action : ControlAction) (phase : ControlPhase) (value : Int) :
    ControlState :=
  let held := phase == .press
  match action with
  | .moveLeft => { state with moveLeft := held }
  | .moveRight => { state with moveRight := held }
  | .aimUp => { state with aimUp := held }
  | .aimDown => { state with aimDown := held }
  | .fire => { state with firing := held }
  | .selectWeapon => if held then { state with selectWeapon := value } else state
  | .jump => if held then { state with jump := true } else state

def consume (state : ControlState) : ControlState := { state with selectWeapon := -1, jump := false }

def asks (state : ControlState) : ControlAction → Bool
  | .moveLeft => state.moveLeft
  | .moveRight => state.moveRight
  | .aimUp => state.aimUp
  | .aimDown => state.aimDown
  | .fire => state.firing
  | .selectWeapon => state.selectWeapon ≥ 0
  | .jump => state.jump

def flag (state : ControlState) (action : ControlAction) : Bool :=
  match action with
  | .selectWeapon | .jump => false
  | _ => state.asks action

@[simp] theorem asks_neutral (a : ControlAction) : asks {} a = false := by cases a <;> rfl

theorem asks_apply {state : ControlState} {b : ControlAction} {phase : ControlPhase} {value : Int}
    {a : ControlAction} (asked : (state.apply b phase value).asks a = true) :
    state.asks a = true ∨ (b = a ∧ phase = .press) := by
  cases phase with
  | press => cases b <;> cases a <;> simp_all [apply, asks]
  | release => cases b <;> cases a <;> simp_all [apply, asks]

theorem asks_consume {state : ControlState} {a : ControlAction}
    (asked : state.consume.asks a = true) : state.asks a = true := by
  cases a <;> simp_all [consume, asks]

structure Released (a : ControlAction) (before after : ControlState) : Prop where
  off : after.flag a = false
  others : ∀ b, b ≠ a → after.flag b = before.flag b
  pending : after.selectWeapon = before.selectWeapon ∧ after.jump = before.jump

theorem released_apply (state : ControlState) (a : ControlAction) (value : Int) :
    Released a state (state.apply a .release value) where
  off := by cases a <;> rfl
  others b other := by
    cases a <;> cases b <;> first | rfl | exact absurd rfl other
  pending := by cases a <;> exact ⟨rfl, rfl⟩

end ControlState

end WebControl.Dll
