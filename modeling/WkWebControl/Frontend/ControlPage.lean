import Mathlib.Data.List.Chain
import WkWebControl.Backend.Protocol

open WebControl.Backend

namespace WebControl.Frontend

/-- What the page sends: `JSON.stringify({ action, phase, value })`. -/
structure ControlMessage where
  action : ControlAction
  phase : ControlPhase
  value : Int
  deriving DecidableEq

def holdButtons : List ControlAction := [.moveLeft, .moveRight, .aimDown, .aimUp, .fire]

abbrev HoldButton : Type := { action : ControlAction // action ∈ holdButtons }

/-- `ControlPage` from the moment on that its socket is open. -/
structure Page where
  heldRef : List ControlAction := []
  /-- `ws.readyState === WebSocket.OPEN` -/
  ready : Bool := true
  sent : List ControlMessage := []

inductive PageEvent where
  | pointerDown (button : HoldButton)
  | pointerUp (button : HoldButton)
  | pointerCancel (button : HoldButton)
  | lostPointerCapture (button : HoldButton)
  | jumpClick
  | weaponClick (weaponId : Int)
  /-- The effect on `isMyTurn`, run when it is not my turn. -/
  | turnLost
  | unmount

namespace Page

def send (p : Page) (action : ControlAction) (phase : ControlPhase := .press) (value : Int := 0) :
    Page :=
  if p.ready then { p with sent := p.sent ++ [⟨action, phase, value⟩] } else p

def press (p : Page) (action : ControlAction) : Page :=
  if action ∈ p.heldRef then p
  else ({ p with heldRef := p.heldRef ++ [action] } : Page).send action .press

def release (p : Page) (action : ControlAction) : Page :=
  if action ∈ p.heldRef then
    ({ p with heldRef := p.heldRef.filter (· ≠ action) } : Page).send action .release
  else p

def releaseAll (p : Page) : Page := p.heldRef.foldl release p

def handle (p : Page) : PageEvent → Page
  | .pointerDown button => p.press button.val
  | .pointerUp button | .pointerCancel button | .lostPointerCapture button => p.release button.val
  | .jumpClick => p.send .jump
  | .weaponClick weaponId => p.send .selectWeapon .press weaponId
  | .turnLost => p.releaseAll
  -- the cleanup of the socket's effect
  | .unmount => { p.releaseAll with ready := false }

def run (events : List PageEvent) : Page := events.foldl handle {}

def phases (p : Page) (a : ControlAction) : List ControlPhase :=
  (p.sent.filter fun message => message.action = a).map ControlMessage.phase

end Page

structure Alternates (phases : List ControlPhase) : Prop where
  turns : phases.IsChain (· ≠ ·)
  first : ∀ phase ∈ phases.head?, phase = .press

theorem Alternates.concat {phases : List ControlPhase} (alternates : Alternates phases)
    {phase : ControlPhase} (turn : ∀ last ∈ phases.getLast?, last ≠ phase)
    (first : phases = [] → phase = .press) : Alternates (phases ++ [phase]) where
  turns := by
    apply alternates.turns.append (List.isChain_singleton phase)
    intro last newest next eq
    cases eq
    exact turn last newest
  first := by
    cases phases with
    | nil =>
      intro p head
      cases head
      exact first rfl
    | cons p ps => exact alternates.first

theorem mem_holdButtons (a : ControlAction) : a ∈ holdButtons ↔ a.oneShot = false := by
  cases a <;> decide

namespace Page

/-- What the page holds is what it has pressed last, as long as its socket is open; after that
    nothing is pressed. -/
structure Fits (p : Page) (a : ControlAction) : Prop where
  alternates : Alternates (p.phases a)
  pressed : (p.phases a).getLast? = some .press ↔ p.ready = true ∧ a ∈ p.heldRef

theorem send_heldRef (p : Page) (a : ControlAction) (phase : ControlPhase) (value : Int) :
    (p.send a phase value).heldRef = p.heldRef := by
  unfold send
  split <;> rfl

theorem send_ready (p : Page) (a : ControlAction) (phase : ControlPhase) (value : Int) :
    (p.send a phase value).ready = p.ready := by
  unfold send
  split <;> rfl

theorem phases_send_self {p : Page} (ready : p.ready = true) (a : ControlAction)
    (phase : ControlPhase) (value : Int) :
    (p.send a phase value).phases a = p.phases a ++ [phase] := by
  simp [send, phases, ready]

theorem phases_send_closed {p : Page} (closed : p.ready = false) (a b : ControlAction)
    (phase : ControlPhase) (value : Int) : (p.send a phase value).phases b = p.phases b := by
  simp [send, closed]

theorem phases_send_other {a b : ControlAction} (other : a ≠ b) (p : Page) (phase : ControlPhase)
    (value : Int) : (p.send a phase value).phases b = p.phases b := by
  unfold send
  split
  · simp [phases, other]
  · rfl

theorem Fits.other {p : Page} {a b : ControlAction} (fits : p.Fits b) (other : a ≠ b)
    {held : List ControlAction} (same : b ∈ held ↔ b ∈ p.heldRef) (phase : ControlPhase)
    (value : Int) : (({ p with heldRef := held } : Page).send a phase value).Fits b where
  alternates := by
    rw [phases_send_other other]
    exact fits.alternates
  pressed := by
    rw [phases_send_other other, send_ready, send_heldRef, same]
    exact fits.pressed

theorem Fits.closed {p : Page} {b : ControlAction} (fits : p.Fits b) (closed : p.ready = false)
    (held : List ControlAction) (a : ControlAction) (phase : ControlPhase) (value : Int) :
    (({ p with heldRef := held } : Page).send a phase value).Fits b := by
  have quiet : (p.phases b).getLast? ≠ some .press := by
    intro last
    have ready := (fits.pressed.mp last).1
    rw [closed] at ready
    cases ready
  have same : (({ p with heldRef := held } : Page).send a phase value).phases b = p.phases b :=
    phases_send_closed (show ({ p with heldRef := held } : Page).ready = false from closed) a b
      phase value
  constructor
  · rw [same]
    exact fits.alternates
  · rw [same, send_ready]
    apply iff_of_false quiet
    intro both
    cases closed.symm.trans both.1

theorem Fits.press {p : Page} {b : ControlAction} (fits : p.Fits b) (a : ControlAction) :
    (p.press a).Fits b := by
  unfold Page.press
  split
  · exact fits
  rename_i fresh
  by_cases own : a = b
  · subst own
    by_cases ready : p.ready = true
    · have released : (p.phases a).getLast? ≠ some .press :=
        fun last => fresh (fits.pressed.mp last).2
      have sent := phases_send_self (show ({ p with heldRef := p.heldRef ++ [a] } : Page).ready = true
        from ready) a .press 0
      constructor
      · rw [sent]
        refine fits.alternates.concat ?_ fun _ => rfl
        rintro last newest rfl
        exact released newest
      · rw [sent, send_ready, send_heldRef]
        simp [ready]
    · exact fits.closed (Bool.eq_false_iff.mpr ready) _ a .press 0
  · refine fits.other own ?_ .press 0
    rw [List.mem_append, List.mem_singleton]
    exact or_iff_left (Ne.symm own)

theorem Fits.release {p : Page} {b : ControlAction} (fits : p.Fits b) (a : ControlAction) :
    (p.release a).Fits b := by
  unfold Page.release
  split
  swap
  · exact fits
  rename_i held
  by_cases own : a = b
  · subst own
    by_cases ready : p.ready = true
    · have pressed := fits.pressed.mpr ⟨ready, held⟩
      have sent := phases_send_self (show ({ p with heldRef := p.heldRef.filter (· ≠ a) } : Page).ready =
        true from ready) a .release 0
      constructor
      · rw [sent]
        refine fits.alternates.concat ?_ ?_
        · intro last newest
          rw [pressed] at newest
          cases newest
          exact ControlPhase.noConfusion
        · intro nothing
          change p.phases a = [] at nothing
          rw [nothing] at pressed
          cases pressed
      · rw [sent, send_heldRef]
        simp
    · exact fits.closed (Bool.eq_false_iff.mpr ready) _ a .release 0
  · refine fits.other own ?_ .release 0
    simp [Ne.symm own]

theorem Fits.releaseAll {p : Page} {b : ControlAction} (fits : p.Fits b) : p.releaseAll.Fits b := by
  unfold Page.releaseAll
  generalize p.heldRef = actions
  induction actions generalizing p with
  | nil => exact fits
  | cons a actions ih => exact ih (fits.release a)

theorem release_heldRef (p : Page) (a : ControlAction) :
    (p.release a).heldRef = p.heldRef.filter (· ≠ a) := by
  unfold Page.release
  split
  · rw [send_heldRef]
  · rename_i absent
    refine (List.filter_eq_self.mpr ?_).symm
    intro b member
    simpa using fun same : b = a => absent (same ▸ member)

theorem releaseAll_heldRef (p : Page) : p.releaseAll.heldRef = [] := by
  have left : ∀ (actions : List ControlAction) (p : Page),
      (actions.foldl Page.release p).heldRef = p.heldRef.filter (· ∉ actions) := by
    intro actions
    induction actions with
    | nil => simp
    | cons a actions ih =>
      intro p
      rw [List.foldl_cons, ih, release_heldRef, List.filter_filter]
      apply List.filter_congr
      intro b _
      simp [Bool.and_comm]
  rw [releaseAll, left]
  simp

theorem Fits.handle {p : Page} {b : ControlAction} (fits : p.Fits b) (held : b.oneShot = false)
    (event : PageEvent) : (p.handle event).Fits b := by
  cases event with
  | pointerDown button => exact fits.press button.val
  | pointerUp button => exact fits.release button.val
  | pointerCancel button => exact fits.release button.val
  | lostPointerCapture button => exact fits.release button.val
  | jumpClick => exact fits.other (by rintro rfl; cases held) Iff.rfl .press 0
  | weaponClick weaponId => exact fits.other (by rintro rfl; cases held) Iff.rfl .press weaponId
  | turnLost => exact fits.releaseAll
  | unmount =>
    have released := fits.releaseAll
    refine ⟨released.alternates, ?_⟩
    have nothing := released.pressed
    rw [releaseAll_heldRef] at nothing
    refine iff_of_false (fun last => ?_) fun both => ?_
    · exact absurd (nothing.mp last).2 List.not_mem_nil
    · cases both.1

theorem fits_run {b : ControlAction} (held : b.oneShot = false) (events : List PageEvent) :
    (run events).Fits b := by
  have fits : ∀ p : Page, p.Fits b → (events.foldl Page.handle p).Fits b := by
    induction events with
    | nil => exact fun p fits => fits
    | cons event events ih => exact fun p fits => ih _ (fits.handle held event)
  refine fits {} ⟨⟨List.isChain_nil, fun _ head => nomatch head⟩, ?_⟩
  exact iff_of_false (fun last => nomatch last) fun both => absurd both.2 List.not_mem_nil

end Page

end WebControl.Frontend
