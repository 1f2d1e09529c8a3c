import WkWebControl.Backend.HeldSet

open Effects WebControl

namespace WebControl.Backend

def lastPress (a : ControlAction) : History Answer → Option CommandMessage
  | [] => none
  | s :: h =>
    match accepted s with
    | some cmd => if cmd.action = a ∧ cmd.phase = .press then some cmd else lastPress a h
    | none => lastPress a h

/-- The command `s` sends on is for the team of everything else that is held then. -/
def KeepsTeam (s : Step Answer) (h : History Answer) : Prop :=
  ∀ cmd ∈ accepted s, (localsOf h).releasing = [] → cmd.action.oneShot = false →
    ∀ b ∈ (localsOf h).held.actions, b ≠ cmd.action → (localsOf h).held.team = (localsOf h).turnTeam

instance (s : Step Answer) (h : History Answer) : Decidable (KeepsTeam s h) :=
  inferInstanceAs (Decidable (∀ cmd ∈ accepted s, _))

def OneTeam : History Answer → Prop := Program.Along KeepsTeam

instance (h : History Answer) : Decidable (OneTeam h) :=
  inferInstanceAs (Decidable (Program.Along _ h))

structure TeamFits (h : History Answer) : Prop where
  pressed : ∀ a ∈ (localsOf h).held.actions, ∃ press team, lastPress a h = some press ∧
    (localsOf h).held.team = some team ∧ press.team = toString team
  visited : ∀ a ∈ (localsOf h).releasing, a ∈ (localsOf h).held.actions

theorem lastPress_accepted {s : Step Answer} {cmd : CommandMessage} (sent : accepted s = some cmd)
    (a : ControlAction) (h : History Answer) :
    lastPress a (s :: h) =
      if cmd.action = a ∧ cmd.phase = .press then some cmd else lastPress a h := by
  simp only [lastPress, sent]

theorem lastPress_release {cmd : CommandMessage} (release : cmd.phase = .release)
    (a : ControlAction) (written : Bool) (h : History Answer) :
    lastPress a (⟨.sendCommand cmd, written⟩ :: h) = lastPress a h := by
  cases written with
  | false => rfl
  | true =>
    rw [lastPress_accepted rfl]
    exact if_neg fun both => (by rw [release] at both; cases both.2)

theorem Held.track_team {l : Held} {team : Option Int} {cmd : CommandMessage}
    (held : cmd.action.oneShot = false) : (l.track team cmd).team = team := by
  simp only [Held.track, held]
  cases cmd.phase <;> rfl

theorem Held.track_oneShot {l : Held} {team : Option Int} {cmd : CommandMessage}
    (oneShot : cmd.action.oneShot = true) : l.track team cmd = l := by
  simp only [Held.track, oneShot, if_true]

theorem TeamFits.visit {h : History Answer} {s : Step Answer} {order : List ControlAction}
    (fits : TeamFits h) (visits : localsOf (s :: h) = (localsOf h).visit order)
    (members : ∀ a ∈ order, a ∈ (localsOf h).held.actions)
    (same : ∀ a, lastPress a (s :: h) = lastPress a h) : TeamFits (s :: h) := by
  constructor
  · intro a member
    rw [visits] at member ⊢
    obtain ⟨press, team, last, onTeam, eq⟩ := fits.pressed a (Locals.mem_of_visit member)
    refine ⟨press, team, (same a).trans last, ?_, eq⟩
    unfold Locals.visit
    split <;> exact onTeam
  · intro a member
    rw [visits] at member ⊢
    have coming : a ∈ order := member
    simp only [Locals.visit, List.ne_nil_of_mem coming, if_false]
    exact members a coming

theorem TeamFits.forward {h : History Answer} {cmd : CommandMessage} (fits : TeamFits h)
    (idle : (localsOf h).releasing = []) (gated : Gated h cmd)
    (noOneShot : ∀ a ∈ (localsOf h).held.actions, a.oneShot = false)
    (keeps : KeepsTeam ⟨.sendCommand cmd, true⟩ h) : TeamFits (⟨.sendCommand cmd, true⟩ :: h) := by
  obtain ⟨team, onTurn, onTeam⟩ := gated.turnTeam
  constructor
  · intro a member
    rw [locals_forward idle] at member ⊢
    dsimp only at member ⊢
    rw [lastPress_accepted rfl]
    by_cases oneShot : cmd.action.oneShot
    · rw [Held.track_oneShot oneShot] at member ⊢
      have other : cmd.action ≠ a := by
        rintro rfl
        rw [noOneShot _ member] at oneShot
        cases oneShot
      rw [if_neg fun both => other both.1]
      exact fits.pressed a member
    · rw [Bool.not_eq_true] at oneShot
      rw [Held.track_team oneShot, onTurn]
      by_cases pressed : cmd.action = a ∧ cmd.phase = .press
      · exact ⟨cmd, team, if_pos pressed, rfl, onTeam⟩
      · rw [if_neg pressed]
        have other : a ≠ cmd.action ∧ a ∈ (localsOf h).held.actions := by
          rcases Held.mem_of_track member with ⟨old, same⟩ | ⟨press, rfl, -⟩
          · refine ⟨fun eq => ?_, old⟩
            rw [same eq] at oneShot
            cases oneShot
          · exact absurd ⟨rfl, press⟩ pressed
        obtain ⟨press, old, last, was, eq⟩ := fits.pressed a other.2
        have kept := keeps cmd rfl idle oneShot a other.2 other.1
        rw [was, onTurn] at kept
        cases kept
        exact ⟨press, team, last, rfl, eq⟩
  · intro a member
    rw [locals_forward idle] at member
    rw [show (localsOf h).releasing = [] from idle] at member
    exact absurd member List.not_mem_nil

theorem TeamFits.step {s : Step Answer} {h : History Answer} (fits : TeamFits h)
    (noOneShot : ∀ a ∈ (localsOf h).held.actions, a.oneShot = false)
    (permitted : heldPermits h s.1) (keeps : KeepsTeam s h) : TeamFits (s :: h) := by
  cases locals_step permitted with
  | forwards idle gated => exact fits.forward idle gated noOneShot keeps
  | @visits team b rest written looping onTeam =>
    refine fits.visit (locals_visit looping _ written) ?_ fun a => lastPress_release rfl a written h
    intro a member
    exact fits.visited a (looping ▸ List.mem_cons_of_mem b member)
  | begins order same =>
    refine fits.visit rfl ?_ fun a => rfl
    intro a member
    rw [← same]
    exact order.property.mem_iff.mp member
  | keeps quiet held releasing =>
    constructor
    · rw [held]
      intro a member
      rw [show lastPress a (s :: h) = lastPress a h by simp only [lastPress, quiet]]
      exact fits.pressed a member
    · rw [held, releasing]
      exact fits.visited

theorem teamFits {h : History Answer} (permitted : Program.Permitted heldPermits h)
    (oneTeam : OneTeam h) : TeamFits h := by
  induction permitted with
  | nil =>
    constructor
    · exact fun a member => absurd member List.not_mem_nil
    · exact fun a member => absurd member List.not_mem_nil
  | cons newest older ih =>
    exact (ih oneTeam.tail).step (held_noOneShot older) newest oneTeam.head

def tried : Step Answer → Option CommandMessage
  | ⟨.sendCommand cmd, _⟩ => some cmd
  | _ => none

def ReleaseOnTeam (s : Step Answer) (h : History Answer) : Prop :=
  ∀ cmd ∈ tried s, (localsOf h).releasing ≠ [] →
    (lastPress cmd.action h).map CommandMessage.team = some cmd.team

instance (s : Step Answer) (h : History Answer) : Decidable (ReleaseOnTeam s h) :=
  inferInstanceAs (Decidable (∀ cmd ∈ tried s, _))

theorem TeamFits.releases {s : Step Answer} {h : History Answer} (fits : TeamFits h)
    (permitted : heldPermits h s.1) : ReleaseOnTeam s h := by
  intro cmd try_cmd looping
  rcases s with ⟨e, r⟩
  cases e with
  | sendCommand sent =>
    cases try_cmd
    obtain ⟨b, rest, visits⟩ := List.exists_cons_of_ne_nil looping
    obtain ⟨team, onTeam, rfl⟩ := (heldPermits_visit visits).mp permitted
    have member := fits.visited b (visits ▸ List.mem_cons_self)
    obtain ⟨press, old, last, was, eq⟩ := fits.pressed b member
    rw [onTeam] at was
    cases was
    rw [show lastPress (releaseMessage team b).action h = some press from last, Option.map_some, eq]
    rfl
  | _ => cases try_cmd

/-- As long as what is sent on is for the team of everything else that is held, `_release_held`
    releases each action for the team it was last pressed for. -/
theorem releases_onTeam (s : Shared) (events : List (Task × Choice)) (n : Nat)
    (oneTeam : OneTeam (historyOf (.session n) (run s events).log)) :
    Program.Along ReleaseOnTeam (historyOf (.session n) (run s events).log) := by
  have permitted := session_permitted s events n
  generalize historyOf (.session n) (run s events).log = h at permitted oneTeam
  induction permitted with
  | nil => exact .nil
  | cons newest older ih =>
    have fits := teamFits older oneTeam.tail
    exact .cons (fits.releases newest) (ih oneTeam.tail)

def walkAway : List (Task × Choice) :=
  opening ++ pressing .moveLeft ++
    [(.session 0, .go), (.session 0, .incoming (buttonFrame .aimUp .press)), (.session 0, .go),
     (.session 0, .go), (.session 0, .go), (.session 0, .go), (.session 0, .incoming .disconnect),
     (.session 0, .order [.aimUp, .moveLeft]), (.session 0, .go), (.session 0, .go)]

theorem releases_onTeam_walkAway :
    Program.Along ReleaseOnTeam (historyOf (.session 0) (run {} walkAway).log) ∧
      ((run {} walkAway).log.filterMap fun x => (tried x.step).map (·.action)).take 2 = [.moveLeft, .aimUp] :=
  ⟨releases_onTeam {} walkAway 0 (by decide +kernel), by decide +kernel⟩

/-- alice walks with team 0; an administrator frees it, the turn passes to team 1, which alice
    claims; she presses another button and leaves. -/
def claimMoved : List (Task × Choice) :=
  opening ++ pressing .moveLeft ++
    [(.session 0, .go), (.administrator 0, .admin (.deleteMapping 0)), (.administrator 0, .go)] ++
    arrives 0 (gameOn 1 (some 1)) ++ requests 1 alice ++
    [(.session 0, .incoming (buttonFrame .fire .press)), (.session 0, .go), (.session 0, .go),
     (.session 0, .go), (.session 0, .go), (.session 0, .incoming .disconnect),
     (.session 0, .order [.moveLeft, .fire]), (.session 0, .go), (.session 0, .go)]

theorem not_onTeam_claimMoved :
    ¬ ∀ (s : Shared) (events : List (Task × Choice)) (n : Nat),
      Program.Along ReleaseOnTeam (historyOf (.session n) (run s events).log) := by
  intro always
  have onTeam := always {} claimMoved 0
  revert onTeam
  decide +kernel

end WebControl.Backend
