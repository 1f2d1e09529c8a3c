import WkWebControl.Dll.ControlCalls
import WkWebControl.Link.System

open Effects WebControl

namespace WebControl.Link

def Shared.Replies (s : Shared) : (e : Effect) → Answer e → Shared → Prop
  | .nextCall, _, after => ∃ memory, after = { s with memory }
  | .readMemory, memory, after => memory = s.memory ∧ after = s
  | .loadTurn, team, after => team = s.currentTurnTeam ∧ after = s
  | .storeTurn team, _, after => after = { s with currentTurnTeam := team }
  | .publish snap, _, after => after = { s with published := snap }
  | .lockClient, client, after =>
    s.locked = false ∧ client = s.client ∧ after = { s with locked := true }
  | .dropClient, _, after => after = { s with client := none }
  | .unlockClient, _, after => after = { s with locked := false }
  | .send client data, .sent n _ _, after => (s.net client).closed = false ∧
    after = s.update client { s.net client with sent := (s.net client).sent ++ data.take n }
  | .readControl, state, after =>
    state = s.control ∧ after = { s with control := s.control.consume }
  | .clearControl, _, after => after = { s with control := {} }
  | .writeWeapon worm index entry, _, after =>
    after = { s with memory := Shared.writeWeapon s.memory worm index entry }
  | .dispatch _ _, _, after => ∃ memory currentTurnTeam, after = { s with memory, currentTurnTeam }
  | .accept, some client, after =>
    ∃ backlog, s.backlog = client :: backlog ∧ after = { s with backlog }
  | .setClient client, _, after => s.locked = false ∧ after = { s with client }
  | .applyControl action phase value, _, after =>
    after = { s with control := s.control.apply action phase value }
  | .closesocket client, _, after => after = s.update client { s.net client with closed := true }
  | .terminate, _, after =>
    after = { s with terminated := true, net := fun c => { s.net c with closed := true } }
  | .connect, some sock, after => sock = s.connections ∧
    after = { s with connections := s.connections + 1, backlog := s.backlog ++ [s.connections] }
  | .receive sock, .data bytes, after => ∃ n,
    (s.net sock).received + n ≤ (s.net sock).sent.length ∧
    bytes = ((s.net sock).sent.drop (s.net sock).received).take n ∧
    after = s.update sock { s.net sock with received := (s.net sock).received + n }
  | .setSock sock, _, after => after = { s with sock }
  | .setLatest latest, _, after => after = { s with latest }
  | _, _, after => after = s

theorem Shared.reply_cases {s : Shared} {e : Effect} {c : Choice} {r : Answer e} {after : Shared}
    (replied : s.reply e c = some (r, after)) : s.Replies e r after := by
  cases e with
  | lockClient =>
    cases c <;> simp only [Shared.reply, reduceCtorEq] at replied
    split at replied
    · cases replied
    · rename_i free
      obtain ⟨rfl, rfl⟩ := Prod.mk.inj (Option.some.inj replied)
      exact ⟨by simpa using free, rfl, rfl⟩
  | setClient client =>
    cases c <;> simp only [Shared.reply, reduceCtorEq] at replied
    split at replied
    · cases replied
    · rename_i free
      obtain ⟨rfl, rfl⟩ := Prod.mk.inj (Option.some.inj replied)
      exact ⟨by simpa using free, rfl⟩
  | send client data =>
    cases c <;> simp only [Shared.reply, reduceCtorEq] at replied
    · obtain ⟨rfl, rfl⟩ := Prod.mk.inj (Option.some.inj replied)
      rfl
    · obtain ⟨rfl, rfl⟩ := Prod.mk.inj (Option.some.inj replied)
      rfl
    · split at replied
      · rename_i fits
        obtain ⟨rfl, rfl⟩ := Prod.mk.inj (Option.some.inj replied)
        exact ⟨fits.2, rfl⟩
      · cases replied
  | accept =>
    cases c <;> simp only [Shared.reply, reduceCtorEq] at replied
    · split at replied
      · rename_i client backlog waiting
        obtain ⟨rfl, rfl⟩ := Prod.mk.inj (Option.some.inj replied)
        exact ⟨backlog, waiting, rfl⟩
      · cases replied
    · obtain ⟨rfl, rfl⟩ := Prod.mk.inj (Option.some.inj replied)
      rfl
  | recv client =>
    cases c <;> simp only [Shared.reply, reduceCtorEq] at replied
    case data =>
      split at replied
      · obtain ⟨rfl, rfl⟩ := Prod.mk.inj (Option.some.inj replied)
        rfl
      · cases replied
    all_goals
      obtain ⟨rfl, rfl⟩ := Prod.mk.inj (Option.some.inj replied)
      rfl
  | receive sock =>
    cases c <;> simp only [Shared.reply, reduceCtorEq] at replied
    · split at replied
      · obtain ⟨rfl, rfl⟩ := Prod.mk.inj (Option.some.inj replied)
        rfl
      · cases replied
    · obtain ⟨rfl, rfl⟩ := Prod.mk.inj (Option.some.inj replied)
      rfl
    · rename_i n
      split at replied
      · rename_i fits
        obtain ⟨rfl, rfl⟩ := Prod.mk.inj (Option.some.inj replied)
        exact ⟨n, fits.2.2, rfl, rfl⟩
      · cases replied
  | nextCall =>
    cases c <;> simp only [Shared.reply, reduceCtorEq] at replied
    obtain ⟨rfl, rfl⟩ := Prod.mk.inj (Option.some.inj replied)
    exact ⟨_, rfl⟩
  | dispatch mtype payload =>
    cases c <;> simp only [Shared.reply, reduceCtorEq] at replied
    obtain ⟨rfl, rfl⟩ := Prod.mk.inj (Option.some.inj replied)
    exact ⟨_, _, rfl⟩
  | _ =>
    cases c <;> simp only [Shared.reply, reduceCtorEq] at replied <;>
      (obtain ⟨rfl, rfl⟩ := Prod.mk.inj (Option.some.inj replied); simp [Shared.Replies])

theorem answered_replies {codec : Codec} {x : Entry Task Answer Shared}
    (answered : (system codec).Answered x) {e : Effect} {r : Answer e} (step : x.step = ⟨e, r⟩) :
    x.before.Replies e r x.after := by
  obtain ⟨c, replied⟩ := answered
  rcases x with ⟨thread, effect, reply, before, after⟩
  cases step
  change (if before.terminated ∧ thread ≠ .reader then none else before.reply effect c) = _ at replied
  split at replied
  · cases replied
  · exact Shared.reply_cases replied

def controlCall? : Effect → Option Dll.ControlCall
  | .applyControl action phase value => some (.apply action phase value)
  | .readControl => some .read
  | .clearControl => some .clear
  | _ => none

theorem Shared.Replies.control {s after : Shared} {e : Effect} {r : Answer e}
    (replies : s.Replies e r after) :
    after.control = (controlCall? e).elim s.control s.control.after := by
  cases e with
  | nextCall | readMemory | loadTurn | setClient | readControl => obtain ⟨_, rfl⟩ := replies; rfl
  | dispatch | lockClient => obtain ⟨_, _, rfl⟩ := replies; rfl
  | send client data =>
    cases r with
    | sent n _ _ => obtain ⟨_, rfl⟩ := replies; rfl
    | _ => cases replies; rfl
  | accept =>
    cases r with
    | none => cases replies; rfl
    | some client => obtain ⟨_, _, rfl⟩ := replies; rfl
  | connect =>
    cases r with
    | none => cases replies; rfl
    | some sock => obtain ⟨_, rfl⟩ := replies; rfl
  | receive sock =>
    cases r with
    | data bytes => obtain ⟨_, _, _, rfl⟩ := replies; rfl
    | _ => cases replies; rfl
  | _ => cases replies; rfl

theorem Shared.Replies.asks {s after : Shared} {e : Effect} {r : Answer e} {a : Dll.ControlAction}
    (replies : s.Replies e r after) (off : ¬ s.control.asks a = true)
    (on : after.control.asks a = true) : ∃ value, e = .applyControl a .press value := by
  have control := replies.control
  cases e with
  | readControl =>
    rw [control] at on
    exact absurd (Dll.ControlState.asks_consume on) off
  | clearControl =>
    rw [control] at on
    exact absurd on (by simp [controlCall?, Dll.ControlState.after])
  | applyControl action phase value =>
    rw [control] at on
    rcases Dll.ControlState.asks_apply on with old | ⟨rfl, rfl⟩
    · exact absurd old off
    · exact ⟨value, rfl⟩
  | _ =>
    rw [control] at on
    exact absurd on off

@[simp] theorem Shared.update_self (s : Shared) (socket : Socket) (c : Connection) :
    (s.update socket c).net socket = c := by
  simp [Shared.update]

theorem Shared.update_other (s : Shared) {socket other : Socket} (c : Connection)
    (differs : other ≠ socket) : (s.update socket c).net other = s.net other := by
  simp [Shared.update, differs]

def wrote (c : Socket) : Step Answer → List UInt8
  | ⟨.send client data, .sent n _ _⟩ => if client = c then data.take n else []
  | _ => []

theorem Shared.Replies.net {s after : Shared} {e : Effect} {r : Answer e}
    (replies : s.Replies e r after) (c : Socket) :
    (after.net c).sent = (s.net c).sent ++ wrote c ⟨e, r⟩ ∧
      ((s.net c).closed = true → (after.net c).closed = true) := by
  cases e with
  | send client data =>
    cases r with
    | sent n some_ within =>
      obtain ⟨_, rfl⟩ := replies
      by_cases same : c = client
      · subst same
        simp [wrote]
      · rw [Shared.update_other _ _ same]
        simp [wrote, Ne.symm same]
    | _ => cases replies; simp [wrote]
  | closesocket client =>
    cases replies
    by_cases same : c = client
    · subst same
      simp [wrote]
    · rw [Shared.update_other _ _ same]
      simp [wrote]
  | receive sock =>
    cases r with
    | data bytes =>
      obtain ⟨n, _, _, rfl⟩ := replies
      by_cases same : c = sock
      · subst same
        simp [wrote]
      · rw [Shared.update_other _ _ same]
        simp [wrote]
    | _ => cases replies; simp [wrote]
  | accept =>
    cases r with
    | none => cases replies; simp [wrote]
    | some client => obtain ⟨_, _, rfl⟩ := replies; simp [wrote]
  | connect =>
    cases r with
    | none => cases replies; simp [wrote]
    | some sock => obtain ⟨_, rfl⟩ := replies; simp [wrote]
  | nextCall => obtain ⟨_, rfl⟩ := replies; simp [wrote]
  | dispatch => obtain ⟨_, _, rfl⟩ := replies; simp [wrote]
  | readMemory | loadTurn | readControl | setClient => obtain ⟨_, rfl⟩ := replies; simp [wrote]
  | lockClient => obtain ⟨_, _, rfl⟩ := replies; simp [wrote]
  | _ => cases replies; simp [wrote]

def takes : Effect → Bool
  | .connect | .receive _ | .setSock _ | .setLatest _ => true
  | _ => false

theorem Shared.Replies.receiving {s after : Shared} {e : Effect} {r : Answer e}
    (replies : s.Replies e r after) (other : takes e = false) :
    (∀ c, (after.net c).received = (s.net c).received) ∧ after.connections = s.connections ∧
      after.latest = s.latest := by
  cases e with
  | send client data =>
    cases r with
    | sent n some_ within =>
      obtain ⟨_, rfl⟩ := replies
      refine ⟨fun c => ?_, rfl, rfl⟩
      by_cases same : c = client
      · subst same
        simp
      · rw [Shared.update_other _ _ same]
    | _ => cases replies; exact ⟨fun _ => rfl, rfl, rfl⟩
  | closesocket client =>
    cases replies
    refine ⟨fun c => ?_, rfl, rfl⟩
    by_cases same : c = client
    · subst same
      simp
    · rw [Shared.update_other _ _ same]
  | accept =>
    cases r with
    | none => cases replies; exact ⟨fun _ => rfl, rfl, rfl⟩
    | some client => obtain ⟨_, _, rfl⟩ := replies; exact ⟨fun _ => rfl, rfl, rfl⟩
  | connect | receive | setSock | setLatest => cases other
  | nextCall => obtain ⟨_, rfl⟩ := replies; exact ⟨fun _ => rfl, rfl, rfl⟩
  | dispatch => obtain ⟨_, _, rfl⟩ := replies; exact ⟨fun _ => rfl, rfl, rfl⟩
  | readMemory | loadTurn | readControl | setClient =>
    obtain ⟨_, rfl⟩ := replies
    exact ⟨fun _ => rfl, rfl, rfl⟩
  | lockClient => obtain ⟨_, _, rfl⟩ := replies; exact ⟨fun _ => rfl, rfl, rfl⟩
  | _ => cases replies; exact ⟨fun _ => rfl, rfl, rfl⟩

end WebControl.Link
