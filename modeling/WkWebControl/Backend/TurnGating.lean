import WkWebControl.Backend.Contract

open Effects WebControl

namespace WebControl.Backend

/-- `cmd` is built from the newest message of session `n`: the last things the session did were to
    receive it, to read the latest snapshot, and to find its own user to be the owner of the team
    on turn there. The states given are those in which the reads were made. -/
def GatedAt (n : Nat) (log : Log) (cmd : CommandMessage) : Prop :=
  ∃ (u : User) (team : Int) (seen : Received) (fields : List (String × Json))
    (owner look got : Entry Task Answer Shared) (log₁ log₂ log₃ : Log),
    (Newest (.session n) log owner log₁ ∧
      owner.step = ⟨.emailForTeam team seen, some u.email⟩ ∧
      owner.before.store.emailForTeam team = some u.email) ∧
    (Newest (.session n) log₁ look log₂ ∧ look.step = ⟨.latestState, some seen⟩ ∧
      look.before.latest = some seen ∧ seen.snapshot.turnTeam = some team) ∧
    (Newest (.session n) log₂ got log₃ ∧ got.step = ⟨.receiveJson, .json (.obj fields)⟩) ∧
    sessionUser (historyOf (.session n) log₃) = some u ∧
    cmd.team = toString team ∧
    ControlAction.ofValue? (actionRaw fields) = some cmd.action ∧
    ControlPhase.ofValue? (phaseRaw fields) = some cmd.phase ∧
    Python.int? (valueRaw fields) = some cmd.value

theorem gatedAt_of_gated {s : Shared} {events : List (Task × Choice)} {newer log : Log} {n : Nat}
    {cmd : CommandMessage} (split : (run s events).log = newer ++ log)
    (gated : Gated (historyOf (.session n) log) cmd) : GatedAt n log cmd := by
  obtain ⟨u, team, seen, fields, rest, eq, user, turn, onTeam, action, phase, value⟩ := gated
  obtain ⟨owner, log₁, newest₁, step₁, eq₁⟩ := newest_of_historyOf eq
  obtain ⟨look, log₂, newest₂, step₂, eq₂⟩ := newest_of_historyOf eq₁
  obtain ⟨got, log₃, newest₃, step₃, eq₃⟩ := newest_of_historyOf eq₂
  obtain ⟨owned, _, split₁⟩ := newest_answered split newest₁
  obtain ⟨looked, _⟩ := newest_answered split₁ newest₂
  exact ⟨u, team, seen, fields, owner, look, got, log₁, log₂, log₃,
    ⟨newest₁, step₁, (answered_replies owned step₁).1.symm⟩,
    ⟨newest₂, step₂, (answered_replies looked step₂).1.symm, turn⟩, ⟨newest₃, step₃⟩,
    by rw [eq₃]; exact user, onTeam, action, phase, value⟩

theorem gated_of_gatedAt {n : Nat} {log : Log} {cmd : CommandMessage} (gated : GatedAt n log cmd) :
    Gated (historyOf (.session n) log) cmd := by
  obtain ⟨u, team, seen, fields, owner, look, got, log₁, log₂, log₃, ⟨newest₁, step₁, _⟩,
    ⟨newest₂, step₂, _, turn⟩, ⟨newest₃, step₃⟩, user, rest⟩ := gated
  refine ⟨u, team, seen, fields, _, ?_, user, turn, rest⟩
  rw [newest₁.historyOf, newest₂.historyOf, newest₃.historyOf, step₁, step₂, step₃]

theorem Ungated.split {newer older : History Answer} {s : Step Answer} {cmd : CommandMessage}
    (ungated : Ungated (newer ++ s :: older)) (same : newestFrame newer = none)
    (sent : accepted s = some cmd) : ¬ Gated older cmd := by
  induction newer with
  | nil =>
    rcases s with ⟨e, r⟩
    cases e with
    | sendCommand c => exact ungated.1 cmd sent
    | _ => cases sent
  | cons t newer ih =>
    rcases t with ⟨e, r⟩
    cases e with
    | receiveJson => cases same
    | _ => exact ih ungated.2 same

theorem command_gated_or_released (s : Shared) (events : List (Task × Choice)) {newer older : Log}
    {x : Entry Task Answer Shared} {cmd : CommandMessage}
    (split : (run s events).log = newer ++ x :: older) (sent : x.step = ⟨.sendCommand cmd, true⟩) :
    ∃ n, x.thread = .session n ∧
      (GatedAt n older cmd ∨ AutoRelease (historyOf (.session n) older) cmd) := by
  have permitted := (contract.run_entry s events split).2
  rcases x with ⟨thread, effect, reply, before, after⟩
  cases sent
  cases thread with
  | session n =>
    refine ⟨n, rfl, ?_⟩
    rcases permitted with gated | released
    · rw [List.append_cons] at split
      exact .inl (gatedAt_of_gated split gated)
    · exact .inr released
  | _ => exact permitted.elim

theorem reply_reported (s : Shared) (events : List (Task × Choice)) {newer older : Log}
    {x : Entry Task Answer Shared} {reply : Reply} {there : Bool}
    (split : (run s events).log = newer ++ x :: older)
    (replied : x.step = ⟨.sendJson reply, there⟩) :
    ∃ n, x.thread = .session n ∧ Reported (historyOf (.session n) older) reply := by
  have permitted := (contract.run_entry s events split).2
  rcases x with ⟨thread, effect, r, before, after⟩
  cases replied
  cases thread with
  | session n => exact ⟨n, rfl, permitted⟩
  | _ => exact permitted.elim

/-- Turn gating: where every accepted command comes from, and what a reply says about the commands
    accepted since the message it answers. -/
theorem turn_gating (s : Shared) (events : List (Task × Choice)) :
    (∀ newer x older cmd, (run s events).log = newer ++ x :: older →
      x.step = ⟨.sendCommand cmd, true⟩ →
      ∃ n, x.thread = .session n ∧
        (GatedAt n older cmd ∨ AutoRelease (historyOf (.session n) older) cmd)) ∧
    (∀ newer x older reply there, (run s events).log = newer ++ x :: older →
      x.step = ⟨.sendJson reply, there⟩ → reply.isOk = true →
      ∃ n y before cmd, x.thread = .session n ∧ Newest (.session n) older y before ∧
        y.step = ⟨.sendCommand cmd, true⟩ ∧ GatedAt n before cmd ∧
        acceptedSince (historyOf (.session n) older) = [cmd]) ∧
    (∀ newer x older reply there, (run s events).log = newer ++ x :: older →
      x.step = ⟨.sendJson reply, there⟩ → reply.isOk = false →
      ∃ n, x.thread = .session n ∧ ∀ since y before cmd, older = since ++ y :: before →
        y.thread = .session n → newestFrame (historyOf (.session n) since) = none →
        y.step = ⟨.sendCommand cmd, true⟩ → ¬ GatedAt n before cmd) := by
  refine ⟨?_, ?_, ?_⟩
  · intro newer x older cmd split sent
    exact command_gated_or_released s events split sent
  · intro newer x older reply there split replied ok
    obtain ⟨n, owner, reported⟩ := reply_reported s events split replied
    rw [Reported, if_pos ok] at reported
    obtain ⟨cmd, rest, eq, gated, quiet⟩ := reported
    obtain ⟨y, before, newest, step, eq'⟩ := newest_of_historyOf eq
    rw [List.append_cons] at split
    obtain ⟨_, _, split'⟩ := newest_answered split newest
    have at_before : GatedAt n before cmd := gatedAt_of_gated split' (by rw [eq']; exact gated)
    refine ⟨n, y, before, cmd, owner, newest, step, at_before, ?_⟩
    rw [eq]
    simp only [acceptedSince, accepted, quiet]
    rfl
  · intro newer x older reply there split replied refused
    obtain ⟨n, owner, reported⟩ := reply_reported s events split replied
    rw [Reported, if_neg (by simp [refused])] at reported
    refine ⟨n, owner, ?_⟩
    intro since y before cmd eq own quiet sent gated
    rw [eq, historyOf_append, historyOf_cons, if_pos own] at reported
    refine reported.split quiet ?_ (gated_of_gatedAt gated)
    rw [sent]
    rfl

end WebControl.Backend
