import WkWebControl.Backend.Session

open Effects WebControl

namespace WebControl.Backend

def Shared.Replies (s : Shared) : (e : Effect) → Answer e → Shared → Prop
  | .latestState, seen, after => seen = s.latest ∧ after = s
  | .emailForTeam team _, owner, after => owner = s.store.emailForTeam team ∧ after = s
  | .teamForEmail email _, team, after => team = s.store.teamForEmail email ∧ after = s
  | .sendCommand _, written, after => (written = true → s.connected = true) ∧ after = s
  | .claim team email seen, granted, after =>
    granted = (s.store.claim team email).1 ∧
    after = if granted then
      { s with
        store := (s.store.claim team email).2
        ghost := { s.ghost with
          granted := Function.update s.ghost.granted team (some seen.game) } }
    else s
  | .deleteMapping team, _, after => after = { s with store := s.store.deleteMapping team }
  | .clearAll, _, after => after = { s with store := s.store.clearAll }
  | .lastGameId seen, last, after =>
    last = s.lastGameId ∧
    after = if seen.snapshot.gameId = last then
      { s with ghost := { s.ghost with processed := some seen.game } } else s
  | .setLastGameId seen, _, after =>
    after = { s with
      lastGameId := seen.snapshot.gameId
      ghost := { s.ghost with processed := some seen.game } }
  | .setSock connected, _, after => after = { s with connected }
  | .setLatest none, _, after => after = { s with latest := none }
  | .setLatest (some received), _, after =>
    after = { s with
      latest := some received, ghost := { s.ghost with arrived := some received.game } }
  | _, _, after => after = s

theorem Shared.reply_cases {s : Shared} {e : Effect} {c : Choice} {r : Answer e} {after : Shared}
    (replied : s.reply e c = some (r, after)) : s.Replies e r after := by
  cases e with
  | claim team email seen =>
    cases c <;> simp only [Shared.reply, reduceCtorEq] at replied
    by_cases free : s.store.Free team (Python.lower email)
    · simp only [MappingStore.claim_of_free free, if_true, Option.some.injEq,
        Prod.mk.injEq] at replied
      obtain ⟨rfl, rfl⟩ := replied
      exact ⟨by rw [MappingStore.claim_of_free free], by
        rw [MappingStore.claim_of_free free]; rfl⟩
    · simp only [MappingStore.claim_of_taken free, Bool.false_eq_true, if_false,
        Option.some.injEq, Prod.mk.injEq] at replied
      obtain ⟨rfl, rfl⟩ := replied
      exact ⟨by rw [MappingStore.claim_of_taken free], rfl⟩
  | iterate held =>
    cases c <;> simp only [Shared.reply, reduceCtorEq] at replied
    split at replied
    · obtain ⟨rfl, rfl⟩ := Prod.mk.inj (Option.some.inj replied)
      rfl
    · cases replied
  | setLatest latest =>
    cases latest <;> cases c <;> simp only [Shared.reply, reduceCtorEq] at replied <;>
      (obtain ⟨rfl, rfl⟩ := Prod.mk.inj (Option.some.inj replied); rfl)
  | sendCommand cmd =>
    cases c <;> simp only [Shared.reply, reduceCtorEq] at replied <;>
      obtain ⟨rfl, rfl⟩ := Prod.mk.inj (Option.some.inj replied)
    · exact ⟨id, rfl⟩
    · exact ⟨fun written => (by cases written), rfl⟩
  | _ =>
    cases c <;> simp only [Shared.reply, reduceCtorEq] at replied <;>
      (obtain ⟨rfl, rfl⟩ := Prod.mk.inj (Option.some.inj replied); simp [Shared.Replies])

theorem answered_replies {x : Entry Task Answer Shared} (answered : system.Answered x) {e : Effect}
    {r : Answer e} (step : x.step = ⟨e, r⟩) : x.before.Replies e r x.after := by
  obtain ⟨c, replied⟩ := answered
  cases x
  cases step
  exact Shared.reply_cases replied

section Requests

open Program

/-- An answer of `/api/claim`: 200 right after the one insertion of the request, every other
    answer without any. -/
def Responds (h : History Answer) : ClaimResponse → Prop
  | .claimed team email =>
    ∃ (u : User) (seen : Received),
      h = [⟨.claim team u.email seen, true⟩, ⟨.teamForEmail u.email seen, none⟩,
        ⟨.latestState, some seen⟩, ⟨.authenticate, u⟩] ∧
      seen.snapshot.turnTeam = some team ∧ email = u.email
  | _ => ∀ team email seen, (⟨.claim team email seen, true⟩ : Step Answer) ∉ h

def requestPermits (h : History Answer) : Effect → Prop
  | .authenticate => h = []
  | .latestState => ∃ u : User, h = [⟨.authenticate, u⟩]
  | .teamForEmail email seen => ∃ u : User, h = [⟨.latestState, some seen⟩, ⟨.authenticate, u⟩] ∧
      email = u.email
  | .claim team email seen => ∃ u : User,
      h = [⟨.teamForEmail u.email seen, none⟩, ⟨.latestState, some seen⟩, ⟨.authenticate, u⟩] ∧
      seen.snapshot.turnTeam = some team ∧ email = u.email
  | .respond response => Responds h response ∧ ∀ r, (⟨.respond r, ()⟩ : Step Answer) ∉ h
  | _ => False

def requestPost : Flow → History Answer → Prop
  | .returned, h => ∃ response, (⟨.respond response, ()⟩ : Step Answer) ∈ h
  | _, _ => False

theorem claimRequest_meets : Meets requestPermits requestPost claimRequest [] := by
  simp only [claimRequest, claim, meets_bind, call, meets_call]
  refine ⟨rfl, fun u => ⟨⟨u, rfl⟩, fun state => ?_⟩⟩
  cases state with
  | none => exact ⟨by simp [requestPermits, Responds], fun _ => ⟨_, List.mem_cons_self⟩⟩
  | some seen =>
    simp only [meets_bind, meets_call]
    refine ⟨⟨u, rfl, rfl⟩, fun existing => ?_⟩
    cases existing with
    | some team => exact ⟨by simp [requestPermits, Responds], fun _ => ⟨_, List.mem_cons_self⟩⟩
    | none =>
      dsimp only
      split
      · exact ⟨by simp [requestPermits, Responds], fun _ => ⟨_, List.mem_cons_self⟩⟩
      · rename_i team turn
        simp only [meets_bind, meets_call]
        refine ⟨⟨u, rfl, turn, rfl⟩, fun granted => ?_⟩
        cases granted with
        | true => exact ⟨⟨⟨u, seen, rfl, turn, rfl⟩, by simp⟩, fun _ => ⟨_, List.mem_cons_self⟩⟩
        | false => exact ⟨by simp [requestPermits, Responds], fun _ => ⟨_, List.mem_cons_self⟩⟩

end Requests

section Loops

open Program

def Fresh (seen : Received) (last : Int) : Prop :=
  seen.snapshot.gameId ≠ 0 ∧ seen.snapshot.gameId ≠ last ∧ last ≠ 0

def broadcasterPermits (h : History Answer) : Effect → Prop
  | .latestState | .sleep => True
  | .lastGameId seen => ∃ rest, h = ⟨.latestState, some seen⟩ :: rest ∧ seen.snapshot.gameId ≠ 0
  | .clearAll => ∃ seen last rest,
      h = ⟨.lastGameId seen, last⟩ :: ⟨.latestState, some seen⟩ :: rest ∧ Fresh seen last
  | .setLastGameId seen => ∃ rest,
      (∃ last : Int, h = ⟨.clearAll, ()⟩ :: ⟨.lastGameId seen, last⟩ ::
        ⟨.latestState, some seen⟩ :: rest ∧ Fresh seen last) ∨
      (h = ⟨.lastGameId seen, (0 : Int)⟩ :: ⟨.latestState, some seen⟩ :: rest ∧
        seen.snapshot.gameId ≠ 0)
  | _ => False

def broadcasterPost : Flow → History Answer → Prop
  | .broadcast, _ => True
  | _, _ => False

theorem broadcastLoop_meets (h : History Answer) :
    Meets broadcasterPermits broadcasterPost broadcastLoop h := by
  simp only [broadcastLoop, meets_bind, call, meets_call]
  refine ⟨trivial, fun snap => ?_⟩
  have rested : ∀ after : History Answer, broadcasterPermits after .sleep ∧
      ∀ _ : Unit, Meets broadcasterPermits broadcasterPost (pure .broadcast : Prog Flow)
        (⟨.sleep, ()⟩ :: after) := fun _ => ⟨trivial, fun _ => trivial⟩
  cases snap with
  | none => exact rested _
  | some seen =>
    unfold detectNewGame
    dsimp only
    split
    · exact rested _
    · rename_i real
      simp only [meets_bind, meets_call]
      refine ⟨⟨h, rfl, real⟩, fun last => ?_⟩
      split
      · exact rested _
      · rename_i unknown
        by_cases first : last = 0
        · subst first
          simp only [ne_eq, not_true_eq_false, if_false, meets_pure]
          exact ⟨⟨h, .inr ⟨rfl, real⟩⟩, fun _ => rested _⟩
        · simp only [ne_eq, first, not_false_eq_true, if_true, meets_bind]
          exact ⟨⟨seen, last, h, rfl, real, unknown, first⟩, fun _ =>
            ⟨⟨h, .inl ⟨last, rfl, real, unknown, first⟩⟩, fun _ => rested _⟩⟩

def administratorPermits (_ : History Answer) : Effect → Prop
  | .nextRequest | .deleteMapping _ | .clearAll => True
  | _ => False

def administratorPost : Flow → History Answer → Prop
  | .admin, _ => True
  | _, _ => False

theorem adminRequest_meets (h : History Answer) :
    Meets administratorPermits administratorPost adminRequest h := by
  simp only [adminRequest, meets_bind, call, meets_call]
  refine ⟨trivial, fun request => ?_⟩
  cases request <;> exact ⟨trivial, fun _ => trivial⟩

def readerPermits (_ : History Answer) : Effect → Prop
  | .nextUpdate | .setSock _ | .setLatest _ => True
  | _ => False

def readerPost : Flow → History Answer → Prop
  | .read, _ => True
  | _, _ => False

theorem readerLoop_meets (h : History Answer) : Meets readerPermits readerPost readerLoop h := by
  simp only [readerLoop, meets_bind, call, meets_call]
  refine ⟨trivial, fun update => ?_⟩
  cases update with
  | connected => exact ⟨trivial, fun _ => trivial⟩
  | snapshot received => exact ⟨trivial, fun _ => trivial⟩
  | dropped => exact ⟨trivial, fun _ => ⟨trivial, fun _ => trivial⟩⟩

end Loops

def permits : Task → History Answer → Effect → Prop
  | .reader => readerPermits
  | .broadcaster => broadcasterPermits
  | .session _ => sessionPermits
  | .request _ => requestPermits
  | .administrator _ => administratorPermits

def post : Task → Flow → History Answer → Prop
  | .reader => readerPost
  | .broadcaster => broadcasterPost
  | .session _ => sessionPost
  | .request _ => requestPost
  | .administrator _ => administratorPost

theorem again_meets (i : Task) (flow : Flow) (h : History Answer) (done : post i flow h) :
    (again flow).Meets (permits i) (post i) h := by
  cases i with
  | session n => exact session_again_meets flow h done
  | reader =>
    cases flow with
    | read => exact readerLoop_meets h
    | _ => exact done.elim
  | broadcaster =>
    cases flow with
    | broadcast => exact broadcastLoop_meets h
    | _ => exact done.elim
  | request n =>
    cases flow with
    | returned => exact done
    | _ => exact done.elim
  | administrator n =>
    cases flow with
    | admin => exact adminRequest_meets h
    | _ => exact done.elim

theorem start_meets (i : Task) : (start i).Meets (permits i) (post i) [] := by
  cases i with
  | reader => exact readerLoop_meets []
  | broadcaster => exact broadcastLoop_meets []
  | session n => exact openControl_meets
  | request n => exact claimRequest_meets
  | administrator n => exact adminRequest_meets []

def contract : system.Contract where
  permits := permits
  post := post
  start := start_meets
  again := again_meets

theorem newest_answered {s : Shared} {events : List (Task × Choice)} {newer log older : Log}
    {i : Task} {x : Entry Task Answer Shared} (split : (run s events).log = newer ++ log)
    (newest : Newest i log x older) :
    system.Answered x ∧ ∃ newer', (run s events).log = newer' ++ older := by
  obtain ⟨_, between, eq, _⟩ := newest
  rw [eq] at split
  have at_x : (run s events).log = (newer ++ between) ++ x :: older :=
    split.trans (List.append_assoc _ _ _).symm
  refine ⟨(contract.run_entry s events at_x).1, newer ++ between ++ [x], ?_⟩
  rw [split]
  simp only [List.append_assoc, List.cons_append, List.nil_append]

end WebControl.Backend
