import WkWebControl.Effects.System

namespace Effects

/-- Something beside a system that changes with its steps and by itself, and never acts back on it. -/
structure Observer (ι : Type) {E : Type} (R : E → Type) (σ ω μ : Type) where
  sees : ω → Entry ι R σ → ω
  moves : ω → μ → ω

structure Watched (ι E : Type) (R : E → Type) (σ α ω : Type) where
  state : State ι E R σ α
  seen : ω

namespace System

variable {ι E : Type} {R : E → Type} {σ χ α ω μ : Type} (S : System ι E R σ χ α)

def entry? (s : State ι E R σ α) (event : ι × χ) : Option (Entry ι R σ) :=
  match s.residual event.1 with
  | .done _ => none
  | .perform e _ => (S.reply s.shared event.1 e event.2).map fun answer =>
      ⟨event.1, e, answer.1, s.shared, answer.2⟩

theorem entry?_thread {s : State ι E R σ α} {event : ι × χ} {x : Entry ι R σ}
    (entry : S.entry? s event = some x) : x.thread = event.1 ∧ x.before = s.shared := by
  unfold entry? at entry
  split at entry
  · cases entry
  · obtain ⟨_, _, rfl⟩ := Option.map_eq_some_iff.mp entry
    exact ⟨rfl, rfl⟩

variable [DecidableEq ι]

theorem step_log (s : State ι E R σ α) (event : ι × χ) :
    (S.step s event).log = (S.entry? s event).toList ++ s.log := by
  unfold step entry?
  cases s.residual event.1 with
  | done result => rfl
  | perform e next =>
    dsimp only
    cases S.reply s.shared event.1 e event.2 with
    | none => rfl
    | some answer => rfl

theorem step_run (s : State ι E R σ α) (events : List (ι × χ)) (event : ι × χ) :
    S.step (S.run s events) event = S.run s (events ++ [event]) := by
  simp [run]

def watch (O : Observer ι R σ ω μ) (w : Watched ι E R σ α ω) : (ι × χ) ⊕ μ → Watched ι E R σ α ω
  | .inl event => ⟨S.step w.state event, ((S.entry? w.state event).map (O.sees w.seen)).getD w.seen⟩
  | .inr move => ⟨w.state, O.moves w.seen move⟩

def watchRun (O : Observer ι R σ ω μ) (w : Watched ι E R σ α ω) (events : List ((ι × χ) ⊕ μ)) :
    Watched ι E R σ α ω :=
  events.foldl (S.watch O) w

theorem watchRun_state (O : Observer ι R σ ω μ) (w : Watched ι E R σ α ω)
    (events : List ((ι × χ) ⊕ μ)) :
    (S.watchRun O w events).state = S.run w.state (events.filterMap Sum.getLeft?) := by
  unfold watchRun
  induction events generalizing w with
  | nil => rfl
  | cons event events ih =>
    rw [List.foldl_cons, ih]
    cases event <;> rfl

theorem watchRun_snoc (O : Observer ι R σ ω μ) (w : Watched ι E R σ α ω) (events : List ((ι × χ) ⊕ μ))
    (event : (ι × χ) ⊕ μ) :
    S.watchRun O w (events ++ [event]) = S.watch O (S.watchRun O w events) event := by
  simp [watchRun]

variable {S}

/-- Reasoning about what is observed: it is enough that each permitted entry keeps `P` and that the
    moves of the observer do. -/
theorem Contract.watch_log (C : S.Contract) (O : Observer ι R σ ω μ) (shared : σ) (seen : ω)
    {P : ω → List (Entry ι R σ) → Prop} (init : P seen [])
    (sees : ∀ seen x log, P seen log → C.permits x.thread (historyOf x.thread log) x.effect →
      P (O.sees seen x) (x :: log))
    (moves : ∀ seen move log, P seen log → P (O.moves seen move) log) (events : List ((ι × χ) ⊕ μ)) :
    P (S.watchRun O ⟨S.initial shared, seen⟩ events).seen
      (S.watchRun O ⟨S.initial shared, seen⟩ events).state.log := by
  induction events using List.reverseRecOn with
  | nil => exact init
  | append_singleton events event ih =>
    rw [S.watchRun_snoc]
    cases event with
    | inr move => exact moves _ move _ ih
    | inl event =>
      have log := S.step_log (S.watchRun O ⟨S.initial shared, seen⟩ events).state event
      unfold watch
      dsimp only
      cases entry : S.entry? (S.watchRun O ⟨S.initial shared, seen⟩ events).state event with
      | none =>
        rw [entry] at log
        rw [log]
        exact ih
      | some x =>
        rw [entry] at log
        rw [log]
        rw [S.watchRun_state, S.step_run] at log
        rw [← S.watchRun_state (O := O) (w := ⟨S.initial shared, seen⟩)] at log
        exact sees _ x _ ih (C.run_entry shared _ (show _ = [] ++ x :: _ from log)).2

end System

end Effects
