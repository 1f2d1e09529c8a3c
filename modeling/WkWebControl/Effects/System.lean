import Mathlib.Data.List.Induction
import Mathlib.Logic.Function.Basic
import WkWebControl.Effects.Program

namespace Effects

/-- Threads that run programs against one shared state. An event `(i, c)` lets thread `i`
    perform its next effect; `c` is what the environment decides about it. -/
structure System (ι E : Type) (R : E → Type) (σ χ α : Type) where
  /-- The reply to an effect and the new shared state; `none` when the effect has to wait. -/
  reply : σ → ι → (e : E) → χ → Option (R e × σ)
  /-- What a thread does first. -/
  start : ι → Program E R α
  /-- What a thread goes on with when a program of its has come to its result. -/
  again : ι → α → Program E R α

/-- One performed effect, with the shared state right before and right after it. -/
structure Entry (ι : Type) {E : Type} (R : E → Type) (σ : Type) where
  thread : ι
  effect : E
  reply : R effect
  before : σ
  after : σ

structure State (ι E : Type) (R : E → Type) (σ α : Type) where
  shared : σ
  residual : ι → Program E R α
  log : List (Entry ι R σ)

variable {ι E : Type} {R : E → Type} {σ χ α : Type}

def Entry.step (x : Entry ι R σ) : Step R := ⟨x.effect, x.reply⟩

def historyOf [DecidableEq ι] (i : ι) : List (Entry ι R σ) → History R
  | [] => []
  | x :: log => if x.thread = i then x.step :: historyOf i log else historyOf i log

section History

variable [DecidableEq ι]

@[simp] theorem historyOf_nil (i : ι) : historyOf i ([] : List (Entry ι R σ)) = [] := rfl

theorem historyOf_cons (i : ι) (x : Entry ι R σ) (log : List (Entry ι R σ)) :
    historyOf i (x :: log) =
      if x.thread = i then x.step :: historyOf i log else historyOf i log := rfl

theorem historyOf_cons_self (x : Entry ι R σ) (log : List (Entry ι R σ)) :
    historyOf x.thread (x :: log) = x.step :: historyOf x.thread log := by
  rw [historyOf_cons, if_pos rfl]

theorem historyOf_cons_other {i : ι} {x : Entry ι R σ} (other : x.thread ≠ i)
    (log : List (Entry ι R σ)) : historyOf i (x :: log) = historyOf i log := by
  rw [historyOf_cons, if_neg other]

theorem historyOf_append (i : ι) (newer older : List (Entry ι R σ)) :
    historyOf i (newer ++ older) = historyOf i newer ++ historyOf i older := by
  induction newer with
  | nil => rfl
  | cons x newer ih =>
    rw [List.cons_append, historyOf_cons, historyOf_cons, ih]
    split <;> rfl

theorem mem_historyOf {i : ι} {x : Entry ι R σ} {log : List (Entry ι R σ)} (member : x ∈ log)
    (own : x.thread = i) : x.step ∈ historyOf i log := by
  obtain ⟨newer, older, rfl⟩ := List.append_of_mem member
  subst own
  rw [historyOf_append, historyOf_cons_self]
  exact List.mem_append_right _ List.mem_cons_self

theorem split_of_historyOf {i : ι} {log : List (Entry ι R σ)} {s : Step R} {h₁ h₂ : History R}
    (eq : historyOf i log = h₁ ++ s :: h₂) :
    ∃ newer x older, log = newer ++ x :: older ∧ x.thread = i ∧ x.step = s ∧
      historyOf i newer = h₁ ∧ historyOf i older = h₂ := by
  induction log generalizing h₁ with
  | nil => simp at eq
  | cons x log ih =>
    by_cases own : x.thread = i
    · subst own
      rw [historyOf_cons_self] at eq
      cases h₁ with
      | nil =>
        obtain ⟨same, rest⟩ := List.cons.inj eq
        exact ⟨[], x, log, rfl, rfl, same, rfl, rest⟩
      | cons t h₁ =>
        obtain ⟨same, rest⟩ := List.cons.inj eq
        obtain ⟨newer, y, older, rfl, owner, step, before, after⟩ := ih rest
        exact ⟨x :: newer, y, older, rfl, owner, step, by rw [historyOf_cons_self, same, before], after⟩
    · rw [historyOf_cons_other own] at eq
      obtain ⟨newer, y, older, rfl, owner, step, before, after⟩ := ih eq
      exact ⟨x :: newer, y, older, rfl, owner, step, by rw [historyOf_cons_other own, before], after⟩

theorem mem_of_historyOf {i : ι} {s : Step R} {log : List (Entry ι R σ)}
    (member : s ∈ historyOf i log) : ∃ x ∈ log, x.thread = i ∧ x.step = s := by
  obtain ⟨h₁, h₂, eq⟩ := List.append_of_mem member
  obtain ⟨newer, x, older, rfl, own, step, _⟩ := split_of_historyOf eq
  exact ⟨x, by simp, own, step⟩

/-- `x` is the newest entry of thread `i` in `log`, and `older` is what came before it. -/
def Newest (i : ι) (log : List (Entry ι R σ)) (x : Entry ι R σ) (older : List (Entry ι R σ)) :
    Prop :=
  x.thread = i ∧ ∃ newer, log = newer ++ x :: older ∧ historyOf i newer = []

theorem newest_of_historyOf {i : ι} {log : List (Entry ι R σ)} {s : Step R} {h : History R}
    (eq : historyOf i log = s :: h) :
    ∃ x older, Newest i log x older ∧ x.step = s ∧ historyOf i older = h := by
  obtain ⟨newer, x, older, split, own, step, quiet, rest⟩ := split_of_historyOf (show _ = [] ++ s :: h from eq)
  exact ⟨x, older, ⟨own, newer, split, quiet⟩, step, rest⟩

theorem Newest.historyOf {i : ι} {log older : List (Entry ι R σ)} {x : Entry ι R σ}
    (newest : Newest i log x older) : historyOf i log = x.step :: historyOf i older := by
  obtain ⟨rfl, newer, rfl, quiet⟩ := newest
  rw [historyOf_append, quiet, historyOf_cons_self, List.nil_append]

end History

def Leads (first : σ) : List (Entry ι R σ) → σ → Prop
  | [], last => last = first
  | x :: log, last => x.after = last ∧ Leads first log x.before

theorem Leads.split {first last : σ} {newer older : List (Entry ι R σ)}
    (leads : Leads first (newer ++ older) last) :
    ∃ middle, Leads first older middle ∧ Leads middle newer last := by
  induction newer generalizing last with
  | nil => exact ⟨last, leads, rfl⟩
  | cons x newer ih =>
    obtain ⟨middle, before, after⟩ := ih leads.2
    exact ⟨middle, before, leads.1, after⟩

theorem Leads.unique {first a b : σ} {log : List (Entry ι R σ)} (left : Leads first log a)
    (right : Leads first log b) : a = b := by
  cases log with
  | nil => exact (show a = first from left).trans (show b = first from right).symm
  | cons x log => exact left.1.symm.trans right.1

theorem Leads.onset {Q : σ → Prop} {first last : σ} {log : List (Entry ι R σ)}
    (leads : Leads first log last) (off : ¬ Q first) (on : Q last) :
    ∃ newer x older, log = newer ++ x :: older ∧ ¬ Q x.before ∧ Q x.after ∧
      ∀ y ∈ newer, Q y.before ∧ Q y.after := by
  induction log generalizing last with
  | nil =>
    rw [show last = first from leads] at on
    exact absurd on off
  | cons x log ih =>
    have after : Q x.after := leads.1.symm ▸ on
    by_cases before : Q x.before
    · obtain ⟨newer, y, older, rfl, was, is, since⟩ := ih leads.2 before
      refine ⟨x :: newer, y, older, rfl, was, is, fun z member => ?_⟩
      rcases List.mem_cons.mp member with rfl | member
      · exact ⟨before, after⟩
      · exact since z member
    · exact ⟨[], x, log, rfl, before, after, fun _ member => absurd member List.not_mem_nil⟩

namespace System

variable (S : System ι E R σ χ α)

def settle (i : ι) : Program E R α → Program E R α
  | .done a => S.again i a
  | .perform e next => .perform e next

def initial (shared : σ) : State ι E R σ α :=
  ⟨shared, fun i => S.settle i (S.start i), []⟩

def Rests (i : ι) (a : α) : Prop := ∃ b, S.again i b = .done a

theorem settle_rests {i : ι} {p : Program E R α} {a : α}
    (done : (S.settle i p).result? = some a) : S.Rests i a := by
  cases p with
  | perform e next => cases done
  | done b =>
    refine ⟨b, ?_⟩
    change (S.again i b).result? = some a at done
    cases next : S.again i b with
    | done c => rw [next] at done; cases done; rfl
    | perform e p => rw [next] at done; cases done

/-- What an entry says of the environment: it gave this reply in this shared state. -/
def Answered (x : Entry ι R σ) : Prop :=
  ∃ c, S.reply x.before x.thread x.effect c = some (x.reply, x.after)

/-- What the programs of the threads promise to each other and to their own later programs. -/
structure Contract where
  permits : ι → History R → E → Prop
  post : ι → α → History R → Prop
  start : ∀ i, (S.start i).Meets (permits i) (post i) []
  again : ∀ i a h, post i a h → (S.again i a).Meets (permits i) (post i) h

theorem Contract.settle {S : System ι E R σ χ α} (C : S.Contract) (i : ι) (p : Program E R α) (h : History R)
    (meets : p.Meets (C.permits i) (C.post i) h) :
    (S.settle i p).Meets (C.permits i) (C.post i) h := by
  cases p with
  | done a => exact C.again i a h meets
  | perform e next => exact meets

def Contract.and {S : System ι E R σ χ α} (C D : S.Contract) : S.Contract where
  permits i h e := C.permits i h e ∧ D.permits i h e
  post i a h := C.post i a h ∧ D.post i a h
  start i := (C.start i).and (D.start i)
  again i a h done := (C.again i a h done.1).and (D.again i a h done.2)

variable [DecidableEq ι]

def step (s : State ι E R σ α) (event : ι × χ) : State ι E R σ α :=
  match s.residual event.1 with
  | .done _ => s
  | .perform e next =>
    match S.reply s.shared event.1 e event.2 with
    | none => s
    | some (r, shared) =>
      { shared,
        residual := Function.update s.residual event.1 (S.settle event.1 (next r)),
        log := ⟨event.1, e, r, s.shared, shared⟩ :: s.log }

def run (s : State ι E R σ α) (events : List (ι × χ)) : State ι E R σ α :=
  events.foldl S.step s

theorem step_cases (s : State ι E R σ α) (event : ι × χ) :
    S.step s event = s ∨
      ∃ e next r shared, s.residual event.1 = .perform e next ∧
        S.reply s.shared event.1 e event.2 = some (r, shared) ∧
        S.step s event =
          { shared,
            residual := Function.update s.residual event.1 (S.settle event.1 (next r)),
            log := ⟨event.1, e, r, s.shared, shared⟩ :: s.log } := by
  unfold step
  split
  · exact .inl rfl
  · rename_i e next pending
    split
    · exact .inl rfl
    · rename_i r shared replied
      exact .inr ⟨e, next, r, shared, pending, replied, rfl⟩

theorem run_induction {P : State ι E R σ α → Prop} {s : State ι E R σ α} (init : P s)
    (keeps : ∀ s event, P s → P (S.step s event)) (events : List (ι × χ)) :
    P (S.run s events) := by
  unfold run
  induction events generalizing s with
  | nil => exact init
  | cons event events ih => exact ih (keeps s event init)

theorem run_leads (shared : σ) (events : List (ι × χ)) :
    Leads shared (S.run (S.initial shared) events).log (S.run (S.initial shared) events).shared := by
  refine S.run_induction (P := fun s => Leads shared s.log s.shared) ?_ ?_ events
  · rfl
  intro s event leads
  rcases S.step_cases s event with same | ⟨e, next, r, after, _, _, stepped⟩
  · rw [same]
    exact leads
  · rw [stepped]
    exact ⟨rfl, leads⟩

variable {S}

/-- In every state of a run, what a thread has left to do meets its contract
    from the thread's own history on. -/
theorem Contract.run_meets (C : S.Contract) (shared : σ) (events : List (ι × χ)) (i : ι) :
    ((S.run (S.initial shared) events).residual i).Meets (C.permits i) (C.post i)
      (historyOf i (S.run (S.initial shared) events).log) := by
  revert i
  refine S.run_induction (P := fun s => ∀ i, (s.residual i).Meets (C.permits i) (C.post i)
    (historyOf i s.log)) (fun i => C.settle i _ _ (C.start i)) ?_ events
  intro s event meets i
  rcases S.step_cases s event with same | ⟨e, next, r, after, pending, replied, stepped⟩
  · rw [same]
    exact meets i
  · rw [stepped]
    by_cases own : event.1 = i
    · subst own
      have held := meets event.1
      rw [pending] at held
      simp only [Function.update_self, historyOf_cons, if_pos]
      exact C.settle event.1 _ _ (held.2 r)
    · simp only [Function.update_of_ne (Ne.symm own), historyOf_cons, if_neg own]
      exact meets i

/-- Where only the heads of its programs perform what is not in `Q`, a thread about to perform such
    an effect is at a head, and what led there has come to the result its contract speaks of. -/
theorem Contract.run_head (C : S.Contract) {i : ι} {Q : E → Prop}
    (start : (S.start i).Performs Q ∨ ∃ a, S.start i = S.again i a ∧ C.post i a [])
    (again : ∀ a h, C.post i a h → (S.again i a).PerformsLater Q) (shared : σ) (events : List (ι × χ)) :
    ((S.run (S.initial shared) events).residual i).Performs Q ∨
      ∃ a, (S.run (S.initial shared) events).residual i = S.again i a ∧
        C.post i a (historyOf i (S.run (S.initial shared) events).log) := by
  let AtHead (p : Program E R α) (h : History R) : Prop :=
    p.Meets (C.permits i) (C.post i) h ∧ (p.Performs Q ∨ ∃ a, p = S.again i a ∧ C.post i a h)
  have settled : ∀ p h, AtHead p h → AtHead (S.settle i p) h := by
    rintro p h ⟨meets, before⟩
    refine ⟨C.settle i p h meets, ?_⟩
    cases p with
    | done a => exact .inr ⟨a, rfl, meets⟩
    | perform e next => exact before
  suffices AtHead ((S.run (S.initial shared) events).residual i)
      (historyOf i (S.run (S.initial shared) events).log) from this.2
  refine S.run_induction (P := fun s => AtHead (s.residual i) (historyOf i s.log))
    (settled _ [] ⟨C.start i, start⟩) ?_ events
  intro s event before
  rcases S.step_cases s event with same | ⟨e, next, r, after, pending, replied, stepped⟩
  · rw [same]
    exact before
  · rw [stepped]
    by_cases own : event.1 = i
    · subst own
      simp only [Function.update_self, historyOf_cons, if_pos]
      apply settled
      -- after the effect nothing left is at a head, until the program has come to its result
      obtain ⟨meets, head⟩ := before
      rw [pending] at meets head
      refine ⟨meets.2 r, .inl ?_⟩
      rcases head with performs | ⟨a, head, post⟩
      · exact performs.2 r
      · have later := again a _ post
        rw [← head] at later
        exact later r
    · simp only [Function.update_of_ne (Ne.symm own), historyOf_cons, if_neg own]
      exact before

theorem run_head {i : ι} {Q : E → Prop} (start : (S.start i).Performs Q)
    (again : ∀ a, (S.again i a).PerformsLater Q) (shared : σ) (events : List (ι × χ)) :
    ((S.run (S.initial shared) events).residual i).Performs Q ∨
      ∃ a, (S.run (S.initial shared) events).residual i = S.again i a := by
  let C : S.Contract :=
    { permits := fun _ _ _ => True
      post := fun _ _ _ => True
      start := fun i => Program.meets_trivial (S.start i) []
      again := fun i a h _ => Program.meets_trivial (S.again i a) h }
  apply (C.run_head (.inl start) (fun a _ _ => again a) shared events).imp_right
  rintro ⟨a, head, _⟩
  exact ⟨a, head⟩

theorem run_rests (shared : σ) (events : List (ι × χ)) (i : ι) (a : α)
    (done : ((S.run (S.initial shared) events).residual i).result? = some a) : S.Rests i a := by
  revert i a
  refine S.run_induction (P := fun s => ∀ i a, (s.residual i).result? = some a → S.Rests i a)
    (fun i a => settle_rests S) ?_ events
  intro s event rests i a done
  rcases S.step_cases s event with same | ⟨e, next, r, after, _, _, stepped⟩
  · rw [same] at done
    exact rests i a done
  · rw [stepped] at done
    by_cases own : i = event.1
    · subst own
      simp only [Function.update_self] at done
      exact settle_rests S done
    · simp only [Function.update_of_ne own] at done
      exact rests i a done

/-- Reasoning about runs by their logs, with all that is known of a run at hand: it is enough that each
    answered and permitted entry that a run comes to keeps `P`. -/
theorem Contract.run_reached (C : S.Contract) (shared : σ) {P : σ → List (Entry ι R σ) → Prop}
    (init : P shared [])
    (keeps : ∀ events x, x.before = (S.run (S.initial shared) events).shared →
      P x.before (S.run (S.initial shared) events).log → S.Answered x →
      C.permits x.thread (historyOf x.thread (S.run (S.initial shared) events).log) x.effect →
      P x.after (x :: (S.run (S.initial shared) events).log))
    (events : List (ι × χ)) :
    P (S.run (S.initial shared) events).shared (S.run (S.initial shared) events).log := by
  induction events using List.reverseRecOn with
  | nil => exact init
  | append_singleton events event ih =>
    have meets := C.run_meets shared events event.1
    rw [run, List.foldl_append, List.foldl_cons, List.foldl_nil]
    change P (S.step (S.run (S.initial shared) events) event).shared
      (S.step (S.run (S.initial shared) events) event).log
    obtain same | ⟨e, next, r, after, pending, replied, stepped⟩ :=
      S.step_cases (S.run (S.initial shared) events) event
    · rw [same]
      exact ih
    · rw [stepped]
      rw [pending] at meets
      exact keeps events ⟨event.1, e, r, _, after⟩ rfl ih ⟨event.2, replied⟩ meets.1

/-- Reasoning about runs by their logs: it is enough that each answered and permitted entry
    keeps `P`. -/
theorem Contract.run_log (C : S.Contract) (shared : σ) {P : σ → List (Entry ι R σ) → Prop}
    (init : P shared [])
    (keeps : ∀ x log, P x.before log → S.Answered x →
      C.permits x.thread (historyOf x.thread log) x.effect → P x.after (x :: log))
    (events : List (ι × χ)) :
    P (S.run (S.initial shared) events).shared (S.run (S.initial shared) events).log :=
  C.run_reached shared init (fun _ x _ => keeps x _) events

theorem Contract.run_before (C : S.Contract) (shared : σ) {P : σ → List (Entry ι R σ) → Prop}
    (init : P shared [])
    (keeps : ∀ x log, P x.before log → S.Answered x →
      C.permits x.thread (historyOf x.thread log) x.effect → P x.after (x :: log))
    (events : List (ι × χ)) {newer older : List (Entry ι R σ)} {x : Entry ι R σ}
    (split : (S.run (S.initial shared) events).log = newer ++ x :: older) :
    P x.before older ∧ S.Answered x ∧ C.permits x.thread (historyOf x.thread older) x.effect := by
  have all := C.run_log shared
    (P := fun s log => P s log ∧ ∀ newer x older, log = newer ++ x :: older →
      P x.before older ∧ S.Answered x ∧ C.permits x.thread (historyOf x.thread older) x.effect)
    ⟨init, by simp⟩ ?_ events
  · exact all.2 newer x older split
  · rintro y log ⟨kept, before⟩ answered permitted
    refine ⟨keeps y log kept answered permitted, fun newer x older eq => ?_⟩
    cases newer with
    | nil =>
      obtain ⟨rfl, rfl⟩ := List.cons.inj eq
      exact ⟨kept, answered, permitted⟩
    | cons z newer => exact before newer x older (List.cons.inj eq).2

theorem Contract.run_entry (C : S.Contract) (shared : σ) (events : List (ι × χ))
    {newer older : List (Entry ι R σ)} {x : Entry ι R σ}
    (split : (S.run (S.initial shared) events).log = newer ++ x :: older) :
    S.Answered x ∧ C.permits x.thread (historyOf x.thread older) x.effect :=
  (C.run_before shared (P := fun _ _ => True) trivial (fun _ _ _ _ _ => trivial) events split).2

def Contract.ofThread {i : ι} {permits : History R → E → Prop} {post : α → History R → Prop}
    (start : (S.start i).Meets permits post [])
    (again : ∀ a h, post a h → (S.again i a).Meets permits post h) : S.Contract where
  permits j h e := j = i → permits h e
  post j a h := j = i → post a h
  start j := by
    by_cases own : j = i
    · subst own
      simpa using start
    · simpa [own] using Program.meets_trivial (S.start j) []
  again j a h done := by
    by_cases own : j = i
    · subst own
      simpa using again a h (done rfl)
    · simpa [own] using Program.meets_trivial (S.again j a) h

theorem run_thread {i : ι} {permits : History R → E → Prop} {post : α → History R → Prop}
    (start : (S.start i).Meets permits post [])
    (again : ∀ a h, post a h → (S.again i a).Meets permits post h) (shared : σ)
    (events : List (ι × χ)) :
    ((S.run (S.initial shared) events).residual i).Meets permits post
      (historyOf i (S.run (S.initial shared) events).log) := by
  simpa [Contract.ofThread] using (Contract.ofThread start again).run_meets shared events i

theorem run_ended {i : ι} {permits : History R → E → Prop} {post : α → History R → Prop}
    (start : (S.start i).Meets permits post [])
    (again : ∀ a h, post a h → (S.again i a).Meets permits post h) (shared : σ)
    (events : List (ι × χ)) {a : α}
    (ended : ((S.run (S.initial shared) events).residual i).result? = some a) :
    post a (historyOf i (S.run (S.initial shared) events).log) := by
  have meets := run_thread start again shared events
  cases residual : (S.run (S.initial shared) events).residual i with
  | done b =>
    rw [residual] at meets ended
    cases ended
    exact meets
  | perform e next =>
    rw [residual] at ended
    cases ended

theorem run_permitted {i : ι} {permits : History R → E → Prop} {post : α → History R → Prop}
    (start : (S.start i).Meets permits post [])
    (again : ∀ a h, post a h → (S.again i a).Meets permits post h) (shared : σ)
    (events : List (ι × χ)) :
    Program.Permitted permits (historyOf i (S.run (S.initial shared) events).log) := by
  refine (Contract.ofThread start again).run_log shared
    (P := fun _ log => Program.Permitted permits (historyOf i log)) .nil ?_ events
  intro x log before _ permitted
  rw [historyOf_cons]
  split
  · rename_i own
    subst own
    exact .cons (permitted rfl) before
  · exact before

theorem Contract.run_mem (C : S.Contract) (shared : σ) (events : List (ι × χ)) {x : Entry ι R σ}
    (member : x ∈ (S.run (S.initial shared) events).log) : S.Answered x := by
  obtain ⟨newer, older, split⟩ := List.append_of_mem member
  exact (C.run_entry shared events split).1

end System

end Effects
