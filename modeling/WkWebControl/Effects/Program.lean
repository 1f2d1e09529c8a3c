import Mathlib.Logic.Basic

namespace Effects

/-- A terminating program that meets the outside world only through effects:
    effect `e` suspends it until the world replies with a value of `R e`. -/
inductive Program (E : Type) (R : E → Type) (α : Type) where
  | done (result : α)
  | perform (effect : E) (next : R effect → Program E R α)

abbrev Step {E : Type} (R : E → Type) : Type := (effect : E) × R effect

abbrev History {E : Type} (R : E → Type) : Type := List (Step R)

variable {E : Type} {R : E → Type} {α β γ : Type}

namespace Program

def bind : Program E R α → (α → Program E R β) → Program E R β
  | .done a, f => f a
  | .perform e next, f => .perform e fun r => (next r).bind f

instance : Monad (Program E R) where
  pure := .done
  bind := Program.bind

def call (e : E) : Program E R (R e) := .perform e .done

/-- `for x in xs: body(x)`, the results thrown away. -/
def forEach (body : β → Program E R Unit) : List β → Program E R Unit
  | [] => .done ()
  | x :: xs => (body x).bind fun _ => forEach body xs

def result? : Program E R α → Option α
  | .done a => some a
  | .perform _ _ => none

/-- The run of a program that nothing comes in between of. -/
def exec {σ : Type} (reply : σ → (e : E) → Option (R e × σ)) (s : σ) :
    Program E R α → Option (α × σ)
  | .done a => some (a, s)
  | .perform e next =>
    match reply s e with
    | some (r, after) => exec reply after (next r)
    | none => none

section Exec

variable {σ : Type} (reply : σ → (e : E) → Option (R e × σ)) (s : σ)

@[simp] theorem exec_pure (a : α) : (pure a : Program E R α).exec reply s = some (a, s) := rfl

@[simp] theorem exec_call (e : E) : (call e).exec reply s = reply s e := by
  simp only [call, exec]
  cases reply s e <;> rfl

theorem exec_program_bind (p : Program E R α) (f : α → Program E R β) :
    (p.bind f).exec reply s = (p.exec reply s).bind fun x => (f x.1).exec reply x.2 := by
  induction p generalizing s with
  | done a => rfl
  | perform e next ih =>
    simp only [bind, exec]
    cases reply s e with
    | none => rfl
    | some answer => exact ih answer.1 answer.2

@[simp] theorem exec_bind (p : Program E R α) (f : α → Program E R β) :
    (p >>= f).exec reply s = (p.exec reply s).bind fun x => (f x.1).exec reply x.2 :=
  exec_program_bind reply s p f

end Exec

/-- Every effect the program can still perform is permitted by the history before it,
    and every result it can still reach satisfies `post`, whatever the replies are. -/
def Meets (permits : History R → E → Prop) (post : α → History R → Prop) :
    Program E R α → History R → Prop
  | .done a, h => post a h
  | .perform e next, h => permits h e ∧ ∀ r, Meets permits post (next r) (⟨e, r⟩ :: h)

variable {permits : History R → E → Prop}

@[simp] theorem meets_pure (post : α → History R → Prop) (a : α) (h : History R) :
    Meets permits post (pure a : Program E R α) h ↔ post a h := Iff.rfl

@[simp] theorem meets_perform (post : α → History R → Prop) (e : E)
    (next : R e → Program E R α) (h : History R) :
    Meets permits post (.perform e next) h ↔
      permits h e ∧ ∀ r, Meets permits post (next r) (⟨e, r⟩ :: h) := Iff.rfl

@[simp] theorem meets_call (e : E) (post : R e → History R → Prop) (h : History R) :
    Meets permits post (call e) h ↔ permits h e ∧ ∀ r, post r (⟨e, r⟩ :: h) := Iff.rfl

theorem meets_program_bind (post : β → History R → Prop) (p : Program E R α)
    (f : α → Program E R β) (h : History R) :
    Meets permits post (p.bind f) h ↔
      Meets permits (fun a after => Meets permits post (f a) after) p h := by
  induction p generalizing h with
  | done a => rfl
  | perform e next ih => simp only [bind, meets_perform, ih]

@[simp] theorem meets_bind (post : β → History R → Prop) (p : Program E R α)
    (f : α → Program E R β) (h : History R) :
    Meets permits post (p >>= f) h ↔
      Meets permits (fun a after => Meets permits post (f a) after) p h :=
  meets_program_bind post p f h

/-- The rule of consequence. -/
theorem Meets.mono {post weaker : α → History R → Prop} {p : Program E R α} {h : History R}
    (meets : Meets permits post p h) (implies : ∀ a after, post a after → weaker a after) :
    Meets permits weaker p h := by
  induction p generalizing h with
  | done a => exact implies a h meets
  | perform e next ih => exact ⟨meets.1, fun r => ih r (meets.2 r)⟩

theorem Meets.and {permits' : History R → E → Prop} {post post' : α → History R → Prop}
    {p : Program E R α} {h : History R} (left : Meets permits post p h)
    (right : Meets permits' post' p h) :
    Meets (fun h e => permits h e ∧ permits' h e) (fun a after => post a after ∧ post' a after) p h := by
  induction p generalizing h with
  | done a => exact ⟨left, right⟩
  | perform e next ih => exact ⟨⟨left.1, right.1⟩, fun r => ih r (left.2 r) (right.2 r)⟩

/-- The rule of invariance: what every permitted effect keeps holds in the end, and may be relied on to
    permit more than is asked for. -/
theorem Meets.keeps {stronger : History R → E → Prop} {invariant : History R → Prop}
    {post : α → History R → Prop} {p : Program E R α} {h : History R} (meets : Meets permits post p h)
    (start : invariant h)
    (step : ∀ h e, invariant h → permits h e → stronger h e ∧ ∀ r, invariant (⟨e, r⟩ :: h)) :
    Meets stronger (fun a after => post a after ∧ invariant after) p h := by
  induction p generalizing h with
  | done a => exact ⟨meets, start⟩
  | perform e next ih =>
    obtain ⟨allowed, kept⟩ := step h e start meets.1
    exact ⟨allowed, fun r => ih r (meets.2 r) (kept r)⟩

/-- A world that answers each effect as it likes, in view of everything before it. -/
def answering (answer : History R → (e : E) → R e) (h : History R) (e : E) :
    Option (R e × History R) :=
  some (answer h e, ⟨e, answer h e⟩ :: h)

def Performs (Q : E → Prop) : Program E R α → Prop
  | .done _ => True
  | .perform e next => Q e ∧ ∀ r, Performs Q (next r)

def PerformsLater (Q : E → Prop) : Program E R α → Prop
  | .done _ => True
  | .perform _ next => ∀ r, (next r).Performs Q

@[simp] theorem performs_pure (Q : E → Prop) (a : α) : (pure a : Program E R α).Performs Q :=
  trivial

@[simp] theorem performs_call_bind (Q : E → Prop) (e : E) (f : R e → Program E R β) :
    (call e >>= f).Performs Q ↔ Q e ∧ ∀ r, (f r).Performs Q := Iff.rfl

theorem Performs.bind {Q : E → Prop} {p : Program E R α} {f : α → Program E R β}
    (first : p.Performs Q) (rest : ∀ a, (f a).Performs Q) : (p >>= f).Performs Q := by
  induction p with
  | done a => exact rest a
  | perform e next ih => exact ⟨first.1, fun r => ih r (first.2 r)⟩

theorem Performs.forEach {Q : E → Prop} {body : β → Program E R Unit}
    (each : ∀ x, (body x).Performs Q) (xs : List β) : (forEach body xs).Performs Q := by
  induction xs with
  | nil => trivial
  | cons x xs ih => exact (each x).bind fun _ => ih

theorem Performs.later {Q : E → Prop} {p : Program E R α} (performs : p.Performs Q) :
    p.PerformsLater Q := by
  cases p with
  | done a => trivial
  | perform e next => exact performs.2

theorem Performs.mono {Q Q' : E → Prop} {p : Program E R α} (performs : p.Performs Q)
    (implies : ∀ e, Q e → Q' e) : p.Performs Q' := by
  induction p with
  | done a => trivial
  | perform e next ih => exact ⟨implies e performs.1, fun r => ih r (performs.2 r)⟩

theorem Performs.keeps {Q : E → Prop} {invariant : History R → Prop} {p : Program E R α} {h : History R}
    (performs : p.Performs Q) (start : invariant h)
    (step : ∀ h e, invariant h → Q e → ∀ r, invariant (⟨e, r⟩ :: h)) :
    Meets (fun _ _ => True) (fun _ after => invariant after) p h := by
  induction p generalizing h with
  | done a => exact start
  | perform e next ih => exact ⟨trivial, fun r => ih r (performs.2 r) (step h e start performs.1 r)⟩

theorem Meets.performs {Q : E → Prop} {post : α → History R → Prop} {p : Program E R α}
    {h : History R} (meets : Meets permits post p h) (allows : ∀ h e, permits h e → Q e) :
    p.Performs Q := by
  induction p generalizing h with
  | done a => trivial
  | perform e next ih => exact ⟨allows h e meets.1, fun r => ih r (meets.2 r)⟩

inductive Along {ε : Type} (P : ε → List ε → Prop) : List ε → Prop where
  | nil : Along P []
  | cons {s : ε} {h : List ε} (newest : P s h) (older : Along P h) : Along P (s :: h)

namespace Along

variable {ε : Type} {P Q : ε → List ε → Prop} {s : ε} {h : List ε}

theorem head (along : Along P (s :: h)) : P s h := by
  cases along with
  | cons newest older => exact newest

theorem tail (along : Along P (s :: h)) : Along P h := by
  cases along with
  | cons newest older => exact older

instance decidable (P : ε → List ε → Prop) [∀ s h, Decidable (P s h)] :
    ∀ h, Decidable (Along P h)
  | [] => .isTrue .nil
  | s :: h =>
    have := decidable P h
    decidable_of_iff (P s h ∧ Along P h)
      ⟨fun both => .cons both.1 both.2, fun along => ⟨along.head, along.tail⟩⟩

theorem keeps (along : Along P h) (invariant : List ε → Prop) (start : invariant [])
    (step : ∀ s h, invariant h → P s h → invariant (s :: h)) : invariant h := by
  induction along with
  | nil => exact start
  | cons newest older ih => exact step _ _ ih newest

theorem of_append {newer older : List ε} (along : Along P (newer ++ older)) : Along P older := by
  induction newer with
  | nil => exact along
  | cons s newer ih => exact ih along.tail

theorem and (left : Along P h) (right : Along Q h) :
    Along (fun s older => P s older ∧ Q s older) h := by
  induction left with
  | nil => exact .nil
  | cons newest older ih => exact .cons ⟨newest, right.head⟩ (ih right.tail)

end Along

def Permitted (permits : History R → E → Prop) : History R → Prop :=
  Along fun s h => permits h s.1

/-- Every program comes to a result, one that its contract speaks of, and by what it permits. -/
theorem Meets.exec {post : α → History R → Prop} {p : Program E R α} {h : History R}
    (meets : Meets permits post p h) (answer : History R → (e : E) → R e) :
    ∃ a after, p.exec (answering answer) h = some (a, after) ∧ post a after ∧
      (Permitted permits h → Permitted permits after) := by
  induction p generalizing h with
  | done a => exact ⟨a, h, rfl, meets, id⟩
  | perform e next ih =>
    obtain ⟨a, after, ran, ended, permitted⟩ := ih (answer h e) (meets.2 (answer h e))
    exact ⟨a, after, ran, ended, fun before => permitted (.cons meets.1 before)⟩

theorem exec_answered {answer : History R → (e : E) → R e} {p : Program E R α} {h after : History R}
    {a : α} (ran : p.exec (answering answer) h = some (a, after))
    (before : Along (fun s older => s.2 = answer older s.1) h) :
    Along (fun s older => s.2 = answer older s.1) after := by
  induction p generalizing h with
  | done b =>
    cases ran
    exact before
  | perform e next ih => exact ih (answer h e) ran (.cons rfl before)

variable {E' : Type} {R' : E' → Type} {f : E → E'} {g : ∀ e, R' (f e) → R e}

def translate (f : E → E') (g : ∀ e, R' (f e) → R e) : Program E R α → Program E' R' α
  | .done a => .done a
  | .perform e next => .perform (f e) fun r => (next (g e r)).translate f g

@[simp] theorem translate_pure (a : α) :
    (pure a : Program E R α).translate f g = pure a := rfl

@[simp] theorem translate_call_bind (e : E) (next : R e → Program E R α) :
    (call e >>= next).translate f g = call (f e) >>= fun r => (next (g e r)).translate f g := rfl

theorem Meets.translate {Q : E' → Prop} {post : α → History R → Prop} {p : Program E R α}
    {h : History R} (meets : Meets permits post p h) (allows : ∀ h e, permits h e → Q (f e))
    (h' : History R') :
    Meets (fun _ e => Q e) (fun a _ => ∃ after, post a after) (p.translate f g) h' := by
  induction p generalizing h h' with
  | done a => exact ⟨h, meets⟩
  | perform e next ih => exact ⟨allows h e meets.1, fun r => ih (g e r) (meets.2 (g e r)) _⟩

theorem meets_trivial (p : Program E R α) (h : History R) :
    Meets (fun _ _ => True) (fun _ _ => True) p h := by
  induction p generalizing h with
  | done a => trivial
  | perform e next ih => exact ⟨trivial, fun r => ih r _⟩

/-- The loop rule: an invariant over the part of the list that is left. -/
theorem meets_forEach (invariant : List β → History R → Prop) (body : β → Program E R Unit)
    (keeps : ∀ x xs h, invariant (x :: xs) h →
      Meets permits (fun _ after => invariant xs after) (body x) h)
    (xs : List β) (h : History R) (start : invariant xs h) :
    Meets permits (fun _ after => invariant [] after) (forEach body xs) h := by
  induction xs generalizing h with
  | nil => exact start
  | cons x xs ih =>
    rw [forEach, meets_program_bind]
    exact (keeps x xs h start).mono fun _ after kept => ih after kept

end Program

end Effects
