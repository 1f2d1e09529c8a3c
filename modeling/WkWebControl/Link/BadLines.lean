import WkWebControl.Link.Commands

open Effects WebControl Program
open WebControl.Dll (ControlAction)

namespace WebControl.Link

def isText : Option Json → Bool
  | none | some (.str _) => true
  | _ => false

def isNumber : Option Json → Bool
  | none | some (.int _) | some (.float _) => true
  | _ => false

def isBool : Option Json → Bool
  | some (.bool _) => true
  | _ => false

/-- An object with `type` "cmd", a known action and fields of the types that belong to them. -/
structure IsCommand (fields : List (String × Json)) : Prop where
  type : Json.field? fields "type" = some (.str Dll.kTypeCommand)
  action : ∃ text a, Json.field? fields "action" = some (.str text) ∧ Dll.parseAction text = some a
  phase : isText (Json.field? fields "phase") = true
  value : isNumber (Json.field? fields "value") = true

/-- What is to become of a line: nothing leaves `handleCommand`, only a command changes the input,
    and the loop goes on with the lines behind it. -/
structure Tolerated (codec : Codec) (line : List UInt8) : Prop where
  returns : ∀ s : Shared, ∃ control, s.exec (Dll.handleCommand codec line) = some (true, { s with control })
  changes : ∀ (s after : Shared), s.exec (Dll.handleCommand codec line) = some (true, after) →
    after.control ≠ s.control → ∃ fields, codec.parse line = some (.obj fields) ∧ IsCommand fields
  goesOn : line ≠ [] → ∀ (s after : Shared), s.exec (Dll.handleCommand codec line) = some (true, after) →
    ∀ lines, s.exec (Dll.handleLines codec (line :: lines)) = after.exec (Dll.handleLines codec lines)

/-- A boolean is taken for a number, which matters unless it belongs to the release of a one-shot. -/
def HarmlessValue (fields : List (String × Json)) (action : ControlAction) : Prop :=
  isNumber (Json.field? fields "value") = true ∨
    isBool (Json.field? fields "value") = true ∧ (action = .selectWeapon ∨ action = .jump) ∧
      Json.field? fields "phase" = some (.str "release")

def HarmlessFields (fields : List (String × Json)) : Prop :=
  isText (Json.field? fields "type") = true ∧
    (Json.field? fields "type" = some (.str Dll.kTypeCommand) →
      isText (Json.field? fields "action") = true ∧
        ∀ text action, Json.field? fields "action" = some (.str text) →
          Dll.parseAction text = some action →
          isText (Json.field? fields "phase") = true ∧ HarmlessValue fields action)

/-- What the JSON of a line has to be like, if it is JSON. -/
def Harmless (codec : Codec) (line : List UInt8) : Prop :=
  ∀ j, codec.parse line = some j → ∃ fields, j = .obj fields ∧ HarmlessFields fields

theorem release_oneShot {action : ControlAction} (oneShot : action = .selectWeapon ∨ action = .jump)
    (state : Dll.ControlState) (value : Int) : state.apply action .release value = state := by
  rcases oneShot with rfl | rfl <;> rfl

theorem apply_changes {action : ControlAction} {phase : Dll.ControlPhase}
    (acts : ¬ ((action = .selectWeapon ∨ action = .jump) ∧ phase = .release)) (value : Int) :
    ∃ state : Dll.ControlState, state.apply action phase value ≠ state := by
  cases phase with
  | press =>
    cases action with
    | selectWeapon =>
      refine ⟨{ selectWeapon := value + 1 }, fun same => ?_⟩
      have values := congrArg Dll.ControlState.selectWeapon same
      simp [Dll.ControlState.apply] at values
    | _ => exact ⟨{}, by simp [Dll.ControlState.apply]⟩
  | release =>
    cases action with
    | moveLeft => exact ⟨{ moveLeft := true }, by simp [Dll.ControlState.apply]⟩
    | moveRight => exact ⟨{ moveRight := true }, by simp [Dll.ControlState.apply]⟩
    | aimUp => exact ⟨{ aimUp := true }, by simp [Dll.ControlState.apply]⟩
    | aimDown => exact ⟨{ aimDown := true }, by simp [Dll.ControlState.apply]⟩
    | fire => exact ⟨{ firing := true }, by simp [Dll.ControlState.apply]⟩
    | selectWeapon => exact absurd ⟨.inl rfl, rfl⟩ acts
    | jump => exact absurd ⟨.inr rfl, rfl⟩ acts

section Fields

variable {fields : List (String × Json)} {key : String}

theorem valueString_isText (text : isText (Json.field? fields key) = true) (default : String) :
    ∃ found, Dll.valueString (.obj fields) key default = .ok found ∧
      (Json.field? fields key = some (.str found) ∨ Json.field? fields key = none ∧ found = default) := by
  cases value : Json.field? fields key with
  | none =>
    refine ⟨default, ?_, .inr ⟨rfl, rfl⟩⟩
    simp only [Dll.valueString, value]
    rfl
  | some j =>
    cases j with
    | str found =>
      refine ⟨found, ?_, .inl rfl⟩
      simp only [Dll.valueString, value]
      rfl
    | _ => simp [value, isText] at text

theorem valueString_throws (other : isText (Json.field? fields key) = false) (default : String) :
    Dll.valueString (.obj fields) key default = .error .wrongType := by
  cases value : Json.field? fields key with
  | none => simp [value, isText] at other
  | some j =>
    cases j with
    | str found => simp [value, isText] at other
    | _ =>
      simp only [Dll.valueString, value]
      rfl

theorem valueInt_isNumber
    (number : isNumber (Json.field? fields key) = true ∨ isBool (Json.field? fields key) = true)
    (default : Int) : ∃ found, Dll.valueInt (.obj fields) key default = .ok found := by
  cases value : Json.field? fields key with
  | none => exact ⟨default, by simp only [Dll.valueInt, value]; rfl⟩
  | some j =>
    cases j with
    | int n => exact ⟨_, by simp only [Dll.valueInt, value]; rfl⟩
    | float d => exact ⟨_, by simp only [Dll.valueInt, value]; rfl⟩
    | bool b => exact ⟨_, by simp only [Dll.valueInt, value]; rfl⟩
    | _ => simp [value, isNumber, isBool] at number

theorem valueInt_throws
    (other : ¬ (isNumber (Json.field? fields key) = true ∨ isBool (Json.field? fields key) = true))
    (default : Int) : Dll.valueInt (.obj fields) key default = .error .wrongType := by
  cases value : Json.field? fields key with
  | none => simp [value, isNumber] at other
  | some j =>
    cases j with
    | int n => simp [value, isNumber] at other
    | float d => simp [value, isNumber] at other
    | bool b => simp [value, isBool] at other
    | _ =>
      simp only [Dll.valueInt, value]
      rfl

end Fields

/-- What reading the fields of an object can come to: it throws, it finds nothing to do, or it finds
    a command. -/
inductive Reading (fields : List (String × Json)) : Except Dll.TypeError (Option Arguments) → Prop where
  | throws (error : Dll.TypeError) (harm : ¬ HarmlessFields fields) : Reading fields (.error error)
  | skips (harmless : HarmlessFields fields) : Reading fields (.ok none)
  | finds (action : ControlAction) (phase : Dll.ControlPhase) (value : Int)
      (command : IsCommand fields ↔ isNumber (Json.field? fields "value") = true)
      (harmless : HarmlessFields fields ↔ isNumber (Json.field? fields "value") = true ∨
        (action = .selectWeapon ∨ action = .jump) ∧ phase = .release) :
      Reading fields (.ok (some (action, phase, value)))

theorem reading_command {fields : List (String × Json)}
    (typed : isText (Json.field? fields "type") = true)
    (cmd : Json.field? fields "type" = some (.str Dll.kTypeCommand)) :
    Reading fields (do
      match Dll.parseAction (← Dll.valueString (.obj fields) "action" "") with
      | none => return none
      | some action =>
        let phase := Dll.parsePhase (← Dll.valueString (.obj fields) "phase" "")
        let value ← Dll.valueInt (.obj fields) "value" 0
        return some (action, phase, value)) := by
  simp only [Bind.bind, Except.bind]
  cases acted : isText (Json.field? fields "action") with
  | false =>
    rw [valueString_throws acted]
    exact .throws _ fun harmless => absurd (acted.symm.trans (harmless.2 cmd).1) (by decide)
  | true =>
    obtain ⟨text, eq, text_⟩ := valueString_isText acted ""
    simp only [eq]
    cases known : Dll.parseAction text with
    | none =>
      -- an action that is not known: `handleCommand` returns before it looks at `phase` and `value`
      refine .skips ⟨typed, fun _ => ⟨acted, fun found action same parsed => ?_⟩⟩
      rcases text_ with here | ⟨missing, -⟩
      · cases here.symm.trans same
        cases known.symm.trans parsed
      · cases missing.symm.trans same
    | some action =>
      have named : Json.field? fields "action" = some (.str text) := by
        rcases text_ with here | ⟨-, rfl⟩
        · exact here
        · exact absurd (show Dll.parseAction "" = none by decide) (by simp [known])
      have only : HarmlessFields fields ↔
          isText (Json.field? fields "phase") = true ∧ HarmlessValue fields action := by
        constructor
        · exact fun harmless => (harmless.2 cmd).2 text action named known
        · refine fun both => ⟨typed, fun _ => ⟨acted, fun found action' same parsed => ?_⟩⟩
          cases named.symm.trans same
          cases known.symm.trans parsed
          exact both
      cases phased : isText (Json.field? fields "phase") with
      | false =>
        rw [valueString_throws phased]
        exact .throws _ fun harmless => absurd (phased.symm.trans (only.mp harmless).1) (by decide)
      | true =>
        obtain ⟨phase, eq, phase_⟩ := valueString_isText phased ""
        simp only [eq]
        by_cases valued : isNumber (Json.field? fields "value") = true ∨
            isBool (Json.field? fields "value") = true
        · obtain ⟨value, eq⟩ := valueInt_isNumber valued 0
          simp only [eq]
          refine .finds action _ value ⟨IsCommand.value, ?_⟩ ?_
          · exact fun number => ⟨cmd, ⟨text, action, named, known⟩, phased, number⟩
          · have release : Json.field? fields "phase" = some (.str "release") ↔
                Dll.parsePhase phase = .release := by
              rcases phase_ with here | ⟨missing, rfl⟩
              · rw [here, Option.some_inj, Json.str.injEq, Dll.parsePhase]
                split <;> simp [*]
              · rw [missing]
                decide
            rw [only, and_iff_right phased, HarmlessValue, release]
            apply or_congr_right'
            exact fun other => and_iff_right (valued.resolve_left other)
        · rw [valueInt_throws valued]
          refine .throws _ fun harmless => valued ?_
          exact (only.mp harmless).2.imp_right And.left

theorem reading (fields : List (String × Json)) :
    Reading fields (Dll.readCommand (.obj fields)) := by
  unfold Dll.readCommand
  cases typed : isText (Json.field? fields "type") with
  | false =>
    rw [valueString_throws typed]
    exact .throws _ fun harmless => absurd (typed.symm.trans harmless.1) (by decide)
  | true =>
    obtain ⟨type, eq, type_⟩ := valueString_isText typed ""
    simp only [eq, Bind.bind, Except.bind]
    split
    · rename_i other
      refine .skips ⟨typed, fun cmd => ?_⟩
      rcases type_ with same | ⟨missing, -⟩
      · exact absurd (Json.str.inj (Option.some.inj (same.symm.trans cmd))) other
      · cases missing.symm.trans cmd
    · rename_i same
      have cmd : Json.field? fields "type" = some (.str Dll.kTypeCommand) := by
        rw [ne_eq, not_not] at same
        rcases type_ with found | ⟨-, empty⟩
        · rw [found, same]
        · exact absurd (empty.symm.trans same) (by decide)
      have rest := reading_command typed cmd
      simp only [Bind.bind, Except.bind] at rest
      exact rest

section Lines

variable {codec : Codec} {line : List UInt8}

theorem exec_noJson (none_ : codec.parse line = none) (s : Shared) :
    s.exec (Dll.handleCommand codec line) = some (true, s) := by
  simp only [Dll.handleCommand, none_]
  rfl

theorem exec_throws {j : Json} {error : Dll.TypeError} (parsed : codec.parse line = some j)
    (read : Dll.readCommand j = .error error) (s : Shared) :
    ∃ after, s.exec (Dll.handleCommand codec line) = some (false, after) := by
  simp only [Dll.handleCommand, parsed, read]
  exact ⟨_, rfl⟩

theorem exec_skips {j : Json} (parsed : codec.parse line = some j)
    (read : Dll.readCommand j = .ok none) (s : Shared) :
    s.exec (Dll.handleCommand codec line) = some (true, s) := by
  simp only [Dll.handleCommand, parsed, read]
  rfl

theorem exec_finds {j : Json} {action : ControlAction} {phase : Dll.ControlPhase} {value : Int}
    (parsed : codec.parse line = some j)
    (read : Dll.readCommand j = .ok (some (action, phase, value))) (s : Shared) :
    s.exec (Dll.handleCommand codec line) =
      some (true, { s with control := s.control.apply action phase value }) := by
  simp only [Dll.handleCommand, parsed, read]
  rfl

theorem exec_handleLines (some_ : line ≠ []) {s after : Shared}
    (returned : s.exec (Dll.handleCommand codec line) = some (true, after))
    (lines : List (List UInt8)) :
    s.exec (Dll.handleLines codec (line :: lines)) = after.exec (Dll.handleLines codec lines) := by
  have text : line.isEmpty = false := by simpa using some_
  rw [Dll.handleLines, text]
  simp only [Bool.false_eq_true, if_false, Shared.exec, exec_bind]
  rw [show Program.exec _ s (Dll.handleCommand codec line) = _ from returned]
  rfl

theorem Tolerated.of_unchanged
    (unchanged : ∀ s : Shared, s.exec (Dll.handleCommand codec line) = some (true, s)) :
    Tolerated codec line where
  returns s := ⟨s.control, unchanged s⟩
  changes s after returned changed := by
    cases (unchanged s).symm.trans returned
    exact absurd rfl changed
  goesOn some_ _ _ returned := exec_handleLines some_ returned

theorem tolerated_of_finds {fields : List (String × Json)} {action : ControlAction}
    {phase : Dll.ControlPhase} {value : Int} (parsed : codec.parse line = some (.obj fields))
    (read : Dll.readCommand (.obj fields) = .ok (some (action, phase, value))) :
    Tolerated codec line ↔
      IsCommand fields ∨ (action = .selectWeapon ∨ action = .jump) ∧ phase = .release := by
  have runs := exec_finds parsed read
  constructor
  · intro tolerated
    by_cases acts : (action = .selectWeapon ∨ action = .jump) ∧ phase = .release
    · exact .inr acts
    · left
      obtain ⟨state, changed⟩ := apply_changes acts value
      obtain ⟨fields', parsed', command⟩ := tolerated.changes { control := state } _ (runs _) changed
      cases parsed.symm.trans parsed'
      exact command
  · rintro (command | ⟨oneShot, rfl⟩)
    · exact ⟨fun s => ⟨_, runs s⟩, fun _ _ _ _ => ⟨fields, parsed, command⟩,
        fun some_ _ _ returned => exec_handleLines some_ returned⟩
    · apply Tolerated.of_unchanged
      intro s
      rw [runs s, release_oneShot oneShot]

theorem tolerated_iff_harmless (codec : Codec) (line : List UInt8) :
    Tolerated codec line ↔ Harmless codec line := by
  have throws (j : Json) (parsed : codec.parse line = some j) (error : Dll.TypeError)
      (read : Dll.readCommand j = .error error) : ¬ Tolerated codec line := by
    intro tolerated
    obtain ⟨control, returned⟩ := tolerated.returns {}
    obtain ⟨after, left⟩ := exec_throws parsed read {}
    cases left.symm.trans returned
  cases parsed : codec.parse line with
  | none =>
    refine iff_of_true (.of_unchanged (exec_noJson parsed)) fun j some_ => ?_
    cases parsed.symm.trans some_
  | some j =>
    have only : Harmless codec line ↔ ∃ fields, j = .obj fields ∧ HarmlessFields fields := by
      refine ⟨fun harmless => harmless j parsed, fun found j' same => ?_⟩
      cases parsed.symm.trans same
      exact found
    rw [only]
    cases j with
    | obj fields =>
      have whole : (∃ fields', Json.obj fields = .obj fields' ∧ HarmlessFields fields') ↔
          HarmlessFields fields := by simp
      rw [whole]
      cases read : Dll.readCommand (.obj fields) with
      | error error =>
        have kind := reading fields
        rw [read] at kind
        cases kind with
        | throws _ harm => exact iff_of_false (throws _ parsed error read) harm
      | ok found =>
        have kind := reading fields
        rw [read] at kind
        cases kind with
        | skips harmless => exact iff_of_true (.of_unchanged (exec_skips parsed read)) harmless
        | finds action phase value command harmless =>
          rw [tolerated_of_finds parsed read, command, harmless]
    | _ =>
      refine iff_of_false (throws _ parsed .notAnObject rfl) ?_
      simp

end Lines

/-- An empty JSON array ends the thread, and with it the game. -/
theorem not_tolerated_array : ¬ Tolerated plainCodec (ascii "[]") := by
  intro tolerated
  obtain ⟨control, returned⟩ := tolerated.returns {}
  have left : ((({} : Shared).exec (Dll.handleCommand plainCodec (ascii "[]"))).map fun x =>
      (x.1, x.2.terminated)) = some (false, true) := by
    decide +kernel
  rw [returned] at left
  cases left

end WebControl.Link
