import WkWebControl.Json.RoundTrip
import WkWebControl.Backend.Interference
import WkWebControl.Link.BetweenGames

open Effects WebControl
open WebControl.Dll (GameSnapshot)

namespace WebControl.Dll

theorem orNull_plain (n : Option Int) : (orNull n).Plain := by
  cases n with
  | none => exact .null
  | some n => exact .int n

theorem wormJson_plain (w : WormSnapshot) : (wormJson w).Plain := by
  apply Json.Plain.obj _ (by simp)
  simp only [List.forall_mem_cons, List.not_mem_nil, false_imp_iff, implies_true, and_true]
  exact ⟨.bool _, .int _, .int _, .int _, .int _, .int _, .int _⟩

theorem map_plain {α : Type} {write : α → Json} (each : ∀ a, (write a).Plain) (as : List α) :
    (Json.arr (as.map write)).Plain := by
  refine .arr _ fun item member => ?_
  obtain ⟨a, -, rfl⟩ := List.mem_map.mp member
  exact each a

theorem teamJson_plain (t : TeamSnapshot) : (teamJson t).Plain := by
  apply Json.Plain.obj _ (by simp)
  simp only [List.forall_mem_cons, List.not_mem_nil, false_imp_iff, implies_true, and_true]
  exact ⟨.int _, .bool _, .bool _, .int _, .int _, map_plain wormJson_plain t.worms⟩

theorem weaponJson_plain (w : WeaponAmmo) : (weaponJson w).Plain := by
  apply Json.Plain.obj _ (by simp)
  simp only [List.forall_mem_cons, List.not_mem_nil, false_imp_iff, implies_true, and_true]
  exact ⟨.int _, .int _, .int _⟩

theorem stateJson_plain (s : GameSnapshot) : (stateJson s).Plain := by
  apply Json.Plain.obj _ (by simp)
  simp only [List.forall_mem_cons, List.not_mem_nil, false_imp_iff, implies_true, and_true]
  exact ⟨.bool _, .int _, .int _, .int _, .int _, .bool _, map_plain teamJson_plain s.teams,
    orNull_plain s.turnTeam, orNull_plain s.turnTimeMs, map_plain weaponJson_plain s.weapons⟩

end WebControl.Dll

namespace WebControl.Link

def linesOf (text : List UInt8) : List (List UInt8) := (Lines.split newline text).1

/-- For this snapshot the two libraries keep to the grammar: `dump` writes its text without blanks, and
    `model_validate_json` takes any text of its value for that value. -/
structure Codec.Standard (codec : Codec) (snap : GameSnapshot) : Prop where
  dump : codec.dump (Dll.stateJson snap) = Json.Style.compact.text (Dll.stateJson snap)
  loads : ∀ text, Json.read text = some (Dll.stateJson snap) →
    codec.loads text = some (Dll.stateJson snap)

section Standard

variable {codec : Codec} {snap : GameSnapshot}

theorem Codec.Standard.clean (standard : codec.Standard snap) :
    newline ∉ codec.dump (Dll.stateJson snap) := by
  rw [standard.dump]
  exact Json.Style.compact.text_clean (Dll.stateJson_plain snap)

theorem Codec.Standard.reads (standard : codec.Standard snap) :
    codec.loads (codec.dump (Dll.stateJson snap)) = some (Dll.stateJson snap) := by
  apply standard.loads
  rw [standard.dump]
  exact Json.Style.compact.read_text (Dll.stateJson_plain snap)

theorem Codec.Standard.carries (standard : codec.Standard snap) : codec.Carries snap where
  clean := standard.clean
  loads := standard.reads
  text := by
    have brace : codec.dump (Dll.stateJson snap) = 123 :: (codec.dump (Dll.stateJson snap)).tail := by
      rw [standard.dump]
      rfl
    rw [brace, List.all_cons, show Backend.TcpIpcTransport.isBlank 123 = false by decide, Bool.false_and]

end Standard

theorem dropLast_stateLine (codec : Codec) (s : GameSnapshot) :
    (Dll.stateLine codec s).dropLast = codec.dump (Dll.stateJson s) := by
  rw [Dll.stateLine, List.dropLast_concat]

/-- What the plugin writes of a snapshot the backend reads as that snapshot, and it is one line. -/
theorem fromWire_stateLine {codec : Codec} {s : GameSnapshot} (standard : codec.Standard s) :
    Backend.GameSnapshot.fromWire codec (Dll.stateLine codec s).dropLast =
      some (Backend.gameSnapshot s) ∧
    newline ∉ (Dll.stateLine codec s).dropLast ∧
    (Dll.stateLine codec s).getLast? = some newline := by
  rw [dropLast_stateLine]
  have read := standard.reads
  constructor
  · rw [Backend.GameSnapshot.fromWire, read, Option.bind_some, Backend.GameSnapshot.ofJson_stateJson]
  · constructor
    · exact standard.clean
    · rw [Dll.stateLine, List.getLast?_concat]

def plainCodec : Codec where
  parse := Json.read
  dump := Json.Style.compact.text
  loads := Json.read
  laxInt _ := none
  laxBool _ := none

theorem plainCodec_standard (snap : GameSnapshot) : plainCodec.Standard snap :=
  ⟨rfl, fun _ read => read⟩

def crowdedSnapshot : GameSnapshot where
  gameId := -2147483648
  roundActive := true
  currentMachine := 2147483647
  turnTimeMs := some (-1)
  teams := [{ teamNumber := 1, worms := [{ team := 1, worm := 0, posX := -5 }, { worm := 1 }] }, {}]
  weapons := [{ id := 3, ammo := -1 }, { id := 1, delay := 2 }]

theorem fromWire_crowdedSnapshot :
    Backend.GameSnapshot.fromWire plainCodec (Dll.stateLine plainCodec crowdedSnapshot).dropLast =
      some (Backend.gameSnapshot crowdedSnapshot) :=
  (fromWire_stateLine (plainCodec_standard crowdedSnapshot)).1

def isFlat : Json → Bool
  | .arr _ | .obj _ => false
  | _ => true

/-- `json::parse` keeps to the grammar on flat objects; how it orders their fields is left open. -/
def Codec.ParsesFlat (codec : Codec) : Prop :=
  ∀ text fields, Json.read text = some (.obj fields) → (∀ field ∈ fields, isFlat field.2 = true) →
    ∃ found, codec.parse text = some (.obj found) ∧ ∀ key, Json.field? found key = Json.field? fields key

theorem plainCodec_parsesFlat : plainCodec.ParsesFlat :=
  fun _ fields read _ => ⟨fields, read, fun _ => rfl⟩

def commandText (cmd : Backend.CommandMessage) : List UInt8 := Json.Style.dumps.text cmd.modelDump

theorem toWire_eq (cmd : Backend.CommandMessage) : cmd.toWire = commandText cmd ++ [newline] := by
  rw [Backend.CommandMessage.toWire, Json.utf8, List.flatMap_append]
  rfl

theorem modelDump_plain (cmd : Backend.CommandMessage) : cmd.modelDump.Plain := by
  apply Json.Plain.obj _ (by simp)
  simp only [List.forall_mem_cons, List.not_mem_nil, false_imp_iff, implies_true, and_true]
  exact ⟨.str _, .str _, .str _, .str _, .int _⟩

theorem commandText_clean (cmd : Backend.CommandMessage) : newline ∉ commandText cmd :=
  Json.Style.dumps.text_clean (modelDump_plain cmd)

theorem commandText_ne_nil (cmd : Backend.CommandMessage) : commandText cmd ≠ [] := by
  have brace : commandText cmd = 123 :: (commandText cmd).tail := rfl
  rw [brace]
  exact List.cons_ne_nil _ _

def arguments (cmd : Backend.CommandMessage) : Dll.ControlAction × Dll.ControlPhase × Int :=
  (cmd.action.plugin, cmd.phase.plugin, cmd.value)

def FitsInt (cmd : Backend.CommandMessage) : Prop := -(2 ^ 31) ≤ cmd.value ∧ cmd.value < 2 ^ 31

instance (cmd : Backend.CommandMessage) : Decidable (FitsInt cmd) := inferInstanceAs (Decidable (_ ∧ _))

theorem readCommand_congr {fields found : List (String × Json)}
    (same : ∀ key, Json.field? found key = Json.field? fields key) :
    Dll.readCommand (.obj found) = Dll.readCommand (.obj fields) := by
  have text : ∀ key default, Dll.valueString (.obj found) key default =
      Dll.valueString (.obj fields) key default := by
    intro key default
    simp only [Dll.valueString, same]
  have number : ∀ key default, Dll.valueInt (.obj found) key default =
      Dll.valueInt (.obj fields) key default := by
    intro key default
    simp only [Dll.valueInt, same]
  simp only [Dll.readCommand, text, number]

theorem intOfInteger_of_fits {cmd : Backend.CommandMessage} (fits : FitsInt cmd) :
    Dll.intOfInteger cmd.value = cmd.value := by
  obtain ⟨low, high⟩ := fits
  have range : -(2 ^ 63) ≤ cmd.value ∧ cmd.value < 2 ^ 64 := by omega
  rw [Dll.intOfInteger, if_pos range]
  apply Int.bmod_eq_of_le <;> omega

theorem commandText_read {codec : Codec} (parses : codec.ParsesFlat) {cmd : Backend.CommandMessage}
    (fits : FitsInt cmd) :
    ∃ j, codec.parse (commandText cmd) = some j ∧ Dll.readCommand j = .ok (some (arguments cmd)) := by
  have read : Json.read (commandText cmd) = some cmd.modelDump :=
    Json.Style.dumps.read_text (modelDump_plain cmd)
  obtain ⟨found, parsed, same⟩ := parses _ _ read (by simp [isFlat])
  refine ⟨_, parsed, ?_⟩
  rw [readCommand_congr same]
  have command := Backend.readCommand_modelDump cmd
  rw [intOfInteger_of_fits fits] at command
  exact command

end WebControl.Link
