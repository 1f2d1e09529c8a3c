import Mathlib.Data.List.Nodup
import WkWebControl.Backend.Python

namespace WebControl.Backend

open WebControl.Python (lower lower_idempotent strip)

/-- An identity as `require_email` and `control` hand it on: `lower` has been applied. -/
structure User where
  email : String
  normalised : lower email = email

instance : DecidableEq User := fun u v =>
  decidable_of_iff (u.email = v.email) (by cases u; cases v; simp)

def User.ofHeader (header : String) : User := ⟨lower (strip header), lower_idempotent _⟩

structure Mapping where
  teamNumber : Int
  email : String
  deriving DecidableEq, Repr

/-- The table `team_mapping` with its two constraints, `PRIMARY KEY` and `UNIQUE`. -/
structure MappingStore where
  rows : List Mapping
  primaryKey : (rows.map Mapping.teamNumber).Nodup
  unique : (rows.map Mapping.email).Nodup

namespace MappingStore

def empty : MappingStore := ⟨[], List.nodup_nil, List.nodup_nil⟩

def Free (s : MappingStore) (team : Int) (email : String) : Prop :=
  ∀ row ∈ s.rows, row.teamNumber ≠ team ∧ row.email ≠ email

instance (s : MappingStore) (team : Int) (email : String) : Decidable (s.Free team email) :=
  inferInstanceAs (Decidable (∀ row ∈ s.rows, _))

def insert (s : MappingStore) (team : Int) (email : String) (free : s.Free team email) :
    MappingStore where
  rows := ⟨team, email⟩ :: s.rows
  primaryKey := by
    rw [List.map_cons, List.nodup_cons]
    refine ⟨?_, s.primaryKey⟩
    simp only [List.mem_map, not_exists, not_and]
    intro row member
    exact (free row member).1
  unique := by
    rw [List.map_cons, List.nodup_cons]
    refine ⟨?_, s.unique⟩
    simp only [List.mem_map, not_exists, not_and]
    intro row member
    exact (free row member).2

/-- The insertion, or the rolled back `IntegrityError`. -/
def claim (s : MappingStore) (team : Int) (email : String) : Bool × MappingStore :=
  if free : s.Free team (lower email) then (true, s.insert team (lower email) free) else (false, s)

def keep (s : MappingStore) (p : Mapping → Bool) : MappingStore where
  rows := s.rows.filter p
  primaryKey := s.primaryKey.sublist ((List.filter_sublist).map _)
  unique := s.unique.sublist ((List.filter_sublist).map _)

def deleteMapping (s : MappingStore) (team : Int) : MappingStore :=
  s.keep fun row => row.teamNumber != team

def clearAll (_ : MappingStore) : MappingStore := empty

def emailForTeam (s : MappingStore) (team : Int) : Option String :=
  (s.rows.find? fun row => row.teamNumber == team).map Mapping.email

def teamForEmail (s : MappingStore) (email : String) : Option Int :=
  (s.rows.find? fun row => row.email == lower email).map Mapping.teamNumber

theorem mem_deleteMapping {s : MappingStore} {team : Int} {row : Mapping} :
    row ∈ (s.deleteMapping team).rows ↔ row ∈ s.rows ∧ row.teamNumber ≠ team := by
  simp [deleteMapping, keep]

theorem claim_of_free {s : MappingStore} {team : Int} {email : String}
    (free : s.Free team (lower email)) :
    s.claim team email = (true, s.insert team (lower email) free) := dif_pos free

theorem claim_of_taken {s : MappingStore} {team : Int} {email : String}
    (taken : ¬ s.Free team (lower email)) : s.claim team email = (false, s) := dif_neg taken

theorem claim_fst (s : MappingStore) (team : Int) (email : String) :
    (s.claim team email).1 = true ↔ s.Free team (lower email) := by
  unfold claim
  split
  · rename_i free
    exact iff_of_true rfl free
  · rename_i taken
    simp [taken]

theorem mem_claim {s : MappingStore} {team : Int} {email : String} {row : Mapping}
    (granted : (s.claim team email).1 = true) :
    row ∈ (s.claim team email).2.rows ↔ row = ⟨team, lower email⟩ ∨ row ∈ s.rows := by
  rw [claim_of_free ((claim_fst s team email).mp granted)]
  simp [insert]

theorem row_of_team {s : MappingStore} {a b : Mapping} (ha : a ∈ s.rows) (hb : b ∈ s.rows)
    (same : a.teamNumber = b.teamNumber) : a = b :=
  List.inj_on_of_nodup_map s.primaryKey ha hb same

theorem row_of_email {s : MappingStore} {a b : Mapping} (ha : a ∈ s.rows) (hb : b ∈ s.rows)
    (same : a.email = b.email) : a = b :=
  List.inj_on_of_nodup_map s.unique ha hb same

theorem emailForTeam_eq_some {s : MappingStore} {team : Int} {email : String} :
    s.emailForTeam team = some email ↔ (⟨team, email⟩ : Mapping) ∈ s.rows := by
  unfold emailForTeam
  constructor
  · intro found
    obtain ⟨row, first, rfl⟩ := Option.map_eq_some_iff.mp found
    have key := List.find?_some first
    have member := List.mem_of_find?_eq_some first
    rw [beq_iff_eq] at key
    subst key
    exact member
  · intro member
    cases found : s.rows.find? fun row => row.teamNumber == team with
    | none =>
      have none_left := List.find?_eq_none.mp found _ member
      simp at none_left
    | some row =>
      have key := List.find?_some found
      rw [beq_iff_eq] at key
      have same := row_of_team (List.mem_of_find?_eq_some found) member key
      simp [same]

theorem teamForEmail_eq_some {s : MappingStore} {team : Int} {email : String} :
    s.teamForEmail email = some team ↔ (⟨team, lower email⟩ : Mapping) ∈ s.rows := by
  unfold teamForEmail
  constructor
  · intro found
    obtain ⟨row, first, rfl⟩ := Option.map_eq_some_iff.mp found
    have key := List.find?_some first
    have member := List.mem_of_find?_eq_some first
    rw [beq_iff_eq] at key
    rw [← key]
    exact member
  · intro member
    cases found : s.rows.find? fun row => row.email == lower email with
    | none =>
      have none_left := List.find?_eq_none.mp found _ member
      simp at none_left
    | some row =>
      have key := List.find?_some found
      rw [beq_iff_eq] at key
      have same := row_of_email (List.mem_of_find?_eq_some found) member key
      simp [same]

theorem emailForTeam_iff_teamForEmail (s : MappingStore) (team : Int) (u : User) :
    s.emailForTeam team = some u.email ↔ s.teamForEmail u.email = some team := by
  rw [emailForTeam_eq_some, teamForEmail_eq_some, u.normalised]

end MappingStore

end WebControl.Backend
