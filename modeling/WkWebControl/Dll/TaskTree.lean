import Mathlib.Data.List.Nodup
import WkWebControl.Dll.Entities

namespace WebControl.Dll

namespace Task

def slots : Task → List (Option Task)
  | mk _ _ _ _ children => children

theorem children_slots (task : Task) : task.children = task.slots.filterMap id := by
  cases task
  rfl

def at? (task : Task) : List Nat → Option Task
  | [] => some task
  | i :: place => task.slots[i]?.join.bind fun child => child.at? place

mutual

/-- The places of the tasks that `traverse` visits, in its order. A place is the way down to a task: the
    index into each child array on it. -/
def places : Task → List (List Nat)
  | mk _ _ _ _ children => [] :: placesFrom 0 children

def placesFrom (i : Nat) : List (Option Task) → List (List Nat)
  | [] => []
  | none :: children => placesFrom (i + 1) children
  | some child :: children => (places child).map (i :: ·) ++ placesFrom (i + 1) children

end

theorem at?_cons {task : Task} {i : Nat} {place : List Nat} {found : Task} :
    task.at? (i :: place) = some found ↔
      ∃ child, task.slots[i]? = some (some child) ∧ child.at? place = some found := by
  simp [at?, Option.bind_eq_some_iff, Option.join_eq_some_iff]

theorem slot_cons (slot : Option Task) (children : List (Option Task)) {i k : Nat} (child : Task) :
    (i ≤ k ∧ (slot :: children)[k - i]? = some (some child)) ↔
      (k = i ∧ slot = some child) ∨ (i + 1 ≤ k ∧ children[k - (i + 1)]? = some (some child)) := by
  rcases Nat.lt_trichotomy k i with less | rfl | more
  · omega
  · simp only [Nat.le_refl, Nat.sub_self, true_and, List.getElem?_cons_zero, Option.some.injEq]
    constructor
    · exact .inl
    · rintro (same | ⟨above, _⟩)
      · exact same
      · omega
  · rw [show k - i = (k - (i + 1)) + 1 by omega, List.getElem?_cons_succ]
    constructor
    · rintro ⟨_, entry⟩
      exact .inr ⟨more, entry⟩
    · rintro (⟨same, _⟩ | ⟨_, entry⟩)
      · omega
      · exact ⟨by omega, entry⟩

mutual

theorem mem_places (task : Task) (place : List Nat) :
    place ∈ task.places ↔ ∃ found, task.at? place = some found := by
  cases task with
  | mk address classtype team worm children =>
    cases place with
    | nil => simp [places, at?]
    | cons k place =>
      have entries := mem_placesFrom 0 children k place
      simp only [places, List.mem_cons, reduceCtorEq, false_or, entries, at?_cons, slots, Nat.zero_le,
        true_and, Nat.sub_zero]
      constructor
      · rintro ⟨child, found, entry, reached⟩
        exact ⟨found, child, entry, reached⟩
      · rintro ⟨found, child, entry, reached⟩
        exact ⟨child, found, entry, reached⟩

theorem mem_placesFrom (i : Nat) (children : List (Option Task)) (k : Nat) (place : List Nat) :
    k :: place ∈ placesFrom i children ↔
      ∃ child found, (i ≤ k ∧ children[k - i]? = some (some child)) ∧ child.at? place = some found := by
  cases children with
  | nil => simp [placesFrom]
  | cons slot children =>
    have rest := mem_placesFrom (i + 1) children k place
    simp only [slot_cons]
    cases slot with
    | none =>
      rw [placesFrom, rest]
      simp
    | some child =>
      have own := mem_places child place
      simp only [placesFrom, List.mem_append, List.mem_map, List.cons.injEq, rest]
      constructor
      · rintro (⟨_, member, rfl, rfl⟩ | ⟨below, found, entry, reached⟩)
        · obtain ⟨found, reached⟩ := own.mp member
          exact ⟨child, found, .inl ⟨rfl, rfl⟩, reached⟩
        · exact ⟨below, found, .inr entry, reached⟩
      · rintro ⟨below, found, (⟨rfl, same⟩ | entry), reached⟩
        · cases same
          exact .inl ⟨place, own.mpr ⟨found, reached⟩, rfl, rfl⟩
        · exact .inr ⟨below, found, entry, reached⟩

end

theorem nil_notMem_placesFrom (i : Nat) (children : List (Option Task)) : [] ∉ placesFrom i children := by
  induction children generalizing i with
  | nil => exact List.not_mem_nil
  | cons slot children ih =>
    cases slot with
    | none => exact ih (i + 1)
    | some child =>
      rw [placesFrom, List.mem_append, not_or]
      exact ⟨by simp, ih (i + 1)⟩

mutual

theorem places_sorted (task : Task) : task.places.Pairwise (· < ·) := by
  cases task with
  | mk address classtype team worm children =>
    rw [places, List.pairwise_cons]
    refine ⟨fun place member => ?_, placesFrom_sorted 0 children⟩
    cases place with
    | nil => exact absurd member (nil_notMem_placesFrom 0 children)
    | cons k place => exact List.nil_lt_cons k place

theorem placesFrom_sorted (i : Nat) (children : List (Option Task)) :
    (placesFrom i children).Pairwise (· < ·) := by
  cases children with
  | nil => exact .nil
  | cons slot children =>
    have rest := placesFrom_sorted (i + 1) children
    cases slot with
    | none => exact rest
    | some child =>
      rw [placesFrom, List.pairwise_append, List.pairwise_map]
      refine ⟨(places_sorted child).imp fun less => ?_, rest, fun place below other member => ?_⟩
      · exact List.cons_lt_cons_iff.mpr (.inr ⟨rfl, less⟩)
      · obtain ⟨place, _, rfl⟩ := List.mem_map.mp below
        cases other with
        | nil => exact absurd member (nil_notMem_placesFrom (i + 1) children)
        | cons k other =>
          obtain ⟨_, _, ⟨further, _⟩, _⟩ := (mem_placesFrom (i + 1) children k other).mp member
          exact List.cons_lt_cons_iff.mpr (.inl further)

end

mutual

theorem traverse_places (task : Task) : task.places.map task.at? = task.traverse.map some := by
  cases task with
  | mk address classtype team worm children =>
    rw [places, traverse, List.map_cons, List.map_cons]
    congr 1
    exact traverse_placesFrom 0 children (mk address classtype team worm children) fun k => by simp [slots]

theorem traverse_placesFrom (i : Nat) (children : List (Option Task)) (task : Task)
    (slots_ : ∀ k, task.slots[i + k]? = children[k]?) :
    (placesFrom i children).map task.at? = (traverseChildren children).map some := by
  cases children with
  | nil => rfl
  | cons slot children =>
    have rest := traverse_placesFrom (i + 1) children task fun k => by
      rw [Nat.add_right_comm, Nat.add_assoc, slots_ (k + 1), List.getElem?_cons_succ]
    cases slot with
    | none => exact rest
    | some child =>
      have own := traverse_places child
      have first : task.slots[i]? = some (some child) := slots_ 0
      rw [placesFrom, traverseChildren, List.map_append, List.map_append, rest, ← own, List.map_map]
      congr 2
      funext place
      simp [at?, first]

end

mutual

theorem traverse_below (task : Task) :
    task.traverse.Perm (task :: task.traverse.flatMap children) := by
  cases task with
  | mk address classtype team worm slots =>
    rw [traverse, List.flatMap_cons]
    exact (traverseChildren_below slots).cons _

theorem traverseChildren_below (slots : List (Option Task)) :
    (traverseChildren slots).Perm
      (slots.filterMap id ++ (traverseChildren slots).flatMap children) := by
  cases slots with
  | nil => exact .nil
  | cons slot slots =>
    have rest := traverseChildren_below slots
    cases slot with
    | none => exact rest
    | some child =>
      have own := traverse_below child
      rw [traverseChildren, List.flatMap_append]
      have sums : (child.traverse ++ traverseChildren slots).Perm
          (child :: (child.traverse.flatMap children ++
            (slots.filterMap id ++ (traverseChildren slots).flatMap children))) := own.append rest
      exact sums.trans ((List.perm_append_comm_assoc _ _ _).cons child)

end

theorem writeWeaponChildren_eq (target : Nat) (index : Int) (entry : UInt32) (slots : List (Option Task)) :
    writeWeaponChildren target index entry slots =
      slots.map fun slot => slot.map (writeWeapon target index entry) := by
  induction slots with
  | nil => rfl
  | cons slot slots ih => cases slot <;> simp [writeWeaponChildren, ih]

/-- Every task stays where it is, and keeps all but the weapon of the worm at `target`. -/
structure Rewritten (target : Nat) (index : Int) (entry : UInt32) (before after : Task) : Prop where
  address : after.address = before.address
  classtype : after.classtype = before.classtype
  team : after.team = before.team
  worm : after.worm = if before.address = target then
    { before.worm with selectedWeapon := index, selectedWeaponEntry := entry } else before.worm
  slots : after.slots.length = before.slots.length

theorem writeWeapon_rewritten (target : Nat) (index : Int) (entry : UInt32) (task : Task) :
    Rewritten target index entry task (task.writeWeapon target index entry) := by
  cases task with
  | mk address classtype team worm slots_ =>
    refine ⟨rfl, rfl, rfl, rfl, ?_⟩
    change (writeWeaponChildren target index entry slots_).length = slots_.length
    rw [writeWeaponChildren_eq, List.length_map]

theorem at?_writeWeapon (target : Nat) (index : Int) (entry : UInt32) (task : Task) (place : List Nat) :
    (task.writeWeapon target index entry).at? place =
      (task.at? place).map (writeWeapon target index entry) := by
  induction place generalizing task with
  | nil => rfl
  | cons i place ih =>
    cases task with
    | mk address classtype team worm slots_ =>
      simp only [at?, writeWeapon, slots, writeWeaponChildren_eq, List.getElem?_map]
      cases slots_[i]? with
      | none => rfl
      | some slot =>
        cases slot with
        | none => rfl
        | some child => exact ih child

end Task

/-- A task tree in memory: no two tasks of it stand at the same address. -/
structure TaskTree where
  root : Task
  distinct : (root.traverse.map Task.address).Nodup

theorem TaskTree.children_apart (tree : TaskTree) :
    tree.root.traverse.Pairwise fun parent later =>
      ∀ child ∈ parent.children, ∀ other ∈ later.children, child ≠ other := by
  have below := ((tree.root.traverse_below.map Task.address).nodup_iff.mp tree.distinct).of_cons
  rw [List.map_flatMap, List.nodup_flatMap] at below
  refine below.2.imp fun apart child member other later same => ?_
  exact apart (List.mem_map_of_mem member) (same ▸ List.mem_map_of_mem later)

end WebControl.Dll
