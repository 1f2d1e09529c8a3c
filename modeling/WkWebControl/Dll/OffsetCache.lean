import WkWebControl.Dll.Hooks

open Std (TreeMap)
open Streams

namespace WebControl.Dll.Hooks

open PatternScanner

def searches (image : Option Image) : List ScanRequest → Hooks → Nat
  | [], _ => 0
  | r :: scans, h =>
    let here := if h.scanNameToAddr.getD r.name 0 ≠ 0 then 0 else 1
    match scanPattern image h r with
    | (.ok _, h) => here + searches image scans h
    | (.error _, _) => here

def completes (l : Launch) (file : Option Text) : Bool :=
  (install l.image l.scans (loadOffsets (l.cacheFile file) {})).1 && l.hooked

section Scans

variable (image : Option Image) {h : Hooks} {name : String}

theorem scanPattern_keeps (r : ScanRequest) (known : h.scanNameToAddr.getD name 0 ≠ 0) :
    (scanPattern image h r).2.scanNameToAddr.getD name 0 = h.scanNameToAddr.getD name 0 := by
  rw [scanPattern_getD]
  split
  · rw [firstNonzero_cons, if_pos known]
  · rfl

theorem install_keeps (scans : List ScanRequest) (known : h.scanNameToAddr.getD name 0 ≠ 0) :
    (install image scans h).2.scanNameToAddr.getD name 0 = h.scanNameToAddr.getD name 0 := by
  induction scans generalizing h with
  | nil => rfl
  | cons r scans ih =>
    have here := scanPattern_keeps image r known
    rw [install]
    split
    · rename_i answered
      rw [answered] at here
      rw [← here] at known ⊢
      exact ih known
    · rename_i threw
      rw [threw] at here
      exact here

theorem scanPattern_known {r : ScanRequest} {a : UInt32} {after : Hooks}
    (answered : scanPattern image h r = (.ok a, after)) : after.scanNameToAddr.getD r.name 0 ≠ 0 := by
  have entry_ := scanPattern_getD image h r r.name
  rw [answered, if_pos rfl, firstNonzero_cons] at entry_
  rw [entry_]
  split
  · rename_i known
    exact known
  · rename_i unknown
    have new : h.scanNameToAddr.getD r.name 0 = 0 := not_not.mp unknown
    have found : findInMainModule image r.signature ≠ 0 := by
      intro nothing
      simp [scanPattern, new, nothing] at answered
    rw [firstNonzero_cons, if_pos found]
    exact found

theorem install_known {scans : List ScanRequest} (done : (install image scans h).1 = true) :
    ∀ r ∈ scans, (install image scans h).2.scanNameToAddr.getD r.name 0 ≠ 0 := by
  induction scans generalizing h with
  | nil => exact fun r member => absurd member List.not_mem_nil
  | cons r scans ih =>
    rw [install] at done ⊢
    split at done
    · rename_i a after answered
      intro s member
      rcases List.mem_cons.mp member with rfl | member
      · have known := scanPattern_known image answered
        rw [install_keeps image scans known]
        exact known
      · exact ih done s member
    · cases done

theorem scanPattern_unsaved (r : ScanRequest) (nothing : (scanPattern image h r).2.foundNewOffsets = false) :
    (scanPattern image h r).2 = h := by
  unfold scanPattern at nothing ⊢
  dsimp only at nothing ⊢
  split
  · rfl
  · split
    · rfl
    · rename_i unknown found
      rw [if_neg unknown, if_neg found] at nothing
      cases nothing

theorem install_unsaved {scans : List ScanRequest} (nothing : (install image scans h).2.foundNewOffsets = false) :
    (install image scans h).2 = h := by
  induction scans generalizing h with
  | nil => rfl
  | cons r scans ih =>
    have here := scanPattern_unsaved image (h := h) r
    rw [install] at nothing ⊢
    split at nothing
    · rename_i answered
      rw [answered] at here
      have same := ih nothing
      rw [same] at nothing ⊢
      exact here nothing
    · rename_i threw
      rw [threw] at here
      exact here nothing

theorem install_cached {scans : List ScanRequest} (known : ∀ r ∈ scans, h.scanNameToAddr.getD r.name 0 ≠ 0) :
    install image scans h = (true, h) ∧ searches image scans h = 0 := by
  induction scans with
  | nil => exact ⟨rfl, rfl⟩
  | cons r scans ih =>
    have first := known r List.mem_cons_self
    obtain ⟨done, none_⟩ := ih fun s member => known s (List.mem_cons_of_mem _ member)
    have cached : scanPattern image h r = (.ok (h.scanNameToAddr.getD r.name 0), h) := if_pos first
    constructor
    · rw [install, cached]
      exact done
    · simp only [searches, cached, if_pos first, none_]

end Scans

section Launches

variable {file : Option Text} {l : Launch}

theorem dllMain_completed (done : completes l file = true) :
    dllMain l file =
      saveOffsets (install l.image l.scans (loadOffsets (l.cacheFile file) {})).2 (l.cacheFile file) := by
  unfold dllMain
  exact if_pos done

theorem dllMain_failed (fails : completes l file ≠ true) : dllMain l file = l.cacheFile file := by
  unfold dllMain
  exact if_neg fails

theorem entry_completed (done : completes l file = true) (storable : ∀ r ∈ l.scans, Storable r.name) (name : String) :
    entry (dllMain l file) name =
      (install l.image l.scans (loadOffsets (l.cacheFile file) {})).2.scanNameToAddr.getD name 0 := by
  rw [dllMain_completed done, saveOffsets]
  split
  · exact entry_saved ((storableNames_load (l.cacheFile file)).install l.image storable) name
  · rename_i nothing
    rw [install_unsaved l.image (by simpa using nothing)]
    rfl

theorem entry_dllMain (own : l.replaced = none) (storable : ∀ r ∈ l.scans, Storable r.name) {name : String}
    (known : entry file name ≠ 0) : entry (dllMain l file) name = entry file name := by
  have same : l.cacheFile file = file := by rw [Launch.cacheFile, own, Option.getD_none]
  by_cases done : completes l file = true
  · rw [entry_completed done storable, same]
    exact install_keeps l.image l.scans known
  · rw [dllMain_failed done, same]

theorem entry_later {later : List Launch} (kept : ∀ m ∈ later, m.replaced = none ∧ ∀ r ∈ m.scans, Storable r.name)
    {name : String} (known : entry file name ≠ 0) : entry (cacheAfter later file) name = entry file name := by
  induction later generalizing file with
  | nil => rfl
  | cons m later ih =>
    obtain ⟨own, storable⟩ := kept m List.mem_cons_self
    have here := entry_dllMain own storable known
    change entry (cacheAfter later (dllMain m file)) name = _
    rw [← here] at known ⊢
    exact ih (fun n member => kept n (List.mem_cons_of_mem _ member)) known

theorem saveOffsets_loaded (file : Option Text) : saveOffsets (loadOffsets file {}) file = file := by
  have nothing : (loadOffsets file {}).foundNewOffsets = false := by cases file <;> rfl
  rw [saveOffsets, nothing, if_neg Bool.false_ne_true]

/-- Once a launch has come through, and as long as nobody puts another file in the place of the cache, each later
    launch that asks for no other names goes without a single search, whatever WA.exe it finds; its addresses are
    still those of that launch, and it leaves the file as it is. -/
theorem scanned_once (first : Option Text) (past later : List Launch) (l now : Launch)
    (done : completes l (cacheAfter past first) = true) (storable : ∀ r ∈ l.scans, Storable r.name)
    (kept : ∀ m ∈ later, m.replaced = none ∧ ∀ r ∈ m.scans, Storable r.name) (own : now.replaced = none)
    (names : ∀ r ∈ now.scans, ∃ s ∈ l.scans, s.name = r.name) :
    searches now.image now.scans (loadOffsets (now.cacheFile (cacheAfter (past ++ l :: later) first)) {}) = 0 ∧
    (∀ r ∈ now.scans, ∀ earlier,
      (scanPattern now.image (scanned now.image earlier
        (loadOffsets (now.cacheFile (cacheAfter (past ++ l :: later) first)) {})) r).1 =
          .ok (entry (cacheAfter (past ++ [l]) first) r.name)) ∧
    completes now (cacheAfter (past ++ l :: later) first) = now.hooked ∧
    dllMain now (cacheAfter (past ++ l :: later) first) = cacheAfter (past ++ l :: later) first := by
  have at_l : cacheAfter (past ++ [l]) first = dllMain l (cacheAfter past first) := by
    rw [cacheAfter, List.foldl_append]
    rfl
  have since : cacheAfter (past ++ l :: later) first = cacheAfter later (cacheAfter (past ++ [l]) first) := by
    rw [at_l, cacheAfter, List.foldl_append]
    rfl
  have known : ∀ r ∈ now.scans, entry (cacheAfter (past ++ [l]) first) r.name ≠ 0 := by
    intro r member
    obtain ⟨s, scanned, same⟩ := names r member
    rw [at_l, ← same, entry_completed done storable]
    exact install_known l.image ((Bool.and_eq_true _ _).mp done).1 s scanned
  have still : ∀ r ∈ now.scans, entry (cacheAfter (past ++ l :: later) first) r.name =
      entry (cacheAfter (past ++ [l]) first) r.name := by
    intro r member
    rw [since]
    exact entry_later kept (known r member)
  have file : now.cacheFile (cacheAfter (past ++ l :: later) first) = cacheAfter (past ++ l :: later) first := by
    rw [Launch.cacheFile, own, Option.getD_none]
  have there : ∀ r ∈ now.scans,
      (loadOffsets (cacheAfter (past ++ l :: later) first) {}).scanNameToAddr.getD r.name 0 ≠ 0 := by
    intro r member
    change entry _ r.name ≠ 0
    rw [still r member]
    exact known r member
  obtain ⟨cached, none_⟩ := install_cached now.image there
  rw [file]
  refine ⟨none_, fun r member earlier => ?_, ?_, ?_⟩
  · have found : (scanned now.image earlier
        (loadOffsets (cacheAfter (past ++ l :: later) first) {})).scanNameToAddr.getD r.name 0 =
          entry (cacheAfter (past ++ l :: later) first) r.name := by
      rw [scanned_getD, firstNonzero_cons, if_pos (there r member)]
      rfl
    have some_ := known r member
    rw [← still r member, ← found] at some_ ⊢
    exact congrArg Prod.fst (if_pos some_)
  · rw [completes, file, cached, Bool.true_and]
  · unfold dllMain
    rw [file, cached]
    dsimp only
    split
    · exact saveOffsets_loaded _
    · rfl

end Launches

def wa (bytes : List UInt8) (small : bytes.length ≤ 4096) : Image where
  base := 0x400000
  bytes
  mapped := by decide
  below := by
    have base : (0x400000 : UInt32).toNat = 4194304 := rfl
    omega

def turnHandler : ScanRequest where
  name := "CTurnGameHandleMessage"
  signature := { pattern := [0x55, 0x8b], mask := ['?', 'x'], covers := by decide }

def firstLaunch : Launch where
  image := some (wa [0x55, 0x8b, 0xec] (by decide))
  scans := [turnHandler]

theorem scanned_once_turnHandler :
    searches none [turnHandler] (loadOffsets (cacheAfter [firstLaunch] none) {}) = 0 := by
  have storable : ∀ r ∈ firstLaunch.scans, Storable r.name := by decide +kernel
  exact (scanned_once none [] [] firstLaunch { image := none, scans := [turnHandler] } (by decide +kernel) storable
    (fun m member => absurd member List.not_mem_nil) rfl fun r member => ⟨r, member, rfl⟩).1

end WebControl.Dll.Hooks
