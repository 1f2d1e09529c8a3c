import WkWebControl.Dll.PatternScanner
import WkWebControl.Streams

open Std (TreeMap)
open Streams

namespace WebControl.Dll

structure ScanRequest where
  name : String
  signature : Signature
  line : Option String := none

structure Hooks where
  scanNameToAddr : TreeMap String UInt32 := ∅
  foundNewOffsets : Bool := false

namespace Hooks

open PatternScanner

def scanFailed (r : ScanRequest) : String :=
  "Pattern scan failed for '" ++ r.name ++ "' at " ++ r.line.getD "?" ++ " (signature not found in WA.exe)"

def scanPattern (image : Option Image) (h : Hooks) (r : ScanRequest) : Except String UInt32 × Hooks :=
  let known := h.scanNameToAddr.getD r.name 0
  if known ≠ 0 then (.ok known, h)
  else
    let addr := findInMainModule image r.signature
    if addr = 0 then (.error (scanFailed r), h)
    else (.ok addr, { scanNameToAddr := h.scanNameToAddr.insert r.name addr, foundNewOffsets := true })

def loadOffsets (file : Option Text) (h : Hooks) : Hooks :=
  match file with
  | none => h
  | some text =>
    { h with scanNameToAddr := h.scanNameToAddr.insertMany (records (textIn text).length (textIn text)) }

def saveOffsets (h : Hooks) (file : Option Text) : Option Text :=
  if h.foundNewOffsets then some (textOut (h.scanNameToAddr.toList.flatMap showRecord)) else file

/-- The scans of `install`, up to the first that throws. -/
def install (image : Option Image) : List ScanRequest → Hooks → Bool × Hooks
  | [], h => (true, h)
  | r :: scans, h =>
    match scanPattern image h r with
    | (.ok _, h) => install image scans h
    | (.error _, h) => (false, h)

structure Launch where
  image : Option Image
  /-- The cache file that someone has put in the place of the one left before. -/
  replaced : Option (Option Text) := none
  scans : List ScanRequest
  /-- Nothing but a scan makes `install` throw. -/
  hooked : Bool := true

def Launch.cacheFile (l : Launch) (file : Option Text) : Option Text := l.replaced.getD file

def dllMain (l : Launch) (file : Option Text) : Option Text :=
  let (done, h) := install l.image l.scans (loadOffsets (l.cacheFile file) {})
  if done && l.hooked then saveOffsets h (l.cacheFile file) else l.cacheFile file

def cacheAfter (launches : List Launch) (first : Option Text) : Option Text :=
  launches.foldl (fun file l => dllMain l file) first

def scanned (image : Option Image) (scans : List ScanRequest) (h : Hooks) : Hooks :=
  scans.foldl (fun h r => (scanPattern image h r).2) h

def uncached (image : Option Image) (r : ScanRequest) : Except String UInt32 :=
  let addr := findInMainModule image r.signature
  if addr = 0 then .error (scanFailed r) else .ok addr

def firstNonzero (addresses : List UInt32) : UInt32 := (addresses.find? (· ≠ 0)).getD 0

def entry (file : Option Text) (name : String) : UInt32 := (loadOffsets file {}).scanNameToAddr.getD name 0

def founds (image : Option Image) (scans : List ScanRequest) (name : String) : List UInt32 :=
  (scans.filter (·.name = name)).map fun r => findInMainModule image r.signature

theorem firstNonzero_cons (a : UInt32) (rest : List UInt32) :
    firstNonzero (a :: rest) = if a ≠ 0 then a else firstNonzero rest := by
  by_cases zero : a = 0 <;> simp [firstNonzero, zero]

theorem firstNonzero_pair (a b : UInt32) (rest : List UInt32) :
    firstNonzero (firstNonzero [a, b] :: rest) = firstNonzero (a :: b :: rest) := by
  by_cases first : a = 0
  · by_cases second : b = 0 <;> simp [firstNonzero, first, second]
  · simp [firstNonzero, first]

theorem getD_insert (m : TreeMap String UInt32) (name other : String) (a : UInt32) :
    (m.insert name a).getD other 0 = if name = other then a else m.getD other 0 := by
  rw [TreeMap.getD_insert]
  simp only [Std.LawfulEqCmp.compare_eq_iff_eq]

theorem scanPattern_getD (image : Option Image) (h : Hooks) (r : ScanRequest) (name : String) :
    (scanPattern image h r).2.scanNameToAddr.getD name 0 =
      if r.name = name then firstNonzero [h.scanNameToAddr.getD name 0, findInMainModule image r.signature]
      else h.scanNameToAddr.getD name 0 := by
  unfold scanPattern
  by_cases known : h.scanNameToAddr.getD r.name 0 ≠ 0
  · simp only [known, if_true, ne_eq, not_false_eq_true]
    split
    · rename_i same
      subst same
      rw [firstNonzero_cons, if_pos known]
    · rfl
  · have new : h.scanNameToAddr.getD r.name 0 = 0 := not_not.mp known
    by_cases nothing : findInMainModule image r.signature = 0
    · simp only [new, nothing, ne_eq, not_true_eq_false, if_false, if_true]
      split
      · rename_i same
        subst same
        rw [new]
        rfl
      · rfl
    · simp only [new, nothing, ne_eq, not_true_eq_false, if_false, getD_insert]
      split
      · rename_i same
        subst same
        rw [new, firstNonzero_cons, if_neg (by simp), firstNonzero_cons, if_pos nothing]
      · rfl

theorem scanned_getD (image : Option Image) (scans : List ScanRequest) (h : Hooks) (name : String) :
    (scanned image scans h).scanNameToAddr.getD name 0 =
      firstNonzero (h.scanNameToAddr.getD name 0 :: founds image scans name) := by
  induction scans generalizing h with
  | nil =>
    change h.scanNameToAddr.getD name 0 = firstNonzero [h.scanNameToAddr.getD name 0]
    rw [firstNonzero_cons]
    split
    · rfl
    · rename_i zero
      exact not_not.mp zero
  | cons r scans ih =>
    change (scanned image scans (scanPattern image h r).2).scanNameToAddr.getD name 0 = _
    rw [ih, scanPattern_getD]
    unfold founds
    by_cases same : r.name = name
    · rw [if_pos same, List.filter_cons_of_pos (by simpa using same), List.map_cons]
      exact firstNonzero_pair _ _ _
    · rw [if_neg same, List.filter_cons_of_neg (by simpa using same)]

theorem scanPattern_eq_uncached_iff (image : Option Image) (h : Hooks) (r : ScanRequest) :
    (scanPattern image h r).1 = uncached image r ↔
      h.scanNameToAddr.getD r.name 0 = 0 ∨
        h.scanNameToAddr.getD r.name 0 = findInMainModule image r.signature := by
  unfold scanPattern uncached
  by_cases known : h.scanNameToAddr.getD r.name 0 = 0
  · simp only [known, ne_eq, not_true_eq_false, if_false, true_or, iff_true]
    split <;> rfl
  · simp only [known, ne_eq, not_false_eq_true, if_true, false_or]
    split
    · rename_i nothing
      rw [nothing]
      exact iff_of_false (fun same => by cases same) known
    · rw [Except.ok.injEq]

theorem firstNonzero_mem (addresses : List UInt32) :
    firstNonzero addresses = 0 ∨ firstNonzero addresses ≠ 0 ∧ firstNonzero addresses ∈ addresses := by
  unfold firstNonzero
  cases found : addresses.find? (· ≠ 0) with
  | none => exact .inl rfl
  | some a => exact .inr ⟨by simpa using List.find?_some found, List.mem_of_find?_eq_some found⟩

theorem scanPattern_source (image : Option Image) (h : Hooks) (r : ScanRequest) (name : String) :
    (scanPattern image h r).2.scanNameToAddr.getD name 0 = h.scanNameToAddr.getD name 0 ∨
      r.name = name ∧ findInMainModule image r.signature = (scanPattern image h r).2.scanNameToAddr.getD name 0 := by
  rw [scanPattern_getD]
  split
  · rename_i same
    by_cases known : h.scanNameToAddr.getD name 0 = 0
    · right
      refine ⟨same, ?_⟩
      rw [firstNonzero_cons, if_neg (by simpa using known), firstNonzero_cons]
      split
      · rfl
      · rename_i nothing
        exact not_not.mp nothing
    · left
      rw [firstNonzero_cons, if_pos known]
  · exact .inl rfl

theorem install_source (image : Option Image) (scans : List ScanRequest) (h : Hooks) (name : String) :
    (install image scans h).2.scanNameToAddr.getD name 0 = h.scanNameToAddr.getD name 0 ∨
      ∃ r ∈ scans, r.name = name ∧
        findInMainModule image r.signature = (install image scans h).2.scanNameToAddr.getD name 0 := by
  induction scans generalizing h with
  | nil => exact .inl rfl
  | cons r scans ih =>
    have here := scanPattern_source image h r name
    rw [install]
    split
    · rename_i answered
      rw [answered] at here
      rcases ih _ with same | ⟨other, member, own, found⟩
      · rw [same]
        exact here.imp_right fun ⟨own, found⟩ => ⟨r, List.mem_cons_self, own, found⟩
      · exact .inr ⟨other, List.mem_cons_of_mem _ member, own, found⟩
    · rename_i threw
      rw [threw] at here
      exact here.imp_right fun ⟨own, found⟩ => ⟨r, List.mem_cons_self, own, found⟩

structure Uncached (image : Option Image) (r : ScanRequest) : Prop where
  throws : ∀ wa, image = some wa →
    ((∃ message, uncached image r = .error message) ↔ ∀ i, ¬ Occurs r.signature wa i)
  returns : ∀ wa a, image = some wa → uncached image r = .ok a → FirstAt r.signature wa a

theorem uncached_finds (image : Option Image) (r : ScanRequest) : Uncached image r where
  throws := by
    rintro wa rfl
    rw [← findInMainModule_eq_zero_iff, uncached]
    split
    · rename_i nothing
      exact iff_of_true ⟨_, rfl⟩ nothing
    · rename_i found
      exact iff_of_false (fun ⟨_, threw⟩ => by cases threw) found
  returns := by
    rintro wa a rfl found
    unfold uncached at found
    dsimp only at found
    split at found
    · cases found
    · rename_i some_
      cases found
      rcases findInMainModule_cases wa r.signature with ⟨nothing, _⟩ | ⟨_, first⟩
      · exact absurd nothing some_
      · exact first

def PlainNames (h : Hooks) : Prop := ∀ name ∈ h.scanNameToAddr, Plain name

def StorableNames (h : Hooks) : Prop := ∀ name ∈ h.scanNameToAddr, Storable name

theorem storableNames_load (file : Option Text) : StorableNames (loadOffsets file {}) := by
  intro name member
  cases file with
  | none => exact absurd member TreeMap.not_mem_emptyc
  | some text =>
    rcases TreeMap.mem_insertMany_list.mp member with old | new
    · exact absurd old TreeMap.not_mem_emptyc
    · obtain ⟨record, read, rfl⟩ := List.mem_map.mp (List.contains_iff_mem.mp new)
      obtain ⟨from_, rest, within, read⟩ := word_of_record read
      exact ⟨plain_word read, fun ends => not_mem_textIn text (within.subset (word_subset read ends))⟩

theorem StorableNames.scan {h : Hooks} (names : StorableNames h) (image : Option Image) {r : ScanRequest}
    (storable : Storable r.name) : StorableNames (scanPattern image h r).2 := by
  unfold scanPattern
  dsimp only
  split
  · exact names
  · split
    · exact names
    · intro name member
      rcases TreeMap.mem_insert.mp member with same | old
      · rw [← Std.LawfulEqCmp.compare_eq_iff_eq.mp same]
        exact storable
      · exact names name old

theorem StorableNames.install {h : Hooks} (names : StorableNames h) (image : Option Image) {scans : List ScanRequest}
    (storable : ∀ r ∈ scans, Storable r.name) : StorableNames (install image scans h).2 := by
  induction scans generalizing h with
  | nil => exact names
  | cons r scans ih =>
    have kept := names.scan image (storable r List.mem_cons_self)
    rw [Hooks.install]
    split
    · rename_i answered
      rw [answered] at kept
      exact ih kept fun other member => storable other (List.mem_cons_of_mem _ member)
    · rename_i threw
      rw [threw] at kept
      exact kept

theorem loaded_saved {h : Hooks} (names : StorableNames h) (name : String) :
    (loadOffsets (some (textOut (h.scanNameToAddr.toList.flatMap showRecord))) {}).scanNameToAddr[name]? =
      h.scanNameToAddr[name]? := by
  have storable : ∀ record ∈ h.scanNameToAddr.toList, Storable record.1 := by
    rintro ⟨name, a⟩ member
    apply names
    rw [TreeMap.mem_iff_isSome_getElem?, TreeMap.mem_toList_iff_getElem?_eq_some.mp member]
    rfl
  change (TreeMap.insertMany ∅ (records _ _))[name]? = _
  have read := records_showRecords fun record member => (storable record member).1
  rw [textIn_showRecords storable, read]
  cases known : h.scanNameToAddr[name]? with
  | some a =>
    exact TreeMap.getElem?_insertMany_list_of_mem Std.ReflCmp.compare_self TreeMap.distinct_keys_toList
      (TreeMap.mem_toList_iff_getElem?_eq_some.mpr known)
  | none =>
    rw [TreeMap.getElem?_insertMany_list_of_contains_eq_false]
    · rfl
    · rw [TreeMap.map_fst_toList_eq_keys, TreeMap.contains_keys, TreeMap.contains_eq_isSome_getElem?, known]
      rfl

theorem entry_saved {h : Hooks} (names : StorableNames h) (name : String) :
    entry (some (textOut (h.scanNameToAddr.toList.flatMap showRecord))) name = h.scanNameToAddr.getD name 0 := by
  rw [entry, TreeMap.getD_eq_getD_getElem?, loaded_saved names, TreeMap.getD_eq_getD_getElem?]

/-- A map of plain names is restored exactly if no name ends the file. -/
theorem loadOffsets_restores_iff {h : Hooks} (plain : PlainNames h) (new : h.foundNewOffsets = true)
    (file : Option Text) :
    (∀ name : String, (loadOffsets (saveOffsets h file) {}).scanNameToAddr[name]? = h.scanNameToAddr[name]?) ↔
      ∀ name ∈ h.scanNameToAddr, '\x1a' ∉ name.toList := by
  constructor
  · intro restored name member
    apply And.right
    apply storableNames_load (saveOffsets h file)
    rw [TreeMap.mem_iff_isSome_getElem?] at member ⊢
    rw [restored]
    exact member
  · intro goes name
    rw [saveOffsets, if_pos new]
    exact loaded_saved (fun name member => ⟨plain name member, goes name member⟩) name

def finds (table : List (String × UInt32)) : Hooks where
  scanNameToAddr := TreeMap.ofList table
  foundNewOffsets := true

theorem mem_finds {table : List (String × UInt32)} {name : String} :
    name ∈ (finds table).scanNameToAddr ↔ name ∈ table.map Prod.fst :=
  TreeMap.mem_ofList.trans List.contains_iff_mem

theorem loadOffsets_restores_hexNames :
    let h := finds [("deadbeef", 0), ("0x10", 0xffffffff), ("-1", 0x5fe300)]
    ∀ name : String, (loadOffsets (saveOffsets h none) {}).scanNameToAddr[name]? = h.scanNameToAddr[name]? := by
  refine (loadOffsets_restores_iff ?_ rfl none).mpr ?_
  · have plain : ∀ name ∈ ["deadbeef", "0x10", "-1"], Plain name := by decide +kernel
    exact fun name member => plain name (mem_finds.mp member)
  · have goes : ∀ name ∈ ["deadbeef", "0x10", "-1"], '\x1a' ∉ name.toList := by decide +kernel
    exact fun name member => goes name (mem_finds.mp member)

/-- A name of the character that ends a text file: nothing is read of what follows. -/
theorem loadOffsets_loses : ¬ ∀ (h : Hooks) (file : Option Text), PlainNames h → h.foundNewOffsets = true →
    ∀ name : String, (loadOffsets (saveOffsets h file) {}).scanNameToAddr[name]? = h.scanNameToAddr[name]? := by
  intro always
  have plain : ∀ name ∈ ["\x1a", "b"], Plain name := by decide +kernel
  have same := always (finds [("\x1a", 1), ("b", 2)]) none (fun name member => plain name (mem_finds.mp member)) rfl "b"
  exact absurd same (by decide +kernel)

end Hooks

end WebControl.Dll
