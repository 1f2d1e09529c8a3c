import WkWebControl.Dll.OffsetCache

open Streams

namespace WebControl.Dll.Hooks

open PatternScanner

theorem forall_split_cons {α : Type} {P : List α → α → Prop} {a : α} {l : List α} :
    (∀ past now later, a :: l = past ++ now :: later → P past now) ↔
      P [] a ∧ ∀ past now later, l = past ++ now :: later → P (a :: past) now := by
  constructor
  · intro every
    exact ⟨every [] a l rfl, fun past now later split => every (a :: past) now later (by rw [split]; rfl)⟩
  · rintro ⟨here, rest⟩ past now later split
    cases past with
    | nil =>
      obtain ⟨rfl, -⟩ := List.cons.inj split
      exact here
    | cons b past =>
      obtain ⟨rfl, tail⟩ := List.cons.inj split
      exact rest past now later tail

theorem pairwise_iff_split {α : Type} {R : α → α → Prop} {l : List α} :
    l.Pairwise R ↔ ∀ past now later, l = past ++ now :: later → ∀ a ∈ past, R a now := by
  induction l with
  | nil => exact iff_of_true .nil fun past now later split => by simp at split
  | cons a l ih =>
    rw [forall_split_cons (P := fun past now => ∀ b ∈ past, R b now), List.pairwise_cons, ih]
    constructor
    · rintro ⟨first, rest⟩
      refine ⟨fun b member => absurd member List.not_mem_nil, fun past now later split b member => ?_⟩
      rcases List.mem_cons.mp member with rfl | member
      · exact first now (by simp [split])
      · exact rest past now later split b member
    · rintro ⟨-, rest⟩
      refine ⟨fun now member => ?_, fun past now later split b member =>
        rest past now later split b (List.mem_cons_of_mem a member)⟩
      obtain ⟨past, later, split⟩ := List.append_of_mem member
      exact rest past now later split a List.mem_cons_self

def FaithfulScans (image : Option Image) (h : Hooks) (scans : List ScanRequest) : Prop :=
  ∀ earlier r rest, scans = earlier ++ r :: rest →
    (scanPattern image (scanned image earlier h) r).1 = uncached image r

/-- Each scan of each launch answers as it would without the cache. -/
def Faithful (first : Option Text) (launches : List Launch) : Prop :=
  ∀ past now later, launches = past ++ now :: later →
    FaithfulScans now.image (loadOffsets (now.cacheFile (cacheAfter past first)) {}) now.scans

def Launch.comesThrough (l : Launch) : Bool :=
  l.hooked && l.scans.all fun r => findInMainModule l.image r.signature ≠ 0

/-- Of the file that was put in place last, and the launches that have gone on with it since: what `l`
    still has to do with. -/
def Launch.since (l : Launch) (file : Option Text) (had : List Launch) : Option Text × List Launch :=
  match l.replaced with
  | some other => (other, [])
  | none => (file, had)

/-- Whatever has been found for a name, by whoever wrote the file, by a launch since or by an earlier scan
    of this launch, is the address to be found for it now. -/
structure Agrees (file : Option Text) (had : List Launch) (now : Launch) : Prop where
  file : ∀ r ∈ now.scans, entry file r.name = 0 ∨ entry file r.name = findInMainModule now.image r.signature
  past : ∀ l ∈ had, l.comesThrough = true → ∀ s ∈ l.scans, ∀ r ∈ now.scans, s.name = r.name →
    findInMainModule l.image s.signature = findInMainModule now.image r.signature
  here : now.scans.Pairwise fun s r => s.name = r.name →
    findInMainModule now.image s.signature = 0 ∨
      findInMainModule now.image s.signature = findInMainModule now.image r.signature

instance (file : Option Text) (had : List Launch) (now : Launch) : Decidable (Agrees file had now) :=
  decidable_of_iff (_ ∧ _ ∧ _) ⟨fun ⟨file, past, here⟩ => ⟨file, past, here⟩,
    fun agrees => ⟨agrees.file, agrees.past, agrees.here⟩⟩

def Steady (file : Option Text) (had : List Launch) : List Launch → Prop
  | [] => True
  | now :: later => Agrees (now.since file had).1 (now.since file had).2 now ∧
      Steady (now.since file had).1 ((now.since file had).2 ++ [now]) later

instance Steady.decidable : ∀ file had launches, Decidable (Steady file had launches)
  | _, _, [] => .isTrue trivial
  | file, had, now :: later =>
    have := Steady.decidable (now.since file had).1 ((now.since file had).2 ++ [now]) later
    inferInstanceAs (Decidable (_ ∧ _))

section Scans

variable {image : Option Image} {h : Hooks} {r : ScanRequest} {scans : List ScanRequest}

theorem faithfulScans_cons : FaithfulScans image h (r :: scans) ↔
    (scanPattern image h r).1 = uncached image r ∧ FaithfulScans image (scanPattern image h r).2 scans :=
  forall_split_cons (P := fun earlier r => (scanPattern image (scanned image earlier h) r).1 = uncached image r)

theorem getD_faithful (faithful : (scanPattern image h r).1 = uncached image r) :
    (scanPattern image h r).2.scanNameToAddr.getD r.name 0 = findInMainModule image r.signature := by
  rw [scanPattern_getD, if_pos rfl]
  rcases scanPattern_eq_uncached_iff image h r |>.mp faithful with new | known
  · rw [new]
    by_cases nothing : findInMainModule image r.signature = 0 <;> simp [firstNonzero, nothing]
  · rw [known]
    by_cases nothing : findInMainModule image r.signature = 0 <;> simp [firstNonzero, nothing]

theorem FaithfulScans.known (faithful : FaithfulScans image h scans) (member : r ∈ scans)
    (known : h.scanNameToAddr.getD r.name 0 ≠ 0) :
    h.scanNameToAddr.getD r.name 0 = findInMainModule image r.signature := by
  obtain ⟨earlier, rest, split⟩ := List.append_of_mem member
  have answers := faithful earlier r rest split
  rw [scanPattern_eq_uncached_iff, scanned_getD, firstNonzero_cons, if_pos known] at answers
  exact answers.resolve_left known

theorem install_faithful (faithful : FaithfulScans image h scans) :
    ((install image scans h).1 = true ↔ ∀ r ∈ scans, findInMainModule image r.signature ≠ 0) ∧
      ((install image scans h).1 = true → ∀ r ∈ scans,
        (install image scans h).2.scanNameToAddr.getD r.name 0 = findInMainModule image r.signature) := by
  induction scans generalizing h with
  | nil => exact ⟨iff_of_true rfl fun r member => absurd member List.not_mem_nil,
      fun _ r member => absurd member List.not_mem_nil⟩
  | cons r scans ih =>
    obtain ⟨here, rest⟩ := faithfulScans_cons.mp faithful
    have stands := getD_faithful here
    obtain ⟨through, entries⟩ := ih rest
    by_cases nothing : findInMainModule image r.signature = 0
    · rw [uncached, if_pos nothing] at here
      have threw : scanPattern image h r = (.error (scanFailed r), (scanPattern image h r).2) := Prod.ext here rfl
      have fails : install image (r :: scans) h = (false, (scanPattern image h r).2) := by rw [install, threw]
      rw [fails]
      exact ⟨iff_of_false Bool.false_ne_true fun every => every r List.mem_cons_self nothing,
        fun done => absurd done Bool.false_ne_true⟩
    · rw [uncached, if_neg nothing] at here
      have answered : scanPattern image h r =
          (.ok (findInMainModule image r.signature), (scanPattern image h r).2) := Prod.ext here rfl
      have goes : install image (r :: scans) h = install image scans (scanPattern image h r).2 := by
        rw [install, answered]
      rw [goes, List.forall_mem_cons]
      refine ⟨through.trans (and_iff_right nothing).symm, fun done => List.forall_mem_cons.mpr ⟨?_, entries done⟩⟩
      rw [← stands] at nothing ⊢
      exact install_keeps image scans nothing

end Scans

/-- What the launches `had`, all of them faithful, have made of `file`. -/
structure Kept (file : Option Text) (had : List Launch) (current : Option Text) : Prop where
  source : ∀ name, entry current name ≠ 0 → entry file name = entry current name ∨
    ∃ l ∈ had, l.comesThrough = true ∧ ∃ s ∈ l.scans, s.name = name ∧
      findInMainModule l.image s.signature = entry current name
  file : ∀ name, entry file name ≠ 0 → entry current name = entry file name
  past : ∀ l ∈ had, l.comesThrough = true → ∀ s ∈ l.scans,
    entry current s.name = findInMainModule l.image s.signature

theorem Kept.start (file : Option Text) : Kept file [] file where
  source _ _ := .inl rfl
  file _ _ := rfl
  past _ member := absurd member List.not_mem_nil

section Launches

variable {file current : Option Text} {had : List Launch} {now : Launch}

theorem Launch.comesThrough_found {l : Launch} (comes : l.comesThrough = true) :
    ∀ r ∈ l.scans, findInMainModule l.image r.signature ≠ 0 := by
  intro r member
  have found := List.all_eq_true.mp ((Bool.and_eq_true _ _).mp comes).2 r member
  simpa using found

theorem Kept.since (kept : Kept file had current) (now : Launch) :
    Kept (now.since file had).1 (now.since file had).2 (now.cacheFile current) := by
  unfold Launch.since Launch.cacheFile
  cases now.replaced with
  | none => exact kept
  | some other => exact .start other

theorem Kept.agrees (kept : Kept file had current)
    (faithful : FaithfulScans now.image (loadOffsets current {}) now.scans) : Agrees file had now where
  file r member := by
    by_cases unknown : entry file r.name = 0
    · exact .inl unknown
    · right
      have same := kept.file r.name unknown
      rw [← same] at unknown ⊢
      exact faithful.known member unknown
  past l launched comes s scanned r member same := by
    have known := kept.past l launched comes s scanned
    have found := l.comesThrough_found comes s scanned
    rw [← known, same] at found ⊢
    exact faithful.known member found
  here := by
    rw [pairwise_iff_split]
    intro earlier r rest split s early same
    -- what `s` has found stands for the name when `r` is looked up, whatever was scanned in between
    by_cases nothing : findInMainModule now.image s.signature = 0
    · exact .inl nothing
    · right
      obtain ⟨before, between, rfl⟩ := List.append_of_mem early
      have stands := getD_faithful (faithful before s (between ++ r :: rest) (by rw [split]; simp))
      have answers := faithful (before ++ s :: between) r rest split
      have apart : scanned now.image (before ++ s :: between) (loadOffsets current {}) =
          scanned now.image between
            (scanPattern now.image (scanned now.image before (loadOffsets current {})) s).2 :=
        List.foldl_append
      rw [← stands] at nothing ⊢
      rw [same] at nothing ⊢
      rw [scanPattern_eq_uncached_iff, apart, scanned_getD, firstNonzero_cons, if_pos nothing] at answers
      exact answers.resolve_left nothing

theorem Kept.faithful (kept : Kept file had current) (agrees : Agrees file had now) :
    FaithfulScans now.image (loadOffsets current {}) now.scans := by
  intro earlier r rest split
  have member : r ∈ now.scans := by simp [split]
  rw [scanPattern_eq_uncached_iff, scanned_getD]
  apply (firstNonzero_mem _).imp_right
  rintro ⟨known, source⟩
  -- the address was in the file, or an earlier scan of the same launch has found it
  rcases List.mem_cons.mp source with entered | found
  · rw [entered] at known ⊢
    rcases kept.source r.name known with own | ⟨l, launched, comes, s, scanned, same, found⟩
    · change entry current r.name ≠ 0 at known
      change entry current r.name = _
      rw [← own] at known ⊢
      exact (agrees.file r member).resolve_left known
    · exact found.symm.trans (agrees.past l launched comes s scanned r member same)
  · obtain ⟨s, scanned, found⟩ := List.mem_map.mp found
    obtain ⟨early, same⟩ := List.mem_filter.mp scanned
    rw [← found] at known ⊢
    exact (pairwise_iff_split.mp agrees.here earlier r rest split s early (of_decide_eq_true same)).resolve_left known

theorem Kept.faithful_iff (kept : Kept file had current) :
    FaithfulScans now.image (loadOffsets current {}) now.scans ↔ Agrees file had now :=
  ⟨kept.agrees, kept.faithful⟩

theorem Kept.source_append (kept : Kept file had current) (more : List Launch) {name : String}
    (known : entry current name ≠ 0) : entry file name = entry current name ∨
      ∃ l ∈ had ++ more, l.comesThrough = true ∧ ∃ s ∈ l.scans, s.name = name ∧
        findInMainModule l.image s.signature = entry current name := by
  apply (kept.source name known).imp_right
  rintro ⟨l, launched, rest⟩
  exact ⟨l, List.mem_append_left _ launched, rest⟩

theorem completes_iff (faithful : FaithfulScans now.image (loadOffsets (now.cacheFile current) {}) now.scans) :
    completes now current = true ↔ now.comesThrough = true := by
  rw [completes, Launch.comesThrough, Bool.and_eq_true, Bool.and_eq_true, (install_faithful faithful).1,
    List.all_eq_true, and_comm]
  simp only [decide_eq_true_eq]

theorem Kept.next (kept : Kept file had (now.cacheFile current))
    (faithful : FaithfulScans now.image (loadOffsets (now.cacheFile current) {}) now.scans)
    (storable : ∀ r ∈ now.scans, Storable r.name) : Kept file (had ++ [now]) (dllMain now current) := by
  have through := completes_iff faithful
  by_cases done : completes now current = true
  · have entries := entry_completed done storable
    refine ⟨fun name known => ?_, fun name known => ?_, fun l member comes s scanned => ?_⟩
    · rw [entries] at known ⊢
      rcases install_source now.image now.scans (loadOffsets (now.cacheFile current) {}) name with
        same | ⟨r, member, own, found⟩
      · rw [same] at known ⊢
        exact kept.source_append [now] known
      · exact .inr ⟨now, by simp, through.mp done, r, member, own, found⟩
    · have same := kept.file name known
      rw [← same] at known ⊢
      rw [entries]
      exact install_keeps now.image now.scans known
    · rcases List.mem_append.mp member with launched | last
      · have found := l.comesThrough_found comes s scanned
        rw [← kept.past l launched comes s scanned] at found ⊢
        rw [entries]
        exact install_keeps now.image now.scans found
      · cases List.mem_singleton.mp last
        rw [entries]
        exact (install_faithful faithful).2 ((Bool.and_eq_true _ _).mp done).1 s scanned
  · rw [dllMain_failed done]
    refine ⟨fun name => kept.source_append [now], kept.file, fun l member comes => ?_⟩
    · rcases List.mem_append.mp member with launched | last
      · exact kept.past l launched comes
      · cases List.mem_singleton.mp last
        exact absurd (through.mpr comes) done

theorem faithful_cons {later : List Launch} : Faithful current (now :: later) ↔
    FaithfulScans now.image (loadOffsets (now.cacheFile current) {}) now.scans ∧
      Faithful (dllMain now current) later :=
  forall_split_cons (P := fun past (now : Launch) =>
    FaithfulScans now.image (loadOffsets (now.cacheFile (cacheAfter past current)) {}) now.scans)

theorem Kept.faithful_iff_steady {launches : List Launch} (kept : Kept file had current)
    (storable : ∀ l ∈ launches, ∀ r ∈ l.scans, Storable r.name) :
    Faithful current launches ↔ Steady file had launches := by
  induction launches generalizing file had current with
  | nil => exact iff_of_true (fun past now later split => by simp at split) trivial
  | cons now later ih =>
    rw [faithful_cons, Steady, ← (kept.since now).faithful_iff]
    refine and_congr_right fun faithful => ih ?_ fun l member => storable l (List.mem_cons_of_mem _ member)
    exact (kept.since now).next faithful (storable now List.mem_cons_self)

theorem Kept.run {launches : List Launch} (kept : Kept file had current)
    (storable : ∀ l ∈ launches, ∀ r ∈ l.scans, Storable r.name) (own : ∀ l ∈ launches, l.replaced = none)
    (faithful : Faithful current launches) : Kept file (had ++ launches) (cacheAfter launches current) := by
  induction launches generalizing had current with
  | nil =>
    rw [List.append_nil]
    exact kept
  | cons now later ih =>
    obtain ⟨here, rest⟩ := faithful_cons.mp faithful
    have same : now.cacheFile current = current := by
      rw [Launch.cacheFile, own now List.mem_cons_self, Option.getD_none]
    have next := (same.symm ▸ kept : Kept file had (now.cacheFile current)).next here
      (storable now List.mem_cons_self)
    have last := ih next (fun l member => storable l (List.mem_cons_of_mem _ member))
      (fun l member => own l (List.mem_cons_of_mem _ member)) rest
    rw [List.append_assoc, List.singleton_append] at last
    exact last

end Launches

/-- Of every sequence of launches whose names a text file can keep: the cache never changes an answer exactly
    if each launch finds for a name what has been found for it since the cache file was put in place. -/
theorem scanPattern_faithful_iff (first : Option Text) (launches : List Launch)
    (storable : ∀ l ∈ launches, ∀ r ∈ l.scans, Storable r.name) :
    (Faithful first launches ↔ Steady first [] launches) ∧
      ∀ l ∈ launches, ∀ r ∈ l.scans, Uncached l.image r :=
  ⟨(Kept.start first).faithful_iff_steady storable, fun l _ r _ => uncached_finds l.image r⟩

/-- The first launch after an update, which has moved the function by a byte. -/
def updated : Launch where
  image := some (wa [0x90, 0x55, 0x8b, 0xec] (by decide))
  scans := [turnHandler]

/-- Two launches before an update that the cache file goes with, and two after it. -/
def cleared : List Launch := [firstLaunch, firstLaunch, { updated with replaced := some none }, updated]

theorem scanPattern_faithful_iff_cleared : Faithful none cleared := by
  have storable : ∀ l ∈ cleared, ∀ r ∈ l.scans, Storable r.name := by decide +kernel
  exact (scanPattern_faithful_iff none cleared storable).1.mpr (by decide +kernel)

/-- The cache file stays, and has the address of before the update. -/
theorem scanPattern_stale : ¬ ∀ (first : Option Text) (launches : List Launch), Faithful first launches := by
  intro always
  have same := always none [firstLaunch, updated] [firstLaunch] updated [] rfl [] turnHandler [] rfl
  have addresses := congrArg Except.toOption same
  exact absurd addresses (by decide +kernel)

/-- These launches are of one build of WA, which is mapped to one place: each name is that of one signature, and
    nobody else writes the cache file. -/
structure OneBuild (image : Option Image) (signatureOf : String → Signature) (l : Launch) : Prop where
  image : l.image = image
  own : l.replaced = none
  scans : ∀ r ∈ l.scans, Storable r.name ∧ r.signature = signatureOf r.name

section OneBuild

variable {image : Option Image} {signatureOf : String → Signature} {had : List Launch}

theorem agrees_oneBuild (build : ∀ l ∈ had, OneBuild image signatureOf l) {now : Launch}
    (same : now.image = image) (signature : ∀ r ∈ now.scans, r.signature = signatureOf r.name) :
    Agrees none had now where
  file _ _ := .inl rfl
  past l launched _ s scanned r member name := by
    rw [(build l launched).image, ((build l launched).scans s scanned).2, same, signature r member, name]
  here := by
    rw [pairwise_iff_split]
    intro earlier r rest split s early name
    rw [signature s (by simp [split, early]), signature r (by simp [split]), name]
    exact .inr rfl

theorem steady_oneBuild {launches : List Launch} (build : ∀ l ∈ had, OneBuild image signatureOf l)
    (builds : ∀ l ∈ launches, OneBuild image signatureOf l) : Steady none had launches := by
  induction launches generalizing had with
  | nil => trivial
  | cons now later ih =>
    have here := builds now List.mem_cons_self
    have since : now.since none had = (none, had) := by rw [Launch.since, here.own]
    rw [Steady, since]
    refine ⟨agrees_oneBuild build here.image fun r member => (here.scans r member).2, ih ?_ fun l member =>
      builds l (List.mem_cons_of_mem _ member)⟩
    intro l member
    rcases List.mem_append.mp member with before | last
    · exact build l before
    · rw [List.mem_singleton.mp last]
      exact here

/-- In launches of one build the cache is never wrong. -/
theorem scanPattern_oneBuild {past : List Launch} (build : ∀ l ∈ past, OneBuild image signatureOf l)
    {earlier : List ScanRequest} (scans : ∀ r ∈ earlier, r.signature = signatureOf r.name) {r : ScanRequest}
    (signature : r.signature = signatureOf r.name) :
    (scanPattern image (scanned image earlier (loadOffsets (cacheAfter past none) {})) r).1 = uncached image r := by
  have storable : ∀ l ∈ past, ∀ s ∈ l.scans, Storable s.name :=
    fun l member s scanned => ((build l member).scans s scanned).1
  have faithful := ((Kept.start none).faithful_iff_steady storable).mpr
    (steady_oneBuild (fun l member => absurd member List.not_mem_nil) build)
  have kept := (Kept.start none).run storable (fun l member => (build l member).own) faithful
  rw [List.nil_append] at kept
  have agrees : Agrees none past { image, scans := earlier ++ [r] } := by
    apply agrees_oneBuild build rfl
    intro s member
    rcases List.mem_append.mp member with early | last
    · exact scans s early
    · rw [List.mem_singleton.mp last]
      exact signature
  exact kept.faithful_iff.mpr agrees earlier r [] rfl

end OneBuild

end WebControl.Dll.Hooks
