import Mathlib.Data.UInt

namespace WebControl.Dll

structure Image where
  base : UInt32
  bytes : List UInt8
  mapped : base ≠ 0
  below : base.toNat + bytes.length < 2 ^ 32

theorem Image.base_pos (image : Image) : 0 < image.base.toNat := by
  by_contra zero
  exact image.mapped (UInt32.toNat.inj (Nat.le_zero.mp (Nat.not_lt.mp zero)))

def Image.read? (image : Image) (address : Nat) : Option UInt8 :=
  if image.base.toNat ≤ address then image.bytes[address - image.base.toNat]? else none

/-- A byte signature; the length of the mask is its length. -/
structure Signature where
  pattern : List UInt8
  mask : List Char
  covers : mask.length ≤ pattern.length

namespace PatternScanner

def matchAt : List UInt8 → List UInt8 → List Char → Bool
  | _, _, [] => true
  | b :: here, p :: pattern, m :: mask => if m = 'x' ∧ b ≠ p then false else matchAt here pattern mask
  | _, _, _ :: _ => false

def findFrom (signature : Signature) (p : UInt32) : List UInt8 → UInt32
  | [] => 0
  | b :: rest =>
    if (b :: rest).length < signature.mask.length then 0
    else if matchAt (b :: rest) signature.pattern signature.mask then p
    else findFrom signature (p + 1) rest

def findInMainModule (image : Option Image) (signature : Signature) : UInt32 :=
  match image with
  | none => 0
  | some image =>
    if signature.mask.length = 0 ∨ image.bytes.length < signature.mask.length then 0
    else findFrom signature image.base image.bytes

def Matches (signature : Signature) (here : List UInt8) : Prop :=
  signature.mask ≠ [] ∧ signature.mask.length ≤ here.length ∧
    ∀ k : Nat, signature.mask[k]? = some 'x' → here[k]? = signature.pattern[k]?

def Occurs (signature : Signature) (image : Image) (i : Nat) : Prop := Matches signature (image.bytes.drop i)

theorem matchAt_iff {here pattern : List UInt8} {mask : List Char} (long : mask.length ≤ here.length)
    (covers : mask.length ≤ pattern.length) :
    matchAt here pattern mask = true ↔ ∀ k : Nat, mask[k]? = some 'x' → here[k]? = pattern[k]? := by
  induction mask generalizing here pattern with
  | nil => simp [matchAt]
  | cons m mask ih =>
    cases here with
    | nil => cases long
    | cons b here =>
      cases pattern with
      | nil => cases covers
      | cons p pattern =>
        have rest : matchAt here pattern mask = true ↔ _ :=
          ih (Nat.le_of_succ_le_succ long) (Nat.le_of_succ_le_succ covers)
        rw [matchAt]
        constructor
        · intro all k
          split at all
          · cases all
          · rename_i same
            cases k with
            | zero =>
              intro marked
              cases marked
              simpa using same
            | succ k => exact rest.mp all k
        · intro all
          rw [if_neg, rest]
          · exact fun k => all (k + 1)
          · rintro ⟨rfl, other⟩
            exact other (Option.some.inj (all 0 rfl))

theorem matches_iff (signature : Signature) (here : List UInt8) :
    Matches signature here ↔ signature.mask ≠ [] ∧ signature.mask.length ≤ here.length ∧
      matchAt here signature.pattern signature.mask = true := by
  constructor
  · rintro ⟨some_, long, all⟩
    exact ⟨some_, long, (matchAt_iff long signature.covers).mpr all⟩
  · rintro ⟨some_, long, all⟩
    exact ⟨some_, long, (matchAt_iff long signature.covers).mp all⟩

theorem short_of_drop {signature : Signature} {here : List UInt8} (short : here.length < signature.mask.length)
    (i : Nat) : ¬ Matches signature (here.drop i) := by
  rintro ⟨_, long, _⟩
  rw [List.length_drop] at long
  omega

theorem findFrom_cases (signature : Signature) (some_ : signature.mask ≠ []) (p : UInt32) (rest : List UInt8) :
    (findFrom signature p rest = 0 ∧ ∀ i, ¬ Matches signature (rest.drop i)) ∨
      ∃ i, findFrom signature p rest = p + UInt32.ofNat i ∧ i < rest.length ∧ Matches signature (rest.drop i) ∧
        ∀ j < i, ¬ Matches signature (rest.drop j) := by
  have positive := List.length_pos_iff.mpr some_
  induction rest generalizing p with
  | nil => exact .inl ⟨rfl, short_of_drop positive⟩
  | cons b rest ih =>
    rw [findFrom]
    split
    · rename_i short
      exact .inl ⟨rfl, short_of_drop short⟩
    · rename_i long
      split
      · rename_i here
        refine .inr ⟨0, (UInt32.add_zero p).symm, Nat.succ_pos _, ?_, fun _ none_ => absurd none_ (Nat.not_lt_zero _)⟩
        exact (matches_iff signature _).mpr ⟨some_, Nat.not_lt.mp long, here⟩
      · rename_i elsewhere
        have other : ¬ Matches signature (b :: rest) := fun here => elsewhere ((matches_iff signature _).mp here).2.2
        rcases ih (p + 1) with ⟨nothing, nowhere⟩ | ⟨i, found, within, here, first⟩
        · refine .inl ⟨nothing, fun j => ?_⟩
          cases j with
          | zero => exact other
          | succ j => exact nowhere j
        · refine .inr ⟨i + 1, ?_, Nat.succ_lt_succ within, here, fun j before => ?_⟩
          · rw [found, UInt32.ofNat_add, UInt32.add_assoc, UInt32.add_comm 1]
            rfl
          · cases j with
            | zero => exact other
            | succ j => exact first j (Nat.lt_of_succ_lt_succ before)

/-- The signature occurs at the address `a`, and nowhere before it. -/
def FirstAt (signature : Signature) (image : Image) (a : UInt32) : Prop :=
  ∃ i, a.toNat = image.base.toNat + i ∧ Occurs signature image i ∧ ∀ j < i, ¬ Occurs signature image j

theorem findInMainModule_cases (image : Image) (signature : Signature) :
    (findInMainModule (some image) signature = 0 ∧ ∀ i, ¬ Occurs signature image i) ∨
      findInMainModule (some image) signature ≠ 0 ∧
        FirstAt signature image (findInMainModule (some image) signature) := by
  unfold findInMainModule
  dsimp only
  split
  · rename_i none_
    refine .inl ⟨rfl, fun i => ?_⟩
    rcases none_ with empty | short
    · exact fun here => here.1 (List.length_eq_zero_iff.mp empty)
    · exact short_of_drop short i
  · rename_i long
    have some_ : signature.mask ≠ [] := fun empty => long (.inl (List.length_eq_zero_iff.mpr empty))
    rcases findFrom_cases signature some_ image.base image.bytes with nothing | ⟨i, found, within, here, first⟩
    · exact .inl nothing
    · have below := image.below
      have place : (image.base + UInt32.ofNat i).toNat = image.base.toNat + i := by
        rw [UInt32.toNat_add, UInt32.toNat_ofNat_of_lt' (by change i < 2 ^ 32; omega), Nat.mod_eq_of_lt (by omega)]
      rw [found]
      refine .inr ⟨?_, i, place, here, first⟩
      intro zero
      have above := image.base_pos
      rw [zero] at place
      change 0 = _ at place
      omega

theorem findInMainModule_eq_zero_iff (image : Image) (signature : Signature) :
    findInMainModule (some image) signature = 0 ↔ ∀ i, ¬ Occurs signature image i := by
  rcases findInMainModule_cases image signature with ⟨nothing, nowhere⟩ | ⟨found, i, _, here, _⟩
  · exact iff_of_true nothing nowhere
  · exact iff_of_false found fun nowhere => nowhere i here

/-- The loop of `matchAt` from `i` on; none if it reads outside the image or the pattern. -/
def matchLoop (image : Image) (signature : Signature) (at_ i : Nat) : Option Bool :=
  if within : i < signature.mask.length then
    if signature.mask[i] = 'x' then
      match image.read? (at_ + i), signature.pattern[i]? with
      | some b, some p => if b ≠ p then some false else matchLoop image signature at_ (i + 1)
      | _, _ => none
    else matchLoop image signature at_ (i + 1)
  else some true
termination_by signature.mask.length - i

def findLoop (image : Image) (signature : Signature) (last p : Nat) : Option UInt32 :=
  if p ≤ last then
    match matchLoop image signature p 0 with
    | none => none
    | some true => some (UInt32.ofNat p)
    | some false => findLoop image signature last (p + 1)
  else some 0
termination_by last + 1 - p

def findByPointers (image : Option Image) (signature : Signature) : Option UInt32 :=
  match image with
  | none => some 0
  | some image =>
    let begin_ := image.base.toNat
    let end_ := begin_ + image.bytes.length
    if signature.mask.length = 0 ∨ end_ - begin_ < signature.mask.length then some 0
    else findLoop image signature (end_ - signature.mask.length) begin_

theorem read?_base (image : Image) (k : Nat) : image.read? (image.base.toNat + k) = image.bytes[k]? := by
  rw [Image.read?, if_pos (Nat.le_add_right _ _), Nat.add_sub_cancel_left]

theorem matchLoop_eq {image : Image} {signature : Signature} {k : Nat}
    (inside : k + signature.mask.length ≤ image.bytes.length) (i : Nat) :
    matchLoop image signature (image.base.toNat + k) i =
      some (matchAt (image.bytes.drop (k + i)) (signature.pattern.drop i) (signature.mask.drop i)) := by
  have covers := signature.covers
  induction left : signature.mask.length - i generalizing i with
  | zero =>
    have done : signature.mask.length ≤ i := Nat.sub_eq_zero_iff_le.mp left
    rw [matchLoop, dif_neg (Nat.not_lt.mpr done), List.drop_eq_nil_of_le done, matchAt]
  | succ n ih =>
    have within : i < signature.mask.length := by omega
    have byte : k + i < image.bytes.length := by omega
    have sign : i < signature.pattern.length := by omega
    have next := ih (i + 1) (by omega)
    rw [matchLoop, dif_pos within, List.drop_eq_getElem_cons within, List.drop_eq_getElem_cons byte,
      List.drop_eq_getElem_cons sign, matchAt, Nat.add_assoc image.base.toNat, read?_base,
      List.getElem?_eq_getElem byte, List.getElem?_eq_getElem sign, next]
    dsimp only
    split
    · rename_i marked
      by_cases same : image.bytes[k + i] = signature.pattern[i]
      · rw [if_neg (not_not.mpr same), if_neg fun other => other.2 same, Nat.add_assoc]
      · rw [if_pos same, if_pos ⟨marked, same⟩]
    · rename_i wildcard
      rw [if_neg fun other => wildcard other.1, Nat.add_assoc]

theorem findLoop_eq {image : Image} {signature : Signature} (some_ : signature.mask ≠ [])
    (long : signature.mask.length ≤ image.bytes.length) (k : Nat) :
    findLoop image signature (image.base.toNat + image.bytes.length - signature.mask.length) (image.base.toNat + k) =
      some (findFrom signature (UInt32.ofNat (image.base.toNat + k)) (image.bytes.drop k)) := by
  have positive := List.length_pos_iff.mpr some_
  induction left : image.bytes.length - k generalizing k with
  | zero =>
    have done : image.bytes.length ≤ k := Nat.sub_eq_zero_iff_le.mp left
    rw [findLoop, if_neg (by omega), List.drop_eq_nil_of_le done, findFrom]
  | succ n ih =>
    have byte : k < image.bytes.length := by omega
    have next := ih (k + 1) (by omega)
    have rest : (image.bytes[k] :: image.bytes.drop (k + 1)).length = image.bytes.length - k := by
      rw [← List.drop_eq_getElem_cons byte, List.length_drop]
    rw [findLoop, List.drop_eq_getElem_cons byte, findFrom, rest]
    by_cases inside : k + signature.mask.length ≤ image.bytes.length
    · rw [if_pos (by omega), if_neg (by omega), matchLoop_eq inside, ← List.drop_eq_getElem_cons byte]
      simp only [Nat.add_zero, List.drop_zero]
      cases matchAt (image.bytes.drop k) signature.pattern signature.mask with
      | true => rfl
      | false =>
        dsimp only
        rw [Nat.add_assoc, next, if_neg Bool.false_ne_true, ← Nat.add_assoc, UInt32.ofNat_add]
        rfl
    · rw [if_neg (by omega), if_pos (by omega)]

/-- The whole pattern lies inside the image at the offset `i`, and every `x` of the mask matches. -/
def MatchesAt (signature : Signature) (image : Image) (i : Nat) : Prop :=
  i + signature.mask.length ≤ image.bytes.length ∧
    ∀ k : Nat, signature.mask[k]? = some 'x' → image.bytes[i + k]? = signature.pattern[k]?

theorem occurs_iff (signature : Signature) (image : Image) (i : Nat) :
    Occurs signature image i ↔ signature.mask ≠ [] ∧ MatchesAt signature image i := by
  unfold Occurs Matches MatchesAt
  simp only [List.getElem?_drop, List.length_drop]
  apply and_congr_right
  intro some_
  have positive := List.length_pos_iff.mpr some_
  apply and_congr_left'
  omega

theorem findByPointers_eq (image : Image) (signature : Signature) :
    findByPointers (some image) signature = some (findInMainModule (some image) signature) := by
  unfold findByPointers findInMainModule
  dsimp only
  rw [Nat.add_sub_cancel_left]
  split
  · rfl
  · rename_i fits
    have some_ : signature.mask ≠ [] := fun empty => fits (.inl (List.length_eq_zero_iff.mpr empty))
    have long : signature.mask.length ≤ image.bytes.length := Nat.not_lt.mp fun short => fits (.inr short)
    have found := findLoop_eq some_ long 0
    rw [Nat.add_zero, UInt32.ofNat_toNat, List.drop_zero] at found
    exact found

theorem found_nothing_iff (image : Image) (signature : Signature) :
    findInMainModule (some image) signature = 0 ↔ signature.mask = [] ∨
      image.bytes.length < signature.mask.length ∨ ∀ i, ¬ MatchesAt signature image i := by
  have occurs := occurs_iff signature image
  rw [findInMainModule_eq_zero_iff]
  constructor
  · intro nowhere
    by_cases empty : signature.mask = []
    · exact .inl empty
    · exact .inr (.inr fun i here => nowhere i ((occurs i).mpr ⟨empty, here⟩))
  · intro nothing i here
    obtain ⟨some_, there⟩ := (occurs i).mp here
    rcases nothing with empty | short | nowhere
    · exact some_ empty
    · have inside := there.1
      omega
    · exact nowhere i there

theorem found_at_iff (image : Image) (signature : Signature) (i : Nat) :
    (findInMainModule (some image) signature).toNat = image.base.toNat + i ↔
      Occurs signature image i ∧ ∀ j < i, ¬ Occurs signature image j := by
  rcases findInMainModule_cases image signature with ⟨nothing, nowhere⟩ | ⟨_, j, place, there, before⟩
  · have above := image.base_pos
    rw [nothing]
    refine iff_of_false ?_ fun here => nowhere i here.1
    change ¬ 0 = _
    omega
  · rw [place]
    constructor
    · intro same
      cases Nat.add_left_cancel same
      exact ⟨there, before⟩
    · intro ⟨here, first⟩
      have same : j = i := by
        apply Nat.le_antisymm
        · exact Nat.not_lt.mp fun less => before i less here
        · exact Nat.not_lt.mp fun less => first j less there
      rw [same]

/-- The lowest offset at which the signature matches is found, if there is one, and no byte is read outside the
    image. -/
theorem findInMainModule_lowest (image : Image) (signature : Signature) :
    findByPointers (some image) signature = some (findInMainModule (some image) signature) ∧
    (findInMainModule (some image) signature = 0 ↔ signature.mask = [] ∨
      image.bytes.length < signature.mask.length ∨ ∀ i, ¬ MatchesAt signature image i) ∧
    ∀ i, (findInMainModule (some image) signature).toNat = image.base.toNat + i ↔
      signature.mask ≠ [] ∧ MatchesAt signature image i ∧ ∀ j < i, ¬ MatchesAt signature image j := by
  refine ⟨findByPointers_eq image signature, found_nothing_iff image signature, fun i => ?_⟩
  rw [found_at_iff]
  simp only [occurs_iff]
  constructor
  · intro ⟨⟨some_, here⟩, first⟩
    exact ⟨some_, here, fun j before there => first j before ⟨some_, there⟩⟩
  · intro ⟨some_, here, first⟩
    exact ⟨⟨some_, here⟩, fun j before there => first j before there.2⟩

end PatternScanner

end WebControl.Dll
