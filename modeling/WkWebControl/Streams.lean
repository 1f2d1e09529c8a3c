import Mathlib.Data.List.TakeWhile
import Mathlib.Data.String.Basic
import Mathlib.Data.UInt

namespace Streams

abbrev Text := List Char

def isSpace (c : Char) : Bool :=
  c == ' ' || c == '\t' || c == '\n' || c == '\x0b' || c == '\x0c' || c == '\r'

def skip (text : Text) : Text := text.dropWhile isSpace

/-- `in >> word` -/
def word (text : Text) : Option (String × Text) :=
  if skip text = [] then none
  else some (String.ofList ((skip text).takeWhile (!isSpace ·)), (skip text).dropWhile (!isSpace ·))

def hexDigit? (c : Char) : Option Nat :=
  if '0' ≤ c ∧ c ≤ '9' then some (c.toNat - 48)
  else if 'a' ≤ c ∧ c ≤ 'f' then some (c.toNat - 87)
  else if 'A' ≤ c ∧ c ≤ 'F' then some (c.toNat - 55)
  else none

def isHexDigit (c : Char) : Bool := (hexDigit? c).isSome

def ofHexDigits (digits : Text) : Nat := digits.foldl (fun n c => 16 * n + (hexDigit? c).getD 0) 0

def sign : Text → Bool × Text
  | '-' :: text => (true, text)
  | '+' :: text => (false, text)
  | text => (false, text)

def unprefixed : Text → Text
  | '0' :: 'x' :: text => text
  | '0' :: 'X' :: text => text
  | text => text

/-- `in >> std::hex >> number`, where the number has 32 bits and no sign of its own. -/
def hex (text : Text) : Option (UInt32 × Text) :=
  let (negative, text) := sign (skip text)
  let digits := (unprefixed text).takeWhile isHexDigit
  let rest := (unprefixed text).dropWhile isHexDigit
  if digits = [] ∨ 2 ^ 32 ≤ ofHexDigits digits then none
  else some (if negative then - UInt32.ofNat (ofHexDigits digits) else UInt32.ofNat (ofHexDigits digits), rest)

def showHex (n : UInt32) : Text := Nat.toDigits 16 n.toNat

/-- What a stream reads as one word. -/
def Plain (name : String) : Prop := name.toList ≠ [] ∧ ∀ c ∈ name.toList, isSpace c = false

instance (name : String) : Decidable (Plain name) :=
  decidable_of_iff (name.toList ≠ [] ∧ name.toList.all (!isSpace ·) = true) (by simp [Plain])

theorem skip_cons {c : Char} (other : isSpace c = false) (text : Text) : skip (c :: text) = c :: text := by
  rw [skip, List.dropWhile_cons, other]
  rfl

theorem skip_plain {name : String} (plain : Plain name) (text : Text) :
    skip (name.toList ++ text) = name.toList ++ text := by
  obtain ⟨some_, visible⟩ := plain
  cases letters : name.toList with
  | nil => exact absurd letters some_
  | cons c rest =>
    rw [letters] at visible
    exact skip_cons (visible c List.mem_cons_self) _

theorem word_plain {name : String} (plain : Plain name) {c : Char} (space : isSpace c = true) (text : Text) :
    word (name.toList ++ c :: text) = some (name, c :: text) := by
  have visible : ∀ c ∈ name.toList, (!isSpace c) = true := fun c member => by rw [plain.2 c member]; rfl
  rw [word, skip_plain plain, if_neg (by simp), List.takeWhile_append_of_pos visible,
    List.dropWhile_append_of_pos visible, List.takeWhile_cons, List.dropWhile_cons, space]
  simp

theorem plain_word {text rest : Text} {name : String} (read : word text = some (name, rest)) : Plain name := by
  unfold word at read
  split at read
  · cases read
  · rename_i some_
    cases read
    rw [Plain, String.toList_ofList]
    constructor
    · cases skipped : skip text with
      | nil => exact absurd skipped some_
      | cons c rest =>
        have visible : isSpace c = false := by
          by_contra space
          rw [Bool.not_eq_false] at space
          have head := List.head?_dropWhile_not isSpace text
          unfold skip at skipped
          rw [skipped] at head
          simp [space] at head
        rw [List.takeWhile_cons, visible]
        simp
    · intro c member
      simpa using List.mem_takeWhile_imp member

theorem hexDigit?_digitChar {n : Nat} (small : n < 16) : hexDigit? n.digitChar = some n := by
  revert n
  decide

theorem ofHexDigits_append (digits : Text) (c : Char) :
    ofHexDigits (digits ++ [c]) = 16 * ofHexDigits digits + (hexDigit? c).getD 0 := by
  rw [ofHexDigits, List.foldl_append]
  rfl

theorem toDigits_hex (n : Nat) :
    ofHexDigits (Nat.toDigits 16 n) = n ∧ ∀ c ∈ Nat.toDigits 16 n, isHexDigit c = true := by
  induction n using Nat.strongRecOn with
  | ind n ih =>
    by_cases small : n < 16
    · rw [Nat.toDigits_of_lt_base small]
      refine ⟨?_, ?_⟩
      · simp [ofHexDigits, hexDigit?_digitChar small]
      · simp [isHexDigit, hexDigit?_digitChar small]
    · have last : n % 16 < 16 := Nat.mod_lt n (by decide)
      obtain ⟨value, digits⟩ := ih (n / 16) (by omega)
      rw [Nat.toDigits_of_base_le (by decide) (Nat.not_lt.mp small)]
      refine ⟨?_, ?_⟩
      · rw [ofHexDigits_append, value, hexDigit?_digitChar last, Option.getD_some]
        omega
      · intro c member
        rcases List.mem_append.mp member with early | late
        · exact digits c early
        · rw [List.mem_singleton.mp late, isHexDigit, hexDigit?_digitChar last]
          rfl

theorem sign_hexDigit {c : Char} (digit : isHexDigit c = true) (text : Text) :
    sign (c :: text) = (false, c :: text) := by
  unfold sign
  split
  · rename_i same
    cases same
    exact absurd digit (by decide)
  · rename_i same
    cases same
    exact absurd digit (by decide)
  · rfl

theorem unprefixed_hexDigits {digits : Text} (hexes : ∀ c ∈ digits, isHexDigit c = true) {c : Char}
    (space : isSpace c = true) (text : Text) : unprefixed (digits ++ c :: text) = digits ++ c :: text := by
  have plain : ∀ d, isHexDigit d = true ∨ isSpace d = true → d ≠ 'x' ∧ d ≠ 'X' := by
    intro d known
    constructor
    · rintro rfl
      exact absurd known (by decide)
    · rintro rfl
      exact absurd known (by decide)
  have zero : c ≠ '0' := by
    rintro rfl
    exact absurd space (by decide)
  have second : ∀ d rest, digits ++ c :: text = '0' :: d :: rest → isHexDigit d = true ∨ isSpace d = true := by
    intro d rest same
    cases digits with
    | nil => exact absurd (List.cons.inj same).1 zero
    | cons a digits =>
      cases digits with
      | nil =>
        rw [← (List.cons.inj (List.cons.inj same).2).1]
        exact .inr space
      | cons b digits =>
        rw [← (List.cons.inj (List.cons.inj same).2).1]
        exact .inl (hexes b (List.mem_cons_of_mem _ List.mem_cons_self))
  unfold unprefixed
  split
  · rename_i same
    exact absurd rfl (plain _ (second _ _ same)).1
  · rename_i same
    exact absurd rfl (plain _ (second _ _ same)).2
  · rfl

theorem hex_showHex (n : UInt32) {b c : Char} (before : isSpace b = true) (after : isSpace c = true) (text : Text) :
    hex (b :: showHex n ++ c :: text) = some (n, c :: text) := by
  have value : ofHexDigits (showHex n) = n.toNat := (toDigits_hex n.toNat).1
  have digits : ∀ d ∈ showHex n, isHexDigit d = true := (toDigits_hex n.toNat).2
  have notSpace : ∀ d, isHexDigit d = true → isSpace d = false := by
    intro d digit
    by_contra space
    simp only [Bool.not_eq_false, isSpace, Bool.or_eq_true, beq_iff_eq] at space
    rcases space with ((((rfl | rfl) | rfl) | rfl) | rfl) | rfl <;> exact absurd digit (by decide)
  have ends : isHexDigit c = false := by
    by_contra digit
    rw [Bool.not_eq_false] at digit
    rw [notSpace c digit] at after
    cases after
  have shown : skip (b :: showHex n ++ c :: text) = showHex n ++ c :: text := by
    rw [skip, List.cons_append, List.dropWhile_cons, before]
    cases first : showHex n with
    | nil => exact absurd first Nat.toDigits_ne_nil
    | cons d rest =>
      have digit : isHexDigit d = true := digits d (by rw [first]; exact List.mem_cons_self)
      exact skip_cons (notSpace d digit) _
  have unsigned : sign (showHex n ++ c :: text) = (false, showHex n ++ c :: text) := by
    cases first : showHex n with
    | nil => exact absurd first Nat.toDigits_ne_nil
    | cons d rest => exact sign_hexDigit (digits d (by rw [first]; exact List.mem_cons_self)) _
  have whole : unprefixed (showHex n ++ c :: text) = showHex n ++ c :: text := unprefixed_hexDigits digits after text
  have taken : (showHex n ++ c :: text).takeWhile isHexDigit = showHex n := by
    rw [List.takeWhile_append_of_pos digits, List.takeWhile_cons, ends]
    simp
  have left : (showHex n ++ c :: text).dropWhile isHexDigit = c :: text := by
    rw [List.dropWhile_append_of_pos digits, List.dropWhile_cons, ends]
    rfl
  have fits : ¬ (showHex n = [] ∨ 2 ^ 32 ≤ ofHexDigits (showHex n)) := by
    rintro (nothing | large)
    · exact Nat.toDigits_ne_nil nothing
    · rw [value] at large
      exact absurd n.toNat_lt (Nat.not_lt.mpr large)
  simp only [hex, shown, unsigned, whole, taken, left, if_neg fits, Bool.false_eq_true, if_false]
  rw [value, UInt32.ofNat_toNat]

/-- What is read of a file. The one toolchain that the build admits has Windows text files: a `\x1a` ends them. -/
def textIn : Text → Text
  | [] => []
  | '\x1a' :: _ => []
  | '\r' :: '\n' :: text => '\n' :: textIn text
  | c :: text => c :: textIn text

/-- What is written to a file. -/
def textOut (text : Text) : Text := text.flatMap fun c => if c = '\n' then ['\r', '\n'] else [c]

theorem textIn_cons {c : Char} {text : Text} (goes : c ≠ '\x1a') (apart : text.head? ≠ some '\n') :
    textIn (c :: text) = c :: textIn text := by
  rw [textIn]
  · exact goes
  · rintro rest rfl rfl
    exact apart rfl

theorem textOut_cons (c : Char) (text : Text) :
    textOut (c :: text) = (if c = '\n' then ['\r', '\n'] else [c]) ++ textOut text := List.flatMap_cons

theorem textOut_head (text : Text) : (textOut text).head? ≠ some '\n' := by
  cases text with
  | nil => exact nofun
  | cons c text =>
    rw [textOut_cons]
    split
    · exact fun same => absurd (Option.some.inj same) (by decide)
    · rename_i other
      exact fun same => other (Option.some.inj same)

theorem textIn_textOut (text : Text) : textIn (textOut text) = text.takeWhile (· ≠ '\x1a') := by
  induction text with
  | nil => rfl
  | cons c text ih =>
    rw [textOut_cons, List.takeWhile_cons]
    by_cases line : c = '\n'
    · subst line
      exact congrArg ('\n' :: ·) ih
    · rw [if_neg line, List.singleton_append]
      by_cases ends : c = '\x1a'
      · subst ends
        rfl
      · rw [textIn_cons ends (textOut_head text), ih, if_pos (by simpa using ends)]

theorem not_mem_textIn (text : Text) : '\x1a' ∉ textIn text := by
  fun_induction textIn text with
  | case1 => exact List.not_mem_nil
  | case2 => exact List.not_mem_nil
  | case3 text ih =>
    intro member
    rcases List.mem_cons.mp member with same | member
    · exact absurd same (by decide)
    · exact ih member
  | case4 c text goes _ ih =>
    intro member
    rcases List.mem_cons.mp member with same | member
    · exact goes same.symm
    · exact ih member

/-- `while (in >> word >> std::hex >> number)`; a record takes up two characters at least. -/
def records : Nat → Text → List (String × UInt32)
  | 0, _ => []
  | fuel + 1, text =>
    match word text with
    | none => []
    | some (name, rest) =>
      match hex rest with
      | none => []
      | some (n, rest) => (name, n) :: records fuel rest

/-- `out << word << " " << std::hex << number << "\n"` -/
def showRecord (record : String × UInt32) : Text := record.1.toList ++ ' ' :: showHex record.2 ++ ['\n']

theorem word_parts {text rest : Text} {name : String} (read : word text = some (name, rest)) :
    skip text = name.toList ++ rest := by
  unfold word at read
  split at read
  · cases read
  · cases read
    rw [String.toList_ofList, List.takeWhile_append_dropWhile]

theorem word_suffix {text rest : Text} {name : String} (read : word text = some (name, rest)) : rest <:+ text := by
  have skipped : skip text <:+ text := List.dropWhile_suffix _
  rw [word_parts read] at skipped
  exact (List.suffix_append _ _).trans skipped

theorem word_subset {text rest : Text} {name : String} (read : word text = some (name, rest)) :
    name.toList ⊆ text := by
  have skipped : skip text <:+ text := List.dropWhile_suffix _
  rw [word_parts read] at skipped
  exact fun c member => skipped.subset (List.mem_append_left _ member)

theorem length_word {text rest : Text} {name : String} (read : word text = some (name, rest)) :
    rest.length < text.length := by
  have some_ := List.length_pos_iff.mpr (plain_word read).1
  have skipped : (skip text).length ≤ text.length := (List.dropWhile_suffix _).length_le
  rw [word_parts read, List.length_append] at skipped
  omega

theorem hex_suffix {text rest : Text} {n : UInt32} (read : hex text = some (n, rest)) : rest <:+ text := by
  have signed : ∀ text, (sign text).2 <:+ text := by
    intro text
    unfold sign
    split
    · exact List.suffix_cons _ _
    · exact List.suffix_cons _ _
    · exact List.suffix_refl _
  have prefixed : ∀ text, unprefixed text <:+ text := by
    intro text
    unfold unprefixed
    split
    · exact ⟨['0', 'x'], rfl⟩
    · exact ⟨['0', 'X'], rfl⟩
    · exact List.suffix_refl _
  unfold hex at read
  simp only at read
  split at read
  · cases read
  · cases read
    calc _ <:+ unprefixed (sign (skip text)).2 := List.dropWhile_suffix _
      _ <:+ (sign (skip text)).2 := prefixed _
      _ <:+ skip text := signed _
      _ <:+ text := List.dropWhile_suffix _

/-- The text is read to its end. -/
theorem records_fuel {fuel : Nat} {text : Text} (enough : text.length ≤ fuel) (more : Nat) :
    records (fuel + more) text = records fuel text := by
  induction fuel generalizing text with
  | zero =>
    have nothing : text = [] := List.length_eq_zero_iff.mp (Nat.le_zero.mp enough)
    subst nothing
    cases more <;> rfl
  | succ fuel ih =>
    rw [Nat.succ_add, records, records]
    cases first : word text with
    | none => rfl
    | some read =>
      obtain ⟨name, rest⟩ := read
      have shorter := length_word first
      dsimp only
      cases second : hex rest with
      | none => rfl
      | some read =>
        obtain ⟨n, after⟩ := read
        have left := (hex_suffix second).length_le
        dsimp only
        rw [ih (by omega)]

theorem records_showRecord {record : String × UInt32} (plain : Plain record.1) (fuel : Nat) (text : Text) :
    records (fuel + 1) (showRecord record ++ text) = record :: records fuel ('\n' :: text) := by
  have whole : showRecord record ++ text = record.1.toList ++ ' ' :: (showHex record.2 ++ '\n' :: text) := by
    simp [showRecord]
  rw [whole, records, word_plain plain rfl]
  dsimp only
  rw [← List.cons_append, hex_showHex record.2 rfl rfl]

theorem records_space {c : Char} (space : isSpace c = true) (fuel : Nat) (text : Text) :
    records fuel (c :: text) = records fuel text := by
  have skipped : skip (c :: text) = skip text := by rw [skip, List.dropWhile_cons, if_pos space, skip]
  cases fuel with
  | zero => rfl
  | succ fuel => rw [records, records, word, word, skipped]

theorem records_showRecords {table : List (String × UInt32)} (plain : ∀ record ∈ table, Plain record.1) :
    records (table.flatMap showRecord).length (table.flatMap showRecord) = table := by
  induction table with
  | nil => rfl
  | cons record table ih =>
    obtain ⟨more, length⟩ : ∃ more, (showRecord record ++ table.flatMap showRecord).length =
        (table.flatMap showRecord).length + more + 1 := by
      refine ⟨(showRecord record).length - 1, ?_⟩
      have long : 0 < (showRecord record).length := by simp [showRecord]
      rw [List.length_append]
      omega
    -- every record but the last leaves more fuel than the rest has characters
    rw [List.flatMap_cons, length, records_showRecord (plain record List.mem_cons_self), records_space rfl,
      records_fuel le_rfl, ih fun other member => plain other (List.mem_cons_of_mem _ member)]

def Storable (name : String) : Prop := Plain name ∧ '\x1a' ∉ name.toList

instance (name : String) : Decidable (Storable name) :=
  inferInstanceAs (Decidable (_ ∧ _))

theorem textIn_showRecords {table : List (String × UInt32)} (storable : ∀ record ∈ table, Storable record.1) :
    textIn (textOut (table.flatMap showRecord)) = table.flatMap showRecord := by
  rw [textIn_textOut, List.takeWhile_eq_self_iff]
  intro c member
  rw [decide_eq_true_eq]
  rintro rfl
  obtain ⟨record, listed, member⟩ := List.mem_flatMap.mp member
  unfold showRecord at member
  rcases List.mem_append.mp member with member | line
  · rcases List.mem_append.mp member with name | member
    · exact (storable record listed).2 name
    · rcases List.mem_cons.mp member with space | digit
      · exact absurd space (by decide)
      · exact absurd ((toDigits_hex record.2.toNat).2 _ digit) (by decide)
  · exact absurd (List.mem_singleton.mp line) (by decide)

example : records 20 "a 0x1F\r\nb -1 c d".toList = [("a", 31), ("b", 0xFFFFFFFF), ("c", 13)] := by decide +kernel

theorem word_of_record {fuel : Nat} {text : Text} {record : String × UInt32} (member : record ∈ records fuel text) :
    ∃ from_ rest, from_ <:+ text ∧ word from_ = some (record.1, rest) := by
  induction fuel generalizing text with
  | zero => cases member
  | succ fuel ih =>
    rw [records] at member
    cases first : word text with
    | none =>
      rw [first] at member
      cases member
    | some read =>
      obtain ⟨name, rest⟩ := read
      rw [first] at member
      dsimp only at member
      cases second : hex rest with
      | none =>
        rw [second] at member
        cases member
      | some read =>
        obtain ⟨n, after⟩ := read
        rw [second] at member
        rcases List.mem_cons.mp member with rfl | member
        · exact ⟨text, rest, List.suffix_refl text, first⟩
        · obtain ⟨from_, left, within, read⟩ := ih member
          exact ⟨from_, left, within.trans ((hex_suffix second).trans (word_suffix first)), read⟩

end Streams
