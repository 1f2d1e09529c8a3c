import WkWebControl.Json.Reader

namespace WebControl.Json

/-- What sets one writer apart from another: the blanks after `,` and `:`, and the way a character
    stands in a string. -/
structure Style where
  spaced : Bool
  escape : Char → List Char
  reads : ∀ c rest, Reader.char (escape c ++ rest) = some (c, rest)
  clean : ∀ c, '\n' ∉ escape c

def short : Char → Option Char
  | '"' => some '"'
  | '\\' => some '\\'
  | '\x08' => some 'b'
  | '\x0c' => some 'f'
  | '\n' => some 'n'
  | '\r' => some 'r'
  | '\t' => some 't'
  | _ => none

def hexDigits (unit : Nat) : List Char :=
  [Nat.digitChar (unit / 4096), Nat.digitChar (unit / 256 % 16), Nat.digitChar (unit / 16 % 16),
    Nat.digitChar (unit % 16)]

def unicodeEscape (unit : Nat) : List Char := '\\' :: 'u' :: hexDigits unit

/-- `py_encode_basestring_ascii`: everything but printable ASCII is escaped. -/
def escapeAscii (c : Char) : List Char :=
  match short c with
  | some letter => ['\\', letter]
  | none =>
    if ' ' ≤ c ∧ c ≤ '~' then [c]
    else if c.toNat < 0x10000 then unicodeEscape c.toNat
    else unicodeEscape (0xd800 + (c.toNat - 0x10000) / 1024) ++
      unicodeEscape (0xdc00 + (c.toNat - 0x10000) % 1024)

/-- `dump_escaped` without `ensure_ascii`: only control characters are escaped. -/
def escapeControl (c : Char) : List Char :=
  match short c with
  | some letter => ['\\', letter]
  | none => if c < ' ' then unicodeEscape c.toNat else [c]

theorem unescape_short {c letter : Char} (found : short c = some letter) (rest : List Char) :
    Reader.char (['\\', letter] ++ rest) = some (c, rest) := by
  unfold short at found
  split at found <;> cases found <;> rfl

theorem char_plain {c : Char} (long : short c = none) (visible : ¬ c < ' ') (rest : List Char) :
    Reader.char ([c] ++ rest) = some (c, rest) := by
  have quote : c ≠ '"' := by rintro rfl; cases long
  have backslash : c ≠ '\\' := by rintro rfl; cases long
  simp only [List.singleton_append]
  unfold Reader.char
  split
  · next eq => cases eq
  · next eq => cases eq; exact absurd rfl backslash
  · next eq =>
    cases eq
    rw [if_neg (by simp [quote, visible])]

theorem hexValue_digitChar {d : Nat} (small : d < 16) :
    Reader.hexValue (Nat.digitChar d) = some d := by
  have all : ∀ d < 16, Reader.hexValue (Nat.digitChar d) = some d := by decide
  exact all d small

theorem codeUnit_hexDigits (unit : Nat) (small : unit < 0x10000) (rest : List Char) :
    Reader.codeUnit (hexDigits unit ++ rest) = some (unit, rest) := by
  have first := hexValue_digitChar (d := unit / 4096) (by omega)
  have second := hexValue_digitChar (d := unit / 256 % 16) (by omega)
  have third := hexValue_digitChar (d := unit / 16 % 16) (by omega)
  have fourth := hexValue_digitChar (d := unit % 16) (by omega)
  have sum : unit / 4096 * 4096 + unit / 256 % 16 * 256 + unit / 16 % 16 * 16 + unit % 16 = unit := by
    omega
  simp only [hexDigits, Reader.codeUnit, List.cons_append, List.nil_append, first, second, third,
    fourth, Option.bind_eq_bind, Option.bind_some, sum]
  rfl

theorem char_unicodeEscape (unit : Nat) (rest : List Char) :
    Reader.char (unicodeEscape unit ++ rest) = Reader.unicode (hexDigits unit ++ rest) := rfl

theorem unicode_basic {c : Char} (basic : c.toNat < 0x10000) (rest : List Char) :
    Reader.unicode (hexDigits c.toNat ++ rest) = some (c, rest) := by
  have valid : c.toNat < 0xd800 ∨ 0xdfff < c.toNat ∧ c.toNat < 0x110000 := c.valid
  have notLow : Reader.isLow c.toNat = false := by
    simp only [Reader.isLow, Bool.and_eq_false_iff, decide_eq_false_iff_not]
    omega
  have notHigh : Reader.isHigh c.toNat = false := by
    simp only [Reader.isHigh, Bool.and_eq_false_iff, decide_eq_false_iff_not]
    omega
  simp only [Reader.unicode, codeUnit_hexDigits c.toNat basic, Option.bind_eq_bind, Option.bind_some, notLow,
    notHigh, Bool.false_eq_true, if_false, Char.ofNat_toNat]
  rfl

theorem unicode_surrogates {high low : Nat} (isHigh : Reader.isHigh high = true)
    (isLow : Reader.isLow low = true) (rest : List Char) :
    Reader.unicode (hexDigits high ++ (unicodeEscape low ++ rest)) =
      some (Char.ofNat (0x10000 + (high - 0xd800) * 1024 + (low - 0xdc00)), rest) := by
  have highRange : 0xd800 ≤ high ∧ high < 0xdc00 := by simpa [Reader.isHigh] using isHigh
  have lowRange : 0xdc00 ≤ low ∧ low < 0xe000 := by simpa [Reader.isLow] using isLow
  have notLow : Reader.isLow high = false := by
    simp only [Reader.isLow, Bool.and_eq_false_iff, decide_eq_false_iff_not]
    omega
  have first := codeUnit_hexDigits high (by omega) ('\\' :: 'u' :: (hexDigits low ++ rest))
  have second := codeUnit_hexDigits low (by omega) rest
  simp only [unicodeEscape, List.cons_append, Reader.unicode, first, Option.bind_eq_bind,
    Option.bind_some, notLow, isHigh, Bool.false_eq_true, if_false, if_true, second, isLow]
  rfl

theorem unicode_pair {c : Char} (astral : ¬ c.toNat < 0x10000) (rest : List Char) :
    Reader.unicode (hexDigits (0xd800 + (c.toNat - 0x10000) / 1024) ++
      (unicodeEscape (0xdc00 + (c.toNat - 0x10000) % 1024) ++ rest)) = some (c, rest) := by
  have valid : c.toNat < 0xd800 ∨ 0xdfff < c.toNat ∧ c.toNat < 0x110000 := c.valid
  have high : Reader.isHigh (0xd800 + (c.toNat - 0x10000) / 1024) = true := by
    simp only [Reader.isHigh, Bool.and_eq_true, decide_eq_true_eq]
    omega
  have low : Reader.isLow (0xdc00 + (c.toNat - 0x10000) % 1024) = true := by
    simp only [Reader.isLow, Bool.and_eq_true, decide_eq_true_eq]
    omega
  have whole : 0x10000 + (0xd800 + (c.toNat - 0x10000) / 1024 - 0xd800) * 1024 +
      (0xdc00 + (c.toNat - 0x10000) % 1024 - 0xdc00) = c.toNat := by omega
  rw [unicode_surrogates high low, whole, Char.ofNat_toNat]

theorem escapeAscii_reads (c : Char) (rest : List Char) :
    Reader.char (escapeAscii c ++ rest) = some (c, rest) := by
  unfold escapeAscii
  cases letter : short c with
  | some letter => exact unescape_short letter rest
  | none =>
    simp only
    split
    · next printable => exact char_plain letter (Char.not_lt.mpr printable.1) rest
    · split
      · next basic => rw [char_unicodeEscape, unicode_basic basic]
      · next astral => rw [List.append_assoc, char_unicodeEscape, unicode_pair astral]

theorem escapeControl_reads (c : Char) (rest : List Char) :
    Reader.char (escapeControl c ++ rest) = some (c, rest) := by
  unfold escapeControl
  cases letter : short c with
  | some letter => exact unescape_short letter rest
  | none =>
    simp only
    split
    · next low =>
      have small : c.toNat < 0x20 := low
      rw [char_unicodeEscape, unicode_basic (by omega)]
    · next visible => exact char_plain letter visible rest

def Printable (c : Char) : Prop := ' ' ≤ c ∧ c ≤ '~'

instance (c : Char) : Decidable (Printable c) := inferInstanceAs (Decidable (_ ∧ _))

theorem printable_of_all {text : List Char} (all : text.all (fun c => decide (Printable c)) = true) :
    ∀ d ∈ text, Printable d := by
  simpa using all

theorem digitChar_printable (d : Nat) : Printable (Nat.digitChar d) := by
  have all : ∀ d < 16, Printable (Nat.digitChar d) := by decide
  by_cases small : d < 16
  · exact all d small
  · have star : Nat.digitChar d = '*' := Nat.digitChar_eq_star.mpr (by omega)
    rw [star]
    decide

theorem unicodeEscape_printable (unit : Nat) : ∀ d ∈ unicodeEscape unit, Printable d := by
  simp only [unicodeEscape, hexDigits, List.forall_mem_cons, List.not_mem_nil, false_imp_iff,
    implies_true, and_true, digitChar_printable]
  decide

theorem short_printable {c letter : Char} (found : short c = some letter) :
    ∀ d ∈ ['\\', letter], Printable d := by
  unfold short at found
  split at found <;> cases found <;> exact printable_of_all (by decide)

theorem escapeAscii_printable (c : Char) : ∀ d ∈ escapeAscii c, Printable d := by
  unfold escapeAscii
  cases letter : short c with
  | some letter => exact short_printable letter
  | none =>
    simp only
    split
    · next printable =>
      intro d member
      rw [List.mem_singleton.mp member]
      exact printable
    · split
      · exact unicodeEscape_printable _
      · intro d member
        rcases List.mem_append.mp member with high | low
        · exact unicodeEscape_printable _ d high
        · exact unicodeEscape_printable _ d low

theorem clean_of_printable {text : List Char} (printable : ∀ d ∈ text, Printable d) : '\n' ∉ text :=
  fun member => absurd (printable _ member) (by decide)

theorem escapeControl_clean (c : Char) : '\n' ∉ escapeControl c := by
  unfold escapeControl
  cases letter : short c with
  | some letter => exact clean_of_printable (short_printable letter)
  | none =>
    simp only
    split
    · exact clean_of_printable (unicodeEscape_printable _)
    · intro member
      rw [← List.mem_singleton.mp member] at letter
      cases letter

/-- `json.dumps` -/
def Style.dumps : Style := ⟨true, escapeAscii, escapeAscii_reads,
  fun c => clean_of_printable (escapeAscii_printable c)⟩

/-- `json::dump` of nlohmann, without indentation. -/
def Style.compact : Style := ⟨false, escapeControl, escapeControl_reads, escapeControl_clean⟩

namespace Style

def gap (style : Style) : List Char := if style.spaced then [' '] else []

def quoted (style : Style) (s : String) : List Char :=
  '"' :: (s.toList.flatMap style.escape ++ ['"'])

def integer (n : Int) : List Char :=
  if n < 0 then '-' :: Nat.toDigits 10 n.natAbs else Nat.toDigits 10 n.natAbs

mutual

/-- The text of a value. Doubles and lone surrogates are not written here (see `Plain`). -/
def write (style : Style) : Json → List Char
  | .null => ['n', 'u', 'l', 'l']
  | .bool true => ['t', 'r', 'u', 'e']
  | .bool false => ['f', 'a', 'l', 's', 'e']
  | .int n => integer n
  | .str s => style.quoted s
  | .arr [] => ['[', ']']
  | .arr (item :: items) => '[' :: (style.write item ++ style.moreItems items)
  | .obj [] => ['{', '}']
  | .obj ((key, item) :: fields) =>
    '{' :: (style.quoted key ++ ':' :: (style.gap ++ (style.write item ++ style.moreFields fields)))
  | .float _ | .unpaired => []

def moreItems (style : Style) : List Json → List Char
  | [] => [']']
  | item :: items => ',' :: (style.gap ++ (style.write item ++ style.moreItems items))

def moreFields (style : Style) : List (String × Json) → List Char
  | [] => ['}']
  | (key, item) :: fields =>
    ',' :: (style.gap ++ (style.quoted key ++
      ':' :: (style.gap ++ (style.write item ++ style.moreFields fields))))

end

def text (style : Style) (json : Json) : List UInt8 := utf8 (style.write json)

end Style

/-- The values that need no convention to be written and read back. -/
inductive Plain : Json → Prop
  | null : Plain .null
  | bool (b : Bool) : Plain (.bool b)
  | int (n : Int) : Plain (.int n)
  | str (s : String) : Plain (.str s)
  | arr (items : List Json) (each : ∀ item ∈ items, Plain item) : Plain (.arr items)
  | obj (fields : List (String × Json)) (distinct : (fields.map Prod.fst).Nodup)
      (each : ∀ field ∈ fields, Plain field.2) : Plain (.obj fields)

end WebControl.Json
