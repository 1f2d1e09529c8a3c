import WkWebControl.Json

namespace WebControl.Json.Reader

def hexValue (c : Char) : Option Nat :=
  if '0' ≤ c ∧ c ≤ '9' then some (c.toNat - '0'.toNat)
  else if 'a' ≤ c ∧ c ≤ 'f' then some (c.toNat - 'a'.toNat + 10)
  else if 'A' ≤ c ∧ c ≤ 'F' then some (c.toNat - 'A'.toNat + 10)
  else none

def codeUnit : List Char → Option (Nat × List Char)
  | a :: b :: c :: d :: rest => do
    let a ← hexValue a
    let b ← hexValue b
    let c ← hexValue c
    let d ← hexValue d
    return (a * 4096 + b * 256 + c * 16 + d, rest)
  | _ => none

def isHigh (unit : Nat) : Bool := 0xd800 ≤ unit && unit < 0xdc00

def isLow (unit : Nat) : Bool := 0xdc00 ≤ unit && unit < 0xe000

/-- What follows `\u`: one code unit, or the two surrogates of a character above U+FFFF. -/
def unicode (text : List Char) : Option (Char × List Char) := do
  let (unit, rest) ← codeUnit text
  if isLow unit then none
  else if isHigh unit then
    match rest with
    | '\\' :: 'u' :: rest =>
      let (low, rest) ← codeUnit rest
      if isLow low then
        return (Char.ofNat (0x10000 + (unit - 0xd800) * 1024 + (low - 0xdc00)), rest)
      else none
    | _ => none
  else return (Char.ofNat unit, rest)

def unescape : Char → Option Char
  | '"' => some '"'
  | '\\' => some '\\'
  | '/' => some '/'
  | 'b' => some '\x08'
  | 'f' => some '\x0c'
  | 'n' => some '\n'
  | 'r' => some '\r'
  | 't' => some '\t'
  | _ => none

def char : List Char → Option (Char × List Char)
  | [] => none
  | '\\' :: rest =>
    match rest with
    | 'u' :: rest => unicode rest
    | c :: rest => (unescape c).map fun c => (c, rest)
    | [] => none
  | c :: rest => if c = '"' ∨ c < ' ' then none else some (c, rest)

def string : Nat → List Char → Option (List Char × List Char)
  | _, '"' :: rest => some ([], rest)
  | 0, _ => none
  | fuel + 1, text => do
    let (c, rest) ← char text
    let (cs, rest) ← string fuel rest
    return (c :: cs, rest)

def isBlank (c : Char) : Bool := c == ' ' || c == '\t' || c == '\n' || c == '\r'

def skip (text : List Char) : List Char := text.dropWhile isBlank

/-- Digits without a zero in front, and no fraction or exponent behind them. -/
def natural (text : List Char) : Option (Nat × List Char) :=
  let digits := text.takeWhile Char.isDigit
  let rest := text.dropWhile Char.isDigit
  if digits = [] ∨ (digits.head? = some '0' ∧ digits ≠ ['0']) then none
  else if rest.head? = some '.' ∨ rest.head? = some 'e' ∨ rest.head? = some 'E' then none
  else some (Nat.ofDigitChars 10 digits 0, rest)

def integer (text : List Char) : Option (Int × List Char) :=
  match text with
  | '-' :: rest => (natural rest).map fun (n, rest) => (-n, rest)
  | _ => (natural text).map fun (n, rest) => (n, rest)

mutual

/-- The value at the head of a text. Texts that parsers may read differently are left out: numbers
    with a fraction or an exponent, lone surrogates, objects with a key twice. -/
def value : Nat → List Char → Option (Json × List Char)
  | 0, _ => none
  | fuel + 1, text =>
    match text with
    | 'n' :: 'u' :: 'l' :: 'l' :: rest => some (.null, rest)
    | 't' :: 'r' :: 'u' :: 'e' :: rest => some (.bool true, rest)
    | 'f' :: 'a' :: 'l' :: 's' :: 'e' :: rest => some (.bool false, rest)
    | '"' :: rest => (string fuel rest).map fun (cs, rest) => (.str (String.ofList cs), rest)
    | '[' :: rest =>
      match skip rest with
      | ']' :: rest => some (.arr [], rest)
      | rest => (items fuel rest).map fun (items, rest) => (.arr items, rest)
    | '{' :: rest =>
      match skip rest with
      | '}' :: rest => some (.obj [], rest)
      | rest => do
        let (fields, rest) ← members fuel rest
        if (fields.map Prod.fst).Nodup then return (.obj fields, rest)
        else none
    | text => (integer text).map fun (n, rest) => (.int n, rest)

def items : Nat → List Char → Option (List Json × List Char)
  | 0, _ => none
  | fuel + 1, text => do
    let (item, rest) ← value fuel text
    match skip rest with
    | ',' :: rest =>
      let (items, rest) ← items fuel (skip rest)
      return (item :: items, rest)
    | ']' :: rest => return ([item], rest)
    | _ => none

def members : Nat → List Char → Option (List (String × Json) × List Char)
  | 0, _ => none
  | fuel + 1, text =>
    match text with
    | '"' :: rest => do
      let (key, rest) ← string fuel rest
      match skip rest with
      | ':' :: rest =>
        let (item, rest) ← value fuel (skip rest)
        match skip rest with
        | ',' :: rest =>
          let (fields, rest) ← members fuel (skip rest)
          return ((String.ofList key, item) :: fields, rest)
        | '}' :: rest => return ([(String.ofList key, item)], rest)
        | _ => none
      | _ => none
    | _ => none

end

end Reader

def utf8 (text : List Char) : List UInt8 := text.flatMap String.utf8EncodeChar

def decode (bytes : List UInt8) : Option (List Char) :=
  bytes.toByteArray.utf8Decode?.map Array.toList

def read (bytes : List UInt8) : Option Json := do
  let text ← decode bytes
  let (json, rest) ← Reader.value (2 * text.length + 1) (Reader.skip text)
  if Reader.skip rest = [] then return json else none

theorem decode_utf8 (text : List Char) : decode (utf8 text) = some text := by
  have whole : (utf8 text).toByteArray = text.utf8Encode := rfl
  rw [decode, whole, List.utf8Decode?_utf8Encode]
  rfl

end WebControl.Json
