import WkWebControl.Json

namespace WebControl.Python

open WebControl

/-- Header values are decoded as Latin-1, and there `lower` moves the two blocks of capitals by 32. -/
def lowerChar (c : Char) : Char :=
  if (0x41 ≤ c.toNat ∧ c.toNat ≤ 0x5a) ∨ (0xc0 ≤ c.toNat ∧ c.toNat ≤ 0xde ∧ c.toNat ≠ 0xd7)
  then Char.ofNat (c.toNat + 32) else c

def lower (s : String) : String := String.ofList (s.toList.map lowerChar)

theorem lowerChar_toNat (c : Char) :
    (lowerChar c).toNat =
      if (0x41 ≤ c.toNat ∧ c.toNat ≤ 0x5a) ∨ (0xc0 ≤ c.toNat ∧ c.toNat ≤ 0xde ∧ c.toNat ≠ 0xd7)
      then c.toNat + 32 else c.toNat := by
  unfold lowerChar
  split
  · have valid : (c.toNat + 32).isValidChar := by
      left
      omega
    rw [Char.ofNat, dif_pos valid]
    rfl
  · rfl

theorem lowerChar_idempotent (c : Char) : lowerChar (lowerChar c) = lowerChar c := by
  rw [lowerChar.eq_1 (lowerChar c), if_neg]
  rw [lowerChar_toNat]
  split <;> omega

theorem lower_idempotent (s : String) : lower (lower s) = lower s := by
  simp only [lower, String.toList_ofList, List.map_map]
  congr 1
  apply List.map_congr_left
  intro c _
  exact lowerChar_idempotent c

/-- The blanks of Latin-1, which `str.strip` takes off both ends. -/
def isSpace (c : Char) : Bool :=
  c.toNat ∈ [0x9, 0xa, 0xb, 0xc, 0xd, 0x1c, 0x1d, 0x1e, 0x1f, 0x20, 0x85, 0xa0]

def stripBy (space : Char → Bool) (cs : List Char) : List Char :=
  ((cs.dropWhile space).reverse.dropWhile space).reverse

def strip (s : String) : String := String.ofList (stripBy isSpace s.toList)

/-- Where the blocks of ten decimal digits of Unicode 14 begin. -/
def decimalZeros : List Nat :=
  [0x30, 0x660, 0x6f0, 0x7c0, 0x966, 0x9e6, 0xa66, 0xae6, 0xb66, 0xbe6, 0xc66, 0xce6, 0xd66, 0xde6,
   0xe50, 0xed0, 0xf20, 0x1040, 0x1090, 0x17e0, 0x1810, 0x1946, 0x19d0, 0x1a80, 0x1a90, 0x1b50,
   0x1bb0, 0x1c40, 0x1c50, 0xa620, 0xa8d0, 0xa900, 0xa9d0, 0xa9f0, 0xaa50, 0xabf0, 0xff10, 0x104a0,
   0x10d30, 0x11066, 0x110f0, 0x11136, 0x111d0, 0x112f0, 0x11450, 0x114d0, 0x11650, 0x116c0,
   0x11730, 0x118e0, 0x11950, 0x11c50, 0x11d50, 0x11da0, 0x16a60, 0x16ac0, 0x16b50, 0x1d7ce,
   0x1d7d8, 0x1d7e2, 0x1d7ec, 0x1d7f6, 0x1e140, 0x1e2f0, 0x1e950, 0x1fbf0]

def decimal? (c : Char) : Option Nat :=
  (decimalZeros.find? fun first => first ≤ c.toNat && c.toNat < first + 10).map (c.toNat - ·)

/-- The characters `int` takes for blanks; 0x1c to 0x1f are none of them, unlike for `strip`. -/
def intSpace (c : Char) : Bool :=
  c.toNat ∈ [0x9, 0xa, 0xb, 0xc, 0xd, 0x20, 0x85, 0xa0, 0x1680, 0x2000, 0x2001, 0x2002, 0x2003,
    0x2004, 0x2005, 0x2006, 0x2007, 0x2008, 0x2009, 0x200a, 0x2028, 0x2029, 0x202f, 0x205f, 0x3000]

def digits? : List Char → Option (List Nat)
  | [] => none
  | [c] => (decimal? c).map ([·])
  | c :: '_' :: rest => do
    let d ← decimal? c
    let ds ← digits? rest
    return d :: ds
  | c :: rest => do
    let d ← decimal? c
    let ds ← digits? rest
    return d :: ds

def maxStrDigits : Nat := 4300

def natOfDigits? (cs : List Char) : Option Nat := do
  let ds ← digits? cs
  if maxStrDigits < ds.length then none
  return ds.foldl (fun n d => 10 * n + d) 0

def intOfStr? (s : String) : Option Int :=
  match stripBy intSpace s.toList with
  | '-' :: rest => (natOfDigits? rest).map fun n => -(n : Int)
  | '+' :: rest => (natOfDigits? rest).map fun n => (n : Int)
  | cs => (natOfDigits? cs).map fun n => (n : Int)

/-- `int(x)` for a JSON value; `none` for the `ValueError`, `TypeError` or `OverflowError`. -/
def int? : Json → Option Int
  | .bool b => some (if b then 1 else 0)
  | .int n => some n
  | .float (.finite value) => some (Json.truncate value)
  | .str s => intOfStr? s
  | _ => none

example : int? (.str " -1_2\n") = some (-12) := by decide

end WebControl.Python
