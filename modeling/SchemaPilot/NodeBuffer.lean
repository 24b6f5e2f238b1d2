import Mathlib.Tactic.Common

namespace SchemaPilot.NodeBuffer

/-- The bytes of a `Buffer`. -/
abbrev Bytes := List UInt8

def hexDigits : List Char := "0123456789abcdef".toList

def hexDigit (n : Nat) : Char := hexDigits.getD n '0'

/-- The value of a hexadecimal digit in either case. -/
def unhex (c : Char) : Option Nat :=
  if '0' ≤ c ∧ c ≤ '9' then some (c.toNat - 48)
  else if 'a' ≤ c ∧ c ≤ 'f' then some (c.toNat - 87)
  else if 'A' ≤ c ∧ c ≤ 'F' then some (c.toNat - 55)
  else none

/-- The lower-case digits of `digest("hex")`. -/
def toHex (bytes : Bytes) : List Char :=
  bytes.flatMap fun b => [hexDigit (b.toNat / 16), hexDigit (b.toNat % 16)]

/-- `Buffer.from(_, "hex")` stops at the first pair that is not hexadecimal and
drops a digit left over at the end. -/
def fromHex : List Char → Bytes
  | a :: b :: rest =>
    match unhex a, unhex b with
    | some x, some y => UInt8.ofNat (16 * x + y) :: fromHex rest
    | _, _ => []
  | _ => []

theorem unhex_hexDigit : ∀ n < 16, unhex (hexDigit n) = some n := by decide

theorem fromHex_pair (b : UInt8) (rest : List Char) :
    fromHex (hexDigit (b.toNat / 16) :: hexDigit (b.toNat % 16) :: rest) = b :: fromHex rest := by
  have hb := b.toNat_lt
  have hhigh := unhex_hexDigit (b.toNat / 16) (by omega)
  have hlow := unhex_hexDigit (b.toNat % 16) (by omega)
  have hbyte : 16 * (b.toNat / 16) + b.toNat % 16 = b.toNat := by omega
  simp only [fromHex, hhigh, hlow, hbyte, UInt8.ofNat_toNat]

theorem fromHex_toHex (bytes : Bytes) : fromHex (toHex bytes) = bytes := by
  induction bytes with
  | nil => rfl
  | cons b bytes ih =>
    rw [toHex, List.flatMap_cons, List.cons_append, List.cons_append, List.nil_append, fromHex_pair]
    exact congrArg (b :: ·) ih

def replacement : Char := Char.ofNat 0xfffd

/-- A character of several bytes whose last `needed` bytes are still to come, the next
one between the two bounds. -/
structure Unfinished where
  needed : Nat
  lower : Nat
  upper : Nat
  point : Nat

/-- A byte where a character starts: what it yields at once, and what it leaves open. -/
def lead (b : Nat) : List Char × Option Unfinished :=
  if b < 0x80 then ([Char.ofNat b], none)
  else if 0xc2 ≤ b ∧ b ≤ 0xdf then ([], some ⟨1, 0x80, 0xbf, b % 0x20⟩)
  else if 0xe0 ≤ b ∧ b ≤ 0xef then
    -- the bounds of the second byte rule out overlong forms and surrogates
    ([], some ⟨2, if b = 0xe0 then 0xa0 else 0x80, if b = 0xed then 0x9f else 0xbf, b % 0x10⟩)
  else if 0xf0 ≤ b ∧ b ≤ 0xf4 then
    ([], some ⟨3, if b = 0xf0 then 0x90 else 0x80, if b = 0xf4 then 0x8f else 0xbf, b % 8⟩)
  else ([replacement], none)

def decodeUtf8 : Option Unfinished → Bytes → List Char
  | none, [] => []
  | some _, [] => [replacement]
  | none, b :: bytes => (lead b.toNat).1 ++ decodeUtf8 (lead b.toNat).2 bytes
  | some u, b :: bytes =>
    if u.lower ≤ b.toNat ∧ b.toNat ≤ u.upper then
      let point := u.point * 64 + b.toNat % 64
      if u.needed = 1 then Char.ofNat point :: decodeUtf8 none bytes
      else decodeUtf8 (some ⟨u.needed - 1, 0x80, 0xbf, point⟩) bytes
    else
      -- a character cut short becomes one replacement, and the byte is read again
      replacement :: (lead b.toNat).1 ++ decodeUtf8 (lead b.toNat).2 bytes

/-- `buffer.toString("utf8")`. -/
def toUtf8 (bytes : Bytes) : List Char := decodeUtf8 none bytes

end SchemaPilot.NodeBuffer
