import SchemaPilot.Json
import SchemaPilot.PrefixCode
import Mathlib.Tactic.Common

namespace SchemaPilot.JsonText

open Keyed PrefixCode

def hexDigit (n : Nat) : Char :=
  if n < 10 then Char.ofNat (48 + n) else Char.ofNat (87 + n)

def hexValue (c : Char) : Nat :=
  if c.toNat < 58 then c.toNat - 48 else c.toNat - 87

/-- Four lower-case hexadecimal digits. -/
def hex4 (n : Nat) : List Char :=
  [hexDigit (n / 4096 % 16), hexDigit (n / 256 % 16), hexDigit (n / 16 % 16), hexDigit (n % 16)]

def readHex4 (a b c d : Char) : Nat :=
  hexValue a * 4096 + hexValue b * 256 + hexValue c * 16 + hexValue d

/-- The characters with a two-character escape of their own. -/
def shortEscapes : List (Char × Char) :=
  [('"', '"'), ('\\', '\\'), ('\n', 'n'), ('\r', 'r'), ('\t', 't'), (Char.ofNat 12, 'f'),
    (Char.ofNat 8, 'b')]

def unicodeEscape (n : Nat) : List Char :=
  if n < 0x10000 then '\\' :: 'u' :: hex4 n
  else
    '\\' :: 'u' :: hex4 (0xd800 + (n - 0x10000) / 1024) ++
      '\\' :: 'u' :: hex4 (0xdc00 + (n - 0x10000) % 1024)

/-- One character of a string as `json.dumps` writes it: only printable ASCII stays,
and a character beyond the basic plane becomes a surrogate pair. -/
def escape (c : Char) : List Char :=
  match shortEscapes.lookup c with
  | some e => ['\\', e]
  | none => if 32 ≤ c.toNat ∧ c.toNat ≤ 126 then [c] else unicodeEscape c.toNat

/-- Read one escaped character back. -/
def unescape : List Char → Option (Char × List Char)
  | '\\' :: 'u' :: a :: b :: c :: d :: rest =>
    let n := readHex4 a b c d
    if 0xd800 ≤ n ∧ n < 0xdc00 then
      match rest with
      | _ :: _ :: e :: f :: g :: h :: rest' =>
        some (Char.ofNat (0x10000 + (n - 0xd800) * 1024 + (readHex4 e f g h - 0xdc00)), rest')
      | _ => none
    else some (Char.ofNat n, rest)
  | '\\' :: 'n' :: rest => some ('\n', rest)
  | '\\' :: 'r' :: rest => some ('\r', rest)
  | '\\' :: 't' :: rest => some ('\t', rest)
  | '\\' :: 'f' :: rest => some (Char.ofNat 12, rest)
  | '\\' :: 'b' :: rest => some (Char.ofNat 8, rest)
  | '\\' :: c :: rest => some (c, rest)
  | c :: rest => some (c, rest)
  | [] => none

theorem hexValue_hexDigit : ∀ n < 16, hexValue (hexDigit n) = n := by decide

theorem readHex4_hex4 (n : Nat) (h : n < 0x10000) :
    readHex4 (hexDigit (n / 4096 % 16)) (hexDigit (n / 256 % 16)) (hexDigit (n / 16 % 16))
      (hexDigit (n % 16)) = n := by
  have hlt : ∀ m : Nat, m % 16 < 16 := fun m => Nat.mod_lt m (by decide)
  simp only [readHex4, hexValue_hexDigit _ (hlt _)]
  omega

theorem unescape_hex4 (n : Nat) (h : n < 0x10000) (hs : ¬(0xd800 ≤ n ∧ n < 0xdc00)) (s : List Char) :
    unescape ('\\' :: 'u' :: hex4 n ++ s) = some (Char.ofNat n, s) := by
  simp only [hex4, List.cons_append, List.nil_append, unescape, readHex4_hex4 n h, if_neg hs]

theorem unescape_surrogates (hi lo : Nat) (h : 0xd800 ≤ hi ∧ hi < 0xdc00) (hl : lo < 0x10000)
    (s : List Char) :
    unescape ('\\' :: 'u' :: hex4 hi ++ ('\\' :: 'u' :: hex4 lo ++ s)) =
      some (Char.ofNat (0x10000 + (hi - 0xd800) * 1024 + (lo - 0xdc00)), s) := by
  have hh : hi < 0x10000 := by omega
  simp only [hex4, List.cons_append, List.nil_append, unescape, readHex4_hex4 hi hh,
    readHex4_hex4 lo hl, if_pos h]

theorem unescape_plain (c : Char) (h : c ≠ '\\') (s : List Char) :
    unescape (c :: s) = some (c, s) := by
  rw [unescape] <;> (intros; exact absurd ‹_› h)

theorem toNat_scalar (c : Char) : c.toNat < 0x110000 ∧ ¬(0xd800 ≤ c.toNat ∧ c.toNat < 0xdc00) := by
  have h := c.valid
  simp only [UInt32.isValidChar, Nat.isValidChar] at h
  change c.val.toNat < 0x110000 ∧ ¬(0xd800 ≤ c.val.toNat ∧ c.val.toNat < 0xdc00)
  omega

theorem unescape_unicodeEscape (c : Char) (s : List Char) :
    unescape (unicodeEscape c.toNat ++ s) = some (c, s) := by
  obtain ⟨hm, hv⟩ := toNat_scalar c
  rw [unicodeEscape]
  split
  · -- a scalar value of the basic plane is no surrogate, so the reader stops after four digits
    next hu => rw [unescape_hex4 _ hu hv s, Char.ofNat_toNat]
  · rw [List.append_assoc, unescape_surrogates _ _ (by omega) (by omega)]
    have he : 0x10000 + (0xd800 + (c.toNat - 0x10000) / 1024 - 0xd800) * 1024 +
        (0xdc00 + (c.toNat - 0x10000) % 1024 - 0xdc00) = c.toNat := by omega
    rw [he, Char.ofNat_toNat]

theorem unescape_escape (c : Char) (s : List Char) : unescape (escape c ++ s) = some (c, s) := by
  rw [escape]
  cases h : shortEscapes.lookup c with
  | some e =>
    have hm := mem_of_lookup h
    simp only [shortEscapes, List.mem_cons, Prod.mk.injEq, List.not_mem_nil, or_false] at hm
    rcases hm with ⟨rfl, rfl⟩ | ⟨rfl, rfl⟩ | ⟨rfl, rfl⟩ | ⟨rfl, rfl⟩ | ⟨rfl, rfl⟩ | ⟨rfl, rfl⟩ |
      ⟨rfl, rfl⟩ <;> rfl
  | none =>
    have hb : c ≠ '\\' := by
      rintro rfl
      cases h
    dsimp only
    split
    · exact unescape_plain c hb s
    · exact unescape_unicodeEscape c s

def quote (s : String) : List Char := '"' :: terminated '"' escape s.toList

section Text

variable {ν : Type} (number : ν → List Char)

mutual

/-- The characters of `json.dumps(v, separators=(",", ":"))`, given how numbers are written. -/
def dumpsChars : JsonOf ν → List Char
  | .null => "null".toList
  | .bool true => "true".toList
  | .bool false => "false".toList
  | .num n => number n
  | .str s => quote s
  | .arr items => '[' :: dumpsItems items
  | .obj fields => '{' :: dumpsFields fields

def dumpsItems : List (JsonOf ν) → List Char
  | [] => [']']
  | [x] => dumpsChars x ++ [']']
  | x :: y :: items => dumpsChars x ++ ',' :: dumpsItems (y :: items)

def dumpsFields : List (String × JsonOf ν) → List Char
  | [] => ['}']
  | [(k, v)] => quote k ++ ':' :: dumpsChars v ++ ['}']
  | (k, v) :: f :: fields => quote k ++ ':' :: dumpsChars v ++ ',' :: dumpsFields (f :: fields)

end

def dumpsField (p : String × JsonOf ν) : List Char := quote p.1 ++ ':' :: dumpsChars number p.2

theorem dumpsChars_arr (items : List (JsonOf ν)) :
    dumpsChars number (.arr items) = '[' :: dumpsItems number items :=
  rfl

theorem dumpsChars_obj (fields : List (String × JsonOf ν)) :
    dumpsChars number (.obj fields) = '{' :: dumpsFields number fields :=
  rfl

theorem dumpsItems_eq (items : List (JsonOf ν)) :
    dumpsItems number items = joined ',' ']' (dumpsChars number) items := by
  induction items using joined.induct <;> simp_all [dumpsItems, joined]

theorem dumpsFields_eq (fields : List (String × JsonOf ν)) :
    dumpsFields number fields = joined ',' '}' (dumpsField number) fields := by
  induction fields using joined.induct <;> simp_all [dumpsFields, dumpsField, joined]

end Text

section SortKeys

variable {ν : Type}

mutual

/-- Every object with its entries in key order, as `sort_keys=True` writes them. -/
def sortKeys : JsonOf ν → JsonOf ν
  | .arr items => .arr (sortKeysItems items)
  | .obj fields => .obj (sortByKey (sortKeysFields fields))
  | .null => .null
  | .bool b => .bool b
  | .num n => .num n
  | .str s => .str s

def sortKeysItems : List (JsonOf ν) → List (JsonOf ν)
  | [] => []
  | x :: items => sortKeys x :: sortKeysItems items

def sortKeysFields : List (String × JsonOf ν) → List (String × JsonOf ν)
  | [] => []
  | (k, v) :: fields => (k, sortKeys v) :: sortKeysFields fields

end

theorem sortKeysItems_eq (items : List (JsonOf ν)) : sortKeysItems items = items.map sortKeys := by
  induction items with
  | nil => rfl
  | cons x items ih => rw [sortKeysItems, ih, List.map_cons]

theorem sortKeysFields_eq (fields : List (String × JsonOf ν)) :
    sortKeysFields fields = fields.map (fun p => (p.1, sortKeys p.2)) := by
  induction fields with
  | nil => rfl
  | cons p fields ih => rw [sortKeysFields, ih, List.map_cons]

end SortKeys

/-- `json.dumps(v, sort_keys=True, separators=(",", ":"))` of a value without numbers. -/
def dumpsSorted (v : Schema) : String := String.ofList (dumpsChars nofun (sortKeys v))

theorem escape_opens (c : Char) : Opens '"' (escape c) := by
  rw [escape]
  cases h : shortEscapes.lookup c with
  | some e => exact ⟨'\\', [e], rfl, by decide⟩
  | none =>
    have hq : c ≠ '"' := by rintro rfl; simp [shortEscapes] at h
    dsimp only
    split
    · exact ⟨c, [], rfl, hq⟩
    · rw [unicodeEscape]
      split <;> exact ⟨'\\', _, rfl, by decide⟩

theorem quote_delimited (s : String) : Delimited (fun _ => True) quote s := by
  intro s' _ r t h
  obtain ⟨he, rfl⟩ := terminated_delimited (D := fun _ => True) (fun c _ => escape_opens c) s.toList
    (fun _ _ => trivial) (fun c _ => delimited_of_reader unescape unescape_escape c)
    s'.toList (fun _ _ => trivial) r t (List.cons.inj h).2
  exact ⟨String.toList_inj.mp he, rfl⟩

/-- The character that tells the kind of a number-free value apart. -/
def opening : Schema → Char
  | .null => 'n'
  | .bool true => 't'
  | .bool false => 'f'
  | .str _ => '"'
  | .arr _ => '['
  | .obj _ => '{'

theorem dumpsChars_opening (v : Schema) : ∃ r, dumpsChars nofun v = opening v :: r := by
  cases v with
  | null | str s | arr items | obj fields => exact ⟨_, rfl⟩
  | bool b => cases b <;> exact ⟨_, rfl⟩
  | num n => exact n.elim

theorem dumpsChars_opens (v : Schema) : Opens ']' (dumpsChars nofun v) := by
  obtain ⟨r, hr⟩ := dumpsChars_opening v
  refine ⟨opening v, r, hr, ?_⟩
  cases v with
  | null | str s | arr items | obj fields => simp [opening]
  | bool b => cases b <;> simp [opening]
  | num n => exact n.elim

theorem opening_eq {v w : Schema} {s t : List Char}
    (h : dumpsChars nofun v ++ s = dumpsChars nofun w ++ t) : opening v = opening w := by
  obtain ⟨r, hr⟩ := dumpsChars_opening v
  obtain ⟨r', hr'⟩ := dumpsChars_opening w
  rw [hr, hr'] at h
  exact (List.cons.inj h).1

/-- JSON text without numbers is uniquely decodable, also when more text follows it. -/
theorem dumpsChars_delimited (v : Schema) : Delimited (fun _ => True) (dumpsChars nofun) v := by
  induction v using JsonOf.induct with
  | null =>
    intro w _ s t h
    have ho := opening_eq h
    cases w with
    | null => exact ⟨rfl, List.append_cancel_left h⟩
    | bool b => cases b <;> simp [opening] at ho
    | num n => exact n.elim
    | str _ | arr _ | obj _ => simp [opening] at ho
  | bool a =>
    intro w _ s t h
    have ho := opening_eq h
    cases w with
    | bool b =>
      obtain rfl : a = b := by cases a <;> cases b <;> simp [opening] at ho ⊢
      exact ⟨rfl, List.append_cancel_left h⟩
    | num n => exact n.elim
    | null | str _ | arr _ | obj _ => cases a <;> simp [opening] at ho
  | num n => exact n.elim
  | str a =>
    intro w _ s t h
    have ho := opening_eq h
    cases w with
    | str b =>
      obtain ⟨rfl, rfl⟩ := quote_delimited a b trivial s t h
      exact ⟨rfl, rfl⟩
    | bool b => cases b <;> simp [opening] at ho
    | num n => exact n.elim
    | null | arr _ | obj _ => simp [opening] at ho
  | arr xs ih =>
    intro w _ s t h
    have ho := opening_eq h
    cases w with
    | arr ys =>
      have h : '[' :: (dumpsItems nofun xs ++ s) = '[' :: (dumpsItems nofun ys ++ t) := h
      rw [dumpsItems_eq, dumpsItems_eq] at h
      obtain ⟨rfl, rfl⟩ := joined_delimited (D := fun _ => True) (by decide)
        (fun x _ => dumpsChars_opens x) xs (fun _ _ => trivial) ih ys (fun _ _ => trivial) s t
        (List.cons.inj h).2
      exact ⟨rfl, rfl⟩
    | bool b => cases b <;> simp [opening] at ho
    | num n => exact n.elim
    | null | str _ | obj _ => simp [opening] at ho
  | obj fs ih =>
    intro w _ s t h
    have ho := opening_eq h
    cases w with
    | obj gs =>
      have h : '{' :: (dumpsFields nofun fs ++ s) = '{' :: (dumpsFields nofun gs ++ t) := h
      rw [dumpsFields_eq, dumpsFields_eq] at h
      obtain ⟨rfl, rfl⟩ := joined_delimited (D := fun _ => True ∧ True) (by decide)
        (fun p _ => ⟨'"', _, rfl, by decide⟩) fs (fun _ _ => ⟨trivial, trivial⟩)
        (fun p hp => delimited_pair ':' (quote_delimited p.1) (ih p hp)) gs
        (fun _ _ => ⟨trivial, trivial⟩) s t (List.cons.inj h).2
      exact ⟨rfl, rfl⟩
    | bool b => cases b <;> simp [opening] at ho
    | num n => exact n.elim
    | null | str _ | arr _ => simp [opening] at ho

/-- The sorted text of a number-free value determines the value up to key order. -/
theorem dumpsSorted_eq_iff (v w : Schema) : dumpsSorted v = dumpsSorted w ↔ sortKeys v = sortKeys w :=
  ⟨fun h => (dumpsChars_delimited (sortKeys v)).injective trivial (String.ofList_injective h),
    fun h => by rw [dumpsSorted, h, dumpsSorted]⟩

end SchemaPilot.JsonText
