import Mathlib.Tactic.Common

namespace SchemaPilot.JsonReader

/-- A string as UTF-16 code units, which an escape may leave unpaired. -/
abbrev Units := List UInt16

def unitsOf (c : Char) : Units :=
  if c.toNat < 0x10000 then [UInt16.ofNat c.toNat]
  else [UInt16.ofNat (0xd800 + (c.toNat - 0x10000) / 1024),
    UInt16.ofNat (0xdc00 + (c.toNat - 0x10000) % 1024)]

/-- What `JSON.parse` returns. A number is kept as its numeral. -/
inductive Value where
  | null
  | bool (b : Bool)
  | number (numeral : List Char)
  | string (s : Units)
  | array (items : List Value)
  | object (members : List (Units × Value))

/-- A later member of the same name takes the earlier one's place. -/
def setMember (members : List (Units × Value)) (key : Units) (v : Value) : List (Units × Value) :=
  if key ∈ members.map Prod.fst then members.map fun m => if m.1 = key then (key, v) else m
  else members ++ [(key, v)]

def isSpace (c : Char) : Bool := c == ' ' || c == '\n' || c == '\r' || c == '\t'

def unhex (c : Char) : Option Nat :=
  if c.isDigit then some (c.toNat - 48)
  else if 'a' ≤ c ∧ c ≤ 'f' then some (c.toNat - 87)
  else if 'A' ≤ c ∧ c ≤ 'F' then some (c.toNat - 55)
  else none

/-- How much of a numeral has been read. -/
inductive Part where
  | sign | zero | int | point | frac | exp | expSign | expDigits

def Part.next (p : Part) (c : Char) : Option Part :=
  match p with
  | .sign => if c = '0' then some .zero else if c.isDigit then some .int else none
  | .zero => if c = '.' then some .point else if c = 'e' ∨ c = 'E' then some .exp else none
  | .int =>
    if c.isDigit then some .int
    else if c = '.' then some .point else if c = 'e' ∨ c = 'E' then some .exp else none
  | .point => if c.isDigit then some .frac else none
  | .frac => if c.isDigit then some .frac else if c = 'e' ∨ c = 'E' then some .exp else none
  | .exp =>
    if c = '+' ∨ c = '-' then some .expSign else if c.isDigit then some .expDigits else none
  | .expSign | .expDigits => if c.isDigit then some .expDigits else none

def Part.complete : Part → Bool
  | .zero | .int | .frac | .expDigits => true
  | .sign | .point | .exp | .expSign => false

/-- A container whose end has not been read, and in an object the name of the member
that is being read. -/
inductive Frame where
  | array (items : List Value)
  | object (members : List (Units × Value)) (key : Units)

/-- What a string is read for. -/
inductive Place where
  | value
  | name (members : List (Units × Value))

inductive Control where
  | value
  | firstItem
  | firstName
  | nextName (members : List (Units × Value))
  | colon (members : List (Units × Value)) (key : Units)
  | done (v : Value)
  | literal (rest : List Char) (v : Value)
  | numeral (part : Part) (read : List Char)
  | string (place : Place) (read : Units)
  | escape (place : Place) (read : Units)
  | unicode (place : Place) (read : Units) (missing : Nat) (unit : Nat)

abbrev Config := Control × List Frame

def startValue (stack : List Frame) (c : Char) : Option Config :=
  if c = '{' then some (.firstName, stack)
  else if c = '[' then some (.firstItem, stack)
  else if c = '"' then some (.string .value [], stack)
  else if c = 't' then some (.literal "rue".toList (.bool true), stack)
  else if c = 'f' then some (.literal "alse".toList (.bool false), stack)
  else if c = 'n' then some (.literal "ull".toList .null, stack)
  else if c = '-' then some (.numeral .sign ['-'], stack)
  else if c = '0' then some (.numeral .zero ['0'], stack)
  else if c.isDigit then some (.numeral .int [c], stack)
  else none

/-- A character after a complete value. -/
def afterValue (v : Value) (stack : List Frame) (c : Char) : Option Config :=
  if isSpace c then some (.done v, stack)
  else match stack with
    | [] => none
    | .array items :: stack =>
      if c = ',' then some (.value, .array (items ++ [v]) :: stack)
      else if c = ']' then some (.done (.array (items ++ [v])), stack)
      else none
    | .object members key :: stack =>
      if c = ',' then some (.nextName (setMember members key v), stack)
      else if c = '}' then some (.done (.object (setMember members key v)), stack)
      else none

def Place.close : Place → Units → Control
  | .value, read => .done (.string read)
  | .name members, read => .colon members read

/-- The characters an escape may name, with what they stand for. -/
def escapes : List (Char × UInt16) :=
  [('"', 34), ('\\', 92), ('/', 47), ('b', 8), ('f', 12), ('n', 10), ('r', 13), ('t', 9)]

def step : Config → Char → Option Config
  | (.value, stack), c => if isSpace c then some (.value, stack) else startValue stack c
  | (.firstItem, stack), c =>
    if isSpace c then some (.firstItem, stack)
    else if c = ']' then some (.done (.array []), stack)
    else startValue (.array [] :: stack) c
  | (.firstName, stack), c =>
    if isSpace c then some (.firstName, stack)
    else if c = '}' then some (.done (.object []), stack)
    else if c = '"' then some (.string (.name []) [], stack)
    else none
  | (.nextName members, stack), c =>
    if isSpace c then some (.nextName members, stack)
    else if c = '"' then some (.string (.name members) [], stack)
    else none
  | (.colon members key, stack), c =>
    if isSpace c then some (.colon members key, stack)
    else if c = ':' then some (.value, .object members key :: stack)
    else none
  | (.done v, stack), c => afterValue v stack c
  | (.literal rest v, stack), c =>
    if rest.head? = some c then
      some (if rest.tail = [] then .done v else .literal rest.tail v, stack)
    else none
  | (.numeral part read, stack), c =>
    match part.next c with
    | some part => some (.numeral part (read ++ [c]), stack)
    | none => if part.complete then afterValue (.number read) stack c else none
  | (.string place read, stack), c =>
    if c = '"' then some (place.close read, stack)
    else if c = '\\' then some (.escape place read, stack)
    else if c.toNat < 32 then none
    else some (.string place (read ++ unitsOf c), stack)
  | (.escape place read, stack), c =>
    if c = 'u' then some (.unicode place read 4 0, stack)
    else (escapes.lookup c).map fun u => (.string place (read ++ [u]), stack)
  | (.unicode place read missing unit, stack), c =>
    (unhex c).map fun d =>
      if missing = 1 then (.string place (read ++ [UInt16.ofNat (16 * unit + d)]), stack)
      else (.unicode place read (missing - 1) (16 * unit + d), stack)

/-- The text may end after a complete value that no container surrounds. -/
def finish : Config → Option Value
  | (.done v, []) => some v
  | (.numeral part read, []) => if part.complete then some (.number read) else none
  | _ => none

/-- `JSON.parse` of a text; `none` is a `SyntaxError`. -/
def parse (text : List Char) : Option Value := (text.foldlM step (.value, [])).bind finish

example : parse "\x7b\"a\": [1, -2.5e3, true]\x7d".toList = some (.object [([97],
    .array [.number ['1'], .number "-2.5e3".toList, .bool true])]) := rfl

end SchemaPilot.JsonReader
