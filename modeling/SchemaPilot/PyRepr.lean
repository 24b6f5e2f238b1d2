import SchemaPilot.JsonText

namespace SchemaPilot.PyRepr

open JsonText

section

-- `str.isprintable` beyond ASCII depends on the interpreter's Unicode tables
variable (isPrintable : Char → Bool)

/-- One character inside a Python string literal delimited by `quote`. -/
def reprChar (quote c : Char) : List Char :=
  let n := c.toNat
  if c = quote ∨ c = '\\' then ['\\', c]
  else if c = '\t' then ['\\', 't']
  else if c = '\n' then ['\\', 'n']
  else if c = '\r' then ['\\', 'r']
  else if 32 ≤ n ∧ n < 127 then [c]
  else if 127 < n ∧ isPrintable c then [c]
  else if n ≤ 0xff then '\\' :: 'x' :: (hex4 n).drop 2
  else if n ≤ 0xffff then '\\' :: 'u' :: hex4 n
  else '\\' :: 'U' :: hex4 (n / 0x10000) ++ hex4 (n % 0x10000)

def reprStr (s : String) : List Char :=
  let single := Char.ofNat 39
  let quote := if single ∈ s.toList ∧ '"' ∉ s.toList then '"' else single
  quote :: s.toList.flatMap (reprChar isPrintable quote) ++ [quote]

mutual

/-- `repr` of a value without numbers; a dict is written in insertion order. -/
def reprChars : Schema → List Char
  | .null => "None".toList
  | .bool true => "True".toList
  | .bool false => "False".toList
  | .str s => reprStr isPrintable s
  | .arr items => '[' :: reprItems items
  | .obj fields => '{' :: reprFields fields

def reprItems : List Schema → List Char
  | [] => [']']
  | [x] => reprChars x ++ [']']
  | x :: y :: items => reprChars x ++ ", ".toList ++ reprItems (y :: items)

def reprFields : List (String × Schema) → List Char
  | [] => ['}']
  | [(k, v)] => reprStr isPrintable k ++ ": ".toList ++ reprChars v ++ ['}']
  | (k, v) :: f :: fields =>
    reprStr isPrintable k ++ ": ".toList ++ reprChars v ++ ", ".toList ++ reprFields (f :: fields)

end

/-- `str(v)`. -/
def strOf : Schema → String
  | .str s => s
  | v => String.ofList (reprChars isPrintable v)

@[simp] theorem strOf_str (s : String) : strOf isPrintable (.str s) = s := rfl

/-- `str` of a list of strings, as an f-string prints it. -/
def strOfList (xs : List String) : String := strOf isPrintable (.arr (xs.map .str))

end

end SchemaPilot.PyRepr
