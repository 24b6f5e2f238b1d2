import SchemaPilot.Json

namespace SchemaPilot.StructuralType

open Keyed

def primitiveType : Json → String
  | .null => "null"
  | .bool _ => "bool"
  | .num (.int _) => "int"
  | .num (.float _) => "float"
  | .str _ => "string"
  | .arr _ | .obj _ => "unknown"

mutual

def normalizeTypes : Json → Schema
  | .obj fields => .obj (sortByKey (normalizeFields fields))
  | .arr items => .arr (normalizeItems items)
  | .null => .str (primitiveType .null)
  | .bool b => .str (primitiveType (.bool b))
  | .num n => .str (primitiveType (.num n))
  | .str s => .str (primitiveType (.str s))

def normalizeItems : List Json → List Schema
  | [] => []
  | x :: items => normalizeTypes x :: normalizeItems items

def normalizeFields : List (String × Json) → List (String × Schema)
  | [] => []
  | (k, v) :: fields => (k, normalizeTypes v) :: normalizeFields fields

end

mutual

def serializeAstToString : Schema → String
  | .str s => s
  | .obj fields =>
    "object\x7b" ++ ";".intercalate ((sortByKey (serializeFields fields)).map (fun p => p.1 ++ ":" ++ p.2))
      ++ "\x7d"
  | .arr items => "array[" ++ ",".intercalate (serializeItems items) ++ "]"
  | .null | .bool _ | .num _ => "unknown"

def serializeItems : List Schema → List String
  | [] => []
  | x :: items => serializeAstToString x :: serializeItems items

def serializeFields : List (String × Schema) → List (String × String)
  | [] => []
  | (k, v) :: fields => (k, serializeAstToString v) :: serializeFields fields

end

def sortedTexts (xs : List String) : List String := xs.insertionSort (· ≤ ·)

/-- The element types of an array without repetition, then the texts of its other elements. -/
def arrayStructure (resolved : List Schema) : List String :=
  let innerTypes := resolved.filterMap (fun r => match r with | .str t => some t | _ => none)
  let structures := resolved.filterMap
    (fun r => match r with | .str _ => none | _ => some (serializeAstToString r))
  sortedTexts innerTypes.dedup ++ sortedTexts structures

mutual

def extractStructuralType : Json → Schema
  | .obj fields => .obj (sortByKey (extractFields fields))
  | .arr items =>
    if items = [] then .arr [.str "empty_array"]
    else .arr ((arrayStructure (extractItems items)).map .str)
  | .null => .str (primitiveType .null)
  | .bool b => .str (primitiveType (.bool b))
  | .num n => .str (primitiveType (.num n))
  | .str s => .str (primitiveType (.str s))

def extractItems : List Json → List Schema
  | [] => []
  | x :: items => extractStructuralType x :: extractItems items

def extractFields : List (String × Json) → List (String × Schema)
  | [] => []
  | (k, v) :: fields => (k, extractStructuralType v) :: extractFields fields

end

def structuralString (payload : Payload) : String :=
  String.join ((sortByKey (extractFields payload.fields)).map
    (fun p => p.1 ++ ":" ++ serializeAstToString p.2 ++ ";"))

def fingerprintSchema (sha256 : ByteArray → String) (payload : Payload) : String :=
  sha256 (structuralString payload).toUTF8

end SchemaPilot.StructuralType
