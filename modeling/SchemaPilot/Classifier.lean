import SchemaPilot.Canonical
import SchemaPilot.PyRepr

namespace SchemaPilot.Classifier

open Keyed PyRepr

inductive Compatibility where
  | SAFE | BACKWARD_COMPATIBLE | FORWARD_COMPATIBLE | RISKY | BREAKING
  deriving DecidableEq

def Compatibility.rank : Compatibility → Nat
  | .SAFE => 0
  | .BACKWARD_COMPATIBLE => 1
  | .FORWARD_COMPATIBLE => 2
  | .RISKY => 3
  | .BREAKING => 4

inductive PyError where
  | TypeError (message : String)
  | IntegrityError
  | DataError
  | NoResultFound
  deriving DecidableEq

structure DiffItem where
  path : String
  oldType : Option String
  newType : Option String
  oldNullable : Option Bool
  newNullable : Option Bool
  classification : Compatibility
  reason : String
  deriving DecidableEq

/-- Truth value of a Python object. -/
def truthy : Schema → Bool
  | .null => false
  | .bool b => b
  | .str s => s ≠ ""
  | .arr items => items ≠ []
  | .obj fields => fields ≠ []

mutual

/-- Python's `==`: dicts are equal when they hold equal values under the same keys. -/
def pyEq : Schema → Schema → Bool
  | .null, .null => true
  | .bool a, .bool b => a == b
  | .str a, .str b => a == b
  | .arr xs, .arr ys => pyEqItems xs ys
  | .obj fs, .obj gs => fs.length == gs.length && pyEqFields fs gs
  | _, _ => false

def pyEqItems : List Schema → List Schema → Bool
  | [], [] => true
  | x :: xs, y :: ys => pyEq x y && pyEqItems xs ys
  | _, _ => false

def pyEqFields : List (String × Schema) → List (String × Schema) → Bool
  | [], _ => true
  | (k, v) :: fs, gs =>
    (match gs.lookup k with
      | some w => pyEq v w
      | none => false) && pyEqFields fs gs

end

def pyEqOption : Option Schema → Option Schema → Bool
  | none, none => true
  | some a, some b => pyEq a b
  | _, _ => false

def orRoot (path : String) : String := if path = "" then "[root]" else path

def joinKey (pre k : String) : String := if pre = "" then k else pre ++ "." ++ k

def joinItem (pre : String) (i : Nat) : String := pre ++ "[*" ++ toString i ++ "]"

def arrayMarker : Schema := Canonical.leaf "array" false

def unknownMarker : Schema := Canonical.leaf "unknown" true

mutual

def flatten : Schema → String → List (String × Schema)
  | .obj fields, pre =>
    if (fields.lookup "type").isSome then [(orRoot pre, .obj fields)]
    else flattenFields fields pre []
  | .arr items, pre => flattenItems items pre 0 [(orRoot pre, arrayMarker)]
  | .null, pre | .bool _, pre | .num _, pre | .str _, pre => [(orRoot pre, unknownMarker)]

def flattenFields : List (String × Schema) → String → List (String × Schema) →
    List (String × Schema)
  | [], _, flat => flat
  | (k, v) :: fields, pre, flat =>
    flattenFields fields pre (update flat (flatten v (joinKey pre k)))

def flattenItems : List Schema → String → Nat → List (String × Schema) → List (String × Schema)
  | [], _, _, flat => flat
  | x :: items, pre, i, flat =>
    flattenItems items pre (i + 1) (update flat (flatten x (joinItem pre i)))

end

def get (node : Schema) (key : String) : Option Schema :=
  match node with
  | .obj fields => fields.lookup key
  | _ => none

section

variable (isPrintable : Char → Bool)

def typeOf : Schema → String
  | .obj fields =>
    match fields.lookup "type" with
    | some t => strOf isPrintable t
    | none => "object"
  | .arr _ => "array"
  | _ => "unknown"

def nullableOf (node : Schema) : Option Bool := (get node "nullable").map truthy

/-- `bool(node.get("required", default))`, false of anything but a dict. -/
def requiredOf (node : Schema) (default : Bool) : Bool :=
  match node with
  | .obj fields => ((fields.lookup "required").map truthy).getD default
  | _ => false

/-- Only dicts and lists are unhashable among the values of a schema. -/
def unhashable : Schema → Option String
  | .obj _ => some "unhashable type: 'dict'"
  | .arr _ => some "unhashable type: 'list'"
  | _ => none

def toSet (xs : List Schema) : Except PyError (List Schema) :=
  match xs.findSome? unhashable with
  | some message => .error (.TypeError message)
  | none => .ok xs

def properSubset (a b : List Schema) : Bool := decide (a ⊆ b) && !decide (b ⊆ a)

def compareEnums (oldEnum newEnum : List Schema) : Except PyError (Compatibility × String) := do
  let oldSet ← toSet oldEnum
  let newSet ← toSet newEnum
  if properSubset oldSet newSet then return (.FORWARD_COMPATIBLE, "enum expansion")
  if properSubset newSet oldSet then return (.BREAKING, "enum contraction")
  return (.SAFE, "no compatibility risk")

def classifyEnum (old new : Schema) : Except PyError (Compatibility × String) :=
  match get old "enum", get new "enum" with
  | some (.arr oldEnum), some (.arr newEnum) => compareEnums oldEnum newEnum
  | _, _ => .ok (.SAFE, "no compatibility risk")

def classifyTypes (oldT newT : String) : Compatibility × String :=
  if oldT = "integer" ∧ newT = "number" then (.RISKY, "int->float widening")
  else if oldT = "number" ∧ newT = "integer" then (.BREAKING, "float->int narrowing")
  else if oldT = "string" ∧ (newT = "integer" ∨ newT = "number") then (.BREAKING, "string->number")
  else if oldT = "array" ∧ newT = "array" then (.BREAKING, "array item mutation")
  else (.BREAKING, "type changed " ++ oldT ++ "->" ++ newT)

def classify : Option Schema → Option Schema → Except PyError (Compatibility × String)
  | none, some new =>
    if requiredOf new false then .ok (.FORWARD_COMPATIBLE, "added required field")
    else .ok (.SAFE, "added optional field")
  | some old, none =>
    if requiredOf old true then .ok (.BREAKING, "removed required field")
    else .ok (.RISKY, "removed optional field")
  | none, none => .ok (.SAFE, "no compatibility risk")
  | some old, some new =>
    let oldT := typeOf isPrintable old
    let newT := typeOf isPrintable new
    if oldT ≠ newT then .ok (classifyTypes oldT newT)
    else if nullableOf old = some false ∧ nullableOf new = some true then
      .ok (.BACKWARD_COMPATIBLE, "required field becomes nullable")
    else if nullableOf old = some true ∧ nullableOf new = some false then
      .ok (.BREAKING, "nullable field becomes required")
    else classifyEnum old new

/-- The sorted union of the paths, less those where both sides hold the same. -/
def changedPaths (oldFlat newFlat : List (String × Schema)) : List String :=
  (((keys oldFlat ++ keys newFlat).dedup).insertionSort (· ≤ ·)).filter
    (fun path => !pyEqOption (oldFlat.lookup path) (newFlat.lookup path))

def diffItem (oldFlat newFlat : List (String × Schema)) (path : String) :
    Except PyError DiffItem := do
  let old := oldFlat.lookup path
  let new := newFlat.lookup path
  let (classification, reason) ← classify isPrintable old new
  return {
    path
    oldType := old.map (typeOf isPrintable)
    newType := new.map (typeOf isPrintable)
    oldNullable := old.bind nullableOf
    newNullable := new.bind nullableOf
    classification
    reason }

def diffAndClassify (oldSchema newSchema : Schema) : Except PyError (List DiffItem) :=
  let oldFlat := flatten oldSchema ""
  let newFlat := flatten newSchema ""
  (changedPaths oldFlat newFlat).mapM (diffItem isPrintable oldFlat newFlat)

end

/-- The first classification of the greatest rank, as Python's `max` picks it. -/
def summarizeClassification : List DiffItem → Compatibility
  | [] => .SAFE
  | d :: diffs =>
    diffs.foldl (fun c e => if c.rank < e.classification.rank then e.classification else c)
      d.classification

end SchemaPilot.Classifier
