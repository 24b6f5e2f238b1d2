import SchemaPilot.Json

namespace SchemaPilot.Engine

open Keyed

/-- `str` of a leaf. -/
def leafText : Schema → String
  | .str s => s
  | .bool true => "True"
  | .bool false => "False"
  | .null | .num _ | .arr _ | .obj _ => "None"

mutual

def flattenSchema (pre : String) : Schema → List (String × String)
  | .obj fields => flattenFields pre fields []
  | .arr items => flattenItems pre 0 items [(pre, "array")]
  | .null => [(pre, leafText .null)]
  | .bool b => [(pre, leafText (.bool b))]
  | .num n => [(pre, leafText (.num n))]
  | .str s => [(pre, leafText (.str s))]

def flattenFields (pre : String) :
    List (String × Schema) → List (String × String) → List (String × String)
  | [], out => out
  | (k, v) :: fields, out =>
    flattenFields pre fields (update out (flattenSchema (if pre = "" then k else pre ++ "." ++ k) v))

def flattenItems (pre : String) (i : Nat) :
    List Schema → List (String × String) → List (String × String)
  | [], out => out
  | x :: items, out =>
    flattenItems pre (i + 1) items (update out (flattenSchema (pre ++ "[*" ++ toString i ++ "]") x))

end

inductive ChangeSeverity where
  | SAFE | RISKY | BREAKING
  deriving DecidableEq

structure DriftItem where
  path : String
  old : Option String
  new : Option String
  severity : Option ChangeSeverity := none
  deriving DecidableEq

def structuralDiff (baselineSchema incomingSchema : Schema) : List DriftItem :=
  let baselineFlat := flattenSchema "" baselineSchema
  let incomingFlat := flattenSchema "" incomingSchema
  let paths := ((keys baselineFlat ++ keys incomingFlat).dedup).insertionSort (· ≤ ·)
  paths.filterMap (fun path =>
    let old := baselineFlat.lookup path
    let new := incomingFlat.lookup path
    if old = new then none else some { path, old, new })

def classifySafeChange (item : DriftItem) : DriftItem :=
  if item.old = none ∧ item.new ≠ none then { item with severity := some .SAFE } else item

def primitiveTypes : List String := ["int", "float", "string", "bool"]

def classifyRiskyMutation (item : DriftItem) : DriftItem :=
  match item.severity, item.old, item.new with
  | none, some old, some new =>
    if old ∈ primitiveTypes ∧ new ∈ primitiveTypes ∧ old ≠ new then
      if old = "int" ∧ new = "float" then { item with severity := some .RISKY }
      else { item with severity := some .BREAKING }
    else item
  | _, _, _ => item

/-- The type that `nullable_` stands before. -/
def requiredOld (old : String) : Option String :=
  let nullable := "nullable_".toList
  if nullable.isPrefixOf old.toList then some (String.ofList (old.toList.drop nullable.length)) else none

def classifyBreakingChange (item : DriftItem) : DriftItem :=
  match item.severity, item.old, item.new with
  | none, some _, none => { item with severity := some .BREAKING }
  | none, some old, some new =>
    if requiredOld old = some new then { item with severity := some .BREAKING } else item
  | _, _, _ => item

def classifyContractDrift (diffs : List DriftItem) : List DriftItem :=
  ((diffs.map classifySafeChange).map classifyRiskyMutation).map classifyBreakingChange

end SchemaPilot.Engine
