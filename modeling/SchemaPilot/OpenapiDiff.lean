import SchemaPilot.DiffReport
import SchemaPilot.Fetcher
import SchemaPilot.OuterJoin

namespace SchemaPilot.OpenapiDiff

open Keyed OuterJoin DiffReport
open Fetcher (isIn)

/-- An entry of `components.schemas`: a boolean, or an object of which the scripts read two members. -/
inductive SchemaEntry where
  | bool (b : Bool)
  | dict (properties : Option (List (String × Json))) (required : Option (List String))

inductive ScriptError where
  | AttributeError (message : String)
  deriving DecidableEq

section Read

def readString : Json → Option String
  | .str s => some s
  | _ => none

def readProperties : Option Json → Option (Option (List (String × Json)))
  | none => some none
  | some (.obj properties) => some (some properties)
  | some _ => none

def readRequired : Option Json → Option (Option (List String))
  | none => some none
  | some (.arr items) => (items.mapM readString).map some
  | some _ => none

def readEntry : Json → Option SchemaEntry
  | .bool b => some (.bool b)
  | .obj fields => do
    let properties ← readProperties (fields.lookup "properties")
    let required ← readRequired (fields.lookup "required")
    return .dict properties required
  | _ => none

/-- `payload["components"]["schemas"]`, if both are objects. -/
def componentSchemas : Json → Option (List (String × Json))
  | .obj fields =>
    match fields.lookup "components" with
    | some (.obj components) =>
      match components.lookup "schemas" with
      | some (.obj schemas) => some schemas
      | _ => none
    | _ => none
  | _ => none

def extractSchema (payload : Json) : List (String × Json) :=
  match componentSchemas payload, payload with
  | some schemas, _ => schemas
  | none, .obj fields =>
    match fields.lookup "schema" with
    | some (.obj schema) => schema
    | _ => fields
  | none, _ => []

/-- A parsed OpenAPI document with an object of schemas, and what its entries read as. -/
structure Document where
  payload : Json
  wf : payload.wf
  nested : (componentSchemas payload).isSome
  schemas : List (String × SchemaEntry)
  read : (extractSchema payload).mapM (fun p => (readEntry p.2).map (p.1, ·)) = some schemas

end Read

/-- `schema.get("properties", {}) if isinstance(schema, dict) else {}`. -/
def SchemaEntry.props : SchemaEntry → List (String × Json)
  | .bool _ => []
  | .dict properties _ => properties.getD []

/-- `schema.get("required", []) or []`, for an object. -/
def SchemaEntry.getRequired : SchemaEntry → Except ScriptError (List String)
  | .bool _ => .error (.AttributeError "'bool' object has no attribute 'get'")
  | .dict _ required => .ok (required.getD [])

def fieldType : Json → String
  | .obj fields =>
    match fields.lookup "type" with
    | some (.str value) => value
    | _ => ""
  | _ => ""

/-- `sorted(set(xs) - set(ys))`. -/
def sortedDifference (xs ys : List String) : List String :=
  (xs.filter (· ∉ ys)).dedup.insertionSort (· ≤ ·)

/-- Both fields have a type, and the types differ. -/
def Retyped (old new : Json) : Prop :=
  fieldType old ≠ "" ∧ fieldType new ≠ "" ∧ fieldType old ≠ fieldType new

instance (old new : Json) : Decidable (Retyped old new) := inferInstanceAs (Decidable (_ ∧ _ ∧ _))

/-- The common fields whose types differ, in their order, with the two types. -/
def retypedFields (old new : SchemaEntry) : List (String × String × String) :=
  ((commonEntries old.props new.props).filter (fun p => Retyped p.2.1 p.2.2)).map
    (fun p => (p.1, fieldType p.2.1, fieldType p.2.2))

structure SchemaChanges where
  removedFields : List String
  typeChanges : List String
  requiredChanges : List String
  addedOptionalFields : List String
  deriving DecidableEq

def fieldChanges (old new : SchemaEntry) (oldRequired newRequired : List String) : SchemaChanges :=
  let added := onlyKeys new.props old.props
  { removedFields := onlyKeys old.props new.props
    typeChanges := (retypedFields old new).map (fun p => p.1 ++ ": " ++ p.2.1 ++ " -> " ++ p.2.2)
    requiredChanges :=
      (added.filter (· ∈ newRequired)).map ("added required field: " ++ ·) ++
        ((sortedDifference newRequired oldRequired).map ("field became required: " ++ ·) ++
          (sortedDifference oldRequired newRequired).map ("field no longer required: " ++ ·))
    addedOptionalFields := added.filter (· ∉ newRequired) }

def diffSchemas (old new : SchemaEntry) : Except ScriptError SchemaChanges := do
  let oldRequired ← old.getRequired
  let newRequired ← new.getRequired
  return fieldChanges old new oldRequired newRequired

structure Classified where
  breaking : Bool
  diff : SchemaChanges
  deriving DecidableEq

def classifyDiff (diff : SchemaChanges) : Classified where
  breaking := diff.removedFields ≠ [] || diff.typeChanges ≠ [] ||
    diff.requiredChanges.any (fun item => isIn "required" item && !isIn "no longer" item)
  diff

def diffOpenapiDocuments (oldPayload newPayload : Document) : Except ScriptError Classified := do
  let old := oldPayload.schemas
  let new := newPayload.schemas
  let diffs ← (commonEntries old new).mapM (fun (_, a, b) => diffSchemas a b)
  return classifyDiff {
    removedFields := (onlyKeys old new).map ("schema:" ++ ·) ++ diffs.flatMap (·.removedFields)
    typeChanges := diffs.flatMap (·.typeChanges)
    requiredChanges := diffs.flatMap (·.requiredChanges)
    addedOptionalFields := (onlyKeys new old).map ("schema:" ++ ·) ++ diffs.flatMap (·.addedOptionalFields) }

end SchemaPilot.OpenapiDiff
