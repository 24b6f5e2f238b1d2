import SchemaPilot.Registry
import SchemaPilot.Runs
import Mathlib.Data.Fintype.Basic
import Mathlib.Logic.Function.Basic

namespace SchemaPilot.RegistryTxn

open Classifier Registry Runs

/-- The arguments of one `upsert_schema_version` call. -/
structure Request where
  key : EndpointKey
  fingerprint : String
  canonicalSchema : Schema
  classification : Compatibility

/-- Where a call stands: the statement it executes next, with what it has read so far. -/
inductive Pc where
  | selectEndpoint
  | insertEndpoint
  | reselectEndpoint
  | selectFingerprint (e : Endpoint)
  | lock (e : Endpoint)
  | selectCurrent (e : Endpoint)
  | recheck (e : Endpoint) (current : Option SchemaVersionRecord)
  | clear (e : Endpoint) (current : SchemaVersionRecord)
  | clearing (e : Endpoint) (current : SchemaVersionRecord) (todo : List Nat)
  | insert (e : Endpoint) (current : Option SchemaVersionRecord)
  | done (record : SchemaVersionRecord) (inserted : Bool)
  | committed (record : SchemaVersionRecord) (inserted : Bool)
  | aborted (uniqueViolation : Bool)
  deriving DecidableEq

/-- A transaction and its uncommitted writes. The rows it has cleared, which it keeps locked,
are known by endpoint and version. -/
structure Txn where
  pc : Pc
  endpoint : Option Endpoint := none
  cleared : List (Nat × Nat) := []
  row : Option SchemaVersionRecord := none
  holdsLock : Bool := false

def Txn.finish (pc : Pc) : Txn := { pc }

variable {ι : Type} [Fintype ι] [DecidableEq ι]

/-- The calls, the process hash each of them sees, and the cast to `jsonb`. -/
structure Config (ι : Type) where
  request : ι → Request
  hash : ι → String → Int
  jsonb : Schema → Option Schema

/-- What is committed, and the transactions. -/
structure State (ι : Type) where
  db : Db
  txn : ι → Txn

def init : State ι := ⟨Db.empty, fun _ => { pc := .selectEndpoint }⟩

def lockKey (key : EndpointKey) : String :=
  key.namespace_ ++ ":" ++ key.serviceName ++ ":" ++ key.httpMethod ++ ":" ++ key.routePath

/-- `_lock_id`, with the built-in hash of the process that serves the call. -/
def lockId (c : Config ι) (i : ι) : Nat :=
  (c.hash i (lockKey (c.request i).key)).natAbs % 2147483647

def State.set (s : State ι) (i : ι) (t : Txn) : State ι :=
  { s with txn := Function.update s.txn i t }

def State.goto (s : State ι) (i : ι) (pc : Pc) : State ι := s.set i { s.txn i with pc }

/-- The committed rows with a transaction's updates applied. -/
def applyClears (cleared : List (Nat × Nat)) (versions : List SchemaVersionRecord) :
    List SchemaVersionRecord :=
  versions.map (fun r => if (r.endpointId, r.version) ∈ cleared then clearCurrent r else r)

def commit (db : Db) (t : Txn) : Db where
  endpoints := db.endpoints ++ t.endpoint.toList
  versions := applyClears t.cleared db.versions ++ t.row.toList
  nextId := db.nextId

/-- `INSERT ... ON CONFLICT DO NOTHING`, which waits for an uncommitted row of the same key. -/
def insertEndpoint (c : Config ι) (s : State ι) (i : ι) : Option (State ι) :=
  let key := (c.request i).key
  if ∃ j, j ≠ i ∧ (s.txn j).endpoint.any (fun e => e.key = key) then none
  else if (findEndpoint s.db.endpoints key).isSome then some (s.goto i .reselectEndpoint)
  else
    let e : Endpoint := { id := s.db.nextId, key, endpointName := endpointName key }
    some ({ s with db := { s.db with nextId := s.db.nextId + 1 } }.set i
      { s.txn i with pc := .reselectEndpoint, endpoint := some e })

/-- The INSERT of a version: a committed row in its way is a UNIQUE violation, an
uncommitted one makes it wait. -/
def insertRow (c : Config ι) (s : State ι) (i : ι) (e : Endpoint)
    (current : Option SchemaVersionRecord) : Option (State ι) :=
  match c.jsonb (c.request i).canonicalSchema with
  | none => some (s.set i (.finish (.aborted false)))
  | some stored =>
    let row := newRow s.db.nextId e.id current (c.request i).fingerprint stored
      (c.request i).classification
    if s.db.versions.any (conflicts row) then some (s.set i (.finish (.aborted true)))
    else if ∃ j, j ≠ i ∧ (s.txn j).row.any (conflicts row) then none
    else
      some ({ s with db := { s.db with nextId := s.db.nextId + 1 } }.set i
        { s.txn i with
          pc := .done { row with canonicalSchema := (c.request i).canonicalSchema } true
          row := some row })

/-- The next statement of a call, or the next row of its UPDATE; `none` while it waits. -/
def advance (c : Config ι) (s : State ι) (i : ι) : Option (State ι) :=
  let req := c.request i
  let t := s.txn i
  match t.pc with
  | .selectEndpoint =>
    match findEndpoint s.db.endpoints req.key with
    | some e => some (s.goto i (.selectFingerprint e))
    | none => some (s.goto i .insertEndpoint)
  | .insertEndpoint => insertEndpoint c s i
  | .reselectEndpoint =>
    match findEndpoint (s.db.endpoints ++ t.endpoint.toList) req.key with
    | some e => some (s.goto i (.selectFingerprint e))
    | none => some (s.set i (.finish (.aborted false)))
  | .selectFingerprint e =>
    match findFingerprint s.db.versions e.id req.fingerprint with
    | some row => some (s.goto i (.done row false))
    | none => some (s.goto i (.lock e))
  | .lock e =>
    if ∃ j, j ≠ i ∧ (s.txn j).holdsLock ∧ lockId c j = lockId c i then none
    else some (s.set i { t with pc := .selectCurrent e, holdsLock := true })
  | .selectCurrent e => some (s.goto i (.recheck e (getCurrentSchema s.db.versions e.id)))
  | .recheck e current =>
    match findFingerprint s.db.versions e.id req.fingerprint with
    | some row => some (s.goto i (.done row false))
    | none =>
      match current with
      | some cur => some (s.goto i (.clear e cur))
      | none => some (s.goto i (.insert e none))
  | .clear e current =>
    -- the rows the UPDATE will touch are those committed when the statement starts
    let todo := (versionsOf s.db.versions e.id).map SchemaVersionRecord.version
    some (s.goto i (.clearing e current todo))
  | .clearing e current [] => some (s.goto i (.insert e (some current)))
  | .clearing e current (v :: todo) =>
    if ∃ j, j ≠ i ∧ (e.id, v) ∈ (s.txn j).cleared then none
    else some (s.set i { t with pc := .clearing e current todo, cleared := (e.id, v) :: t.cleared })
  | .insert e current => insertRow c s i e current
  | .done record inserted =>
    some ({ s with db := commit s.db t }.set i (.finish (.committed record inserted)))
  | .committed _ _ | .aborted _ => none

def Pc.active : Pc → Bool
  | .committed _ _ | .aborted _ => false
  | _ => true

inductive Action (ι : Type) where
  | advance (i : ι)
  | abort (i : ι)

/-- Any call takes its next statement, or is aborted at whatever statement it stands. -/
def step (c : Config ι) (s : State ι) : Action ι → Option (State ι)
  | .advance i => advance c s i
  | .abort i => if (s.txn i).pc.active then some (s.set i (.finish (.aborted false))) else none

end SchemaPilot.RegistryTxn
