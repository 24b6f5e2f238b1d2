import SchemaPilot.Enqueue
import SchemaPilot.RegistryHistory

namespace SchemaPilot.TrackRuns

open Canonical Classifier Registry Runs RegistryTxn RegistryHistory Webhook Enqueue

/-- What is published about a drift. -/
structure DriftEvent where
  eventId : Nat
  endpointId : Nat
  endpointName : String
  namespace_ : String
  oldFingerprint : String
  newFingerprint : String
  oldVersion : Nat
  newVersion : Nat
  severity : Compatibility
  compatibilityClassification : Compatibility
  schemaDiffSummary : List DiffItem
  affectedConsumerCount : Nat
  deriving DecidableEq

/-- Where a `/track` request stands, from the upsert to the route's commit. The statements
of the upsert itself are those of its registry transaction. -/
inductive Pc where
  | upsert
  | selectPrior (new : SchemaVersionRecord)
  | setClassification (new prior : SchemaVersionRecord) (diffs : List DiffItem)
  | selectAffected (new prior : SchemaVersionRecord) (diffs : List DiffItem)
  | enqueue (prior : SchemaVersionRecord) (drift : Drift) (pc : CallPc)
  | commit
  | finished
  | failed

variable {ι : Type}

/-- The requests, the configuration they share, and the process hash each of them sees. -/
structure Config (ι : Type) where
  base : Enqueue.Config
  call : ι → Track.Call
  hash : ι → String → Int

def Config.schema (c : Config ι) (i : ι) : Schema := canonicalize (c.call i).payload.json

def Config.fingerprint (c : Config ι) (i : ι) : String :=
  Canonical.fingerprint c.base.sha256 (c.schema i)

/-- Every version is inserted as `SAFE`. -/
def Config.registry (c : Config ι) : RegistryTxn.Config ι where
  request i := {
    key := (c.call i).key
    fingerprint := c.fingerprint i
    canonicalSchema := c.schema i
    classification := .SAFE }
  hash := c.hash
  jsonb := c.base.jsonb

/-- The registry with its transactions, the subscriptions, the requests, and the events:
those whose task has been created, and those that a task has published. -/
structure State (ι : Type) where
  registry : RegistryTxn.State ι
  subscriptions : List Subscription
  pc : ι → Pc
  scheduled : List (ι × DriftEvent)
  published : List DriftEvent

def init : State ι := ⟨RegistryTxn.init, [], fun _ => .upsert, [], []⟩

def State.tables (s : State ι) : Tables := { Tables.empty with subscriptions := s.subscriptions }

/-- The version rows that a transaction sees. -/
def visible (registry : RegistryTxn.State ι) (i : ι) : List SchemaVersionRecord :=
  registry.db.versions ++ (registry.txn i).row.toList

def driftEvent (c : Config ι) (i : ι) (prior : SchemaVersionRecord) (drift : Drift) :
    DriftEvent where
  eventId := drift.event.eventId
  endpointId := drift.version.endpointId
  endpointName := endpointName (c.call i).key
  namespace_ := (c.call i).key.namespace_
  oldFingerprint := prior.fingerprint
  newFingerprint := c.fingerprint i
  oldVersion := prior.version
  newVersion := drift.version.version
  severity := drift.event.classification
  compatibilityClassification := drift.event.classification
  schemaDiffSummary := drift.event.diffs
  affectedConsumerCount := drift.affected.length

def relabel (id : Nat) (classification : Compatibility) (r : SchemaVersionRecord) :
    SchemaVersionRecord :=
  if r.id = id then { r with compatibilityClassification := classification } else r

section Steps

variable [Fintype ι] [DecidableEq ι]

def State.goto (s : State ι) (i : ι) (pc : Pc) : State ι :=
  { s with pc := Function.update s.pc i pc }

/-- An exception or a crash closes the session, which rolls its transaction back. -/
def State.fail (s : State ι) (i : ι) : State ι :=
  { s with registry := s.registry.set i (.finish (.aborted false)) }.goto i .failed

/-- The UPDATE of the classification, on the row the transaction has inserted. -/
def setClassification (registry : RegistryTxn.State ι) (i : ι) (id : Nat)
    (classification : Compatibility) : RegistryTxn.State ι :=
  let t := registry.txn i
  registry.set i { t with row := t.row.map (relabel id classification) }

/-- A commit of the session. Once the registry's writes are committed there are no new ones. -/
def commitSession (c : Config ι) (registry : RegistryTxn.State ι) (i : ι) : RegistryTxn.State ι :=
  (advance c.registry registry i).getD registry

def perform (c : Config ι) (registry : RegistryTxn.State ι) (i : ι) : Effect → RegistryTxn.State ι
  | .commit => commitSession c registry i
  | .read | .selectForUpdate _ | .write _ | .close | .send => registry

/-- A statement of `upsert_schema_version`, or what follows its return. -/
def advanceUpsert (c : Config ι) (s : State ι) (i : ι) : Option (State ι) :=
  match (s.registry.txn i).pc with
  | .done new inserted =>
    some (s.goto i (if inserted && new.previousVersionId.isSome then .selectPrior new else .commit))
  | .aborted _ => some (s.goto i .failed)
  | _ => (advance c.registry s.registry i).map fun registry => { s with registry }

/-- The next statement of a request, with a fresh id and the clock. -/
def advanceCall (c : Config ι) (s : State ι) (i : ι) (fresh now : Nat) : Option (State ι) :=
  match s.pc i with
  | .upsert => advanceUpsert c s i
  | .selectPrior new =>
    match (visible s.registry i).find? (fun r => some r.id = new.previousVersionId) with
    | none => some (s.fail i)
    | some prior =>
      match diffAndClassify c.base.isPrintable prior.canonicalSchema (c.schema i) with
      | .error _ => some (s.fail i)
      | .ok diffs => some (s.goto i (.setClassification new prior diffs))
  | .setClassification new prior diffs =>
    let registry := setClassification s.registry i new.id (summarizeClassification diffs)
    some ({ s with registry }.goto i (.selectAffected new prior diffs))
  | .selectAffected new prior diffs =>
    let drift := newDrift s.tables fresh new (summarizeClassification diffs) diffs
    some (s.goto i (.enqueue prior drift (.loop drift drift.affected)))
  | .enqueue prior drift .count =>
    -- the task is created in the same uninterrupted run as the count
    some { s.goto i .commit with
      scheduled := s.scheduled ++ [(i, driftEvent c i prior drift)] }
  | .enqueue prior drift pc =>
    (Enqueue.next c.base s.tables fresh now (fun _ => false) pc).map fun p =>
      { s with registry := perform c s.registry i p.1 }.goto i (.enqueue prior drift p.2)
  | .commit => some ({ s with registry := commitSession c s.registry i }.goto i .finished)
  | .finished | .failed => none

def Pc.active : Pc → Bool
  | .finished | .failed => false
  | _ => true

inductive Action (ι : Type) where
  | advance (i : ι) (fresh now : Nat)
  | respond (i : ι) (outcome : Outcome)
  | fail (i : ι)
  | subscribe (subscriptions : List Subscription)
  | publish (i : ι) (event : DriftEvent)

/-- A request takes its next statement, gets the answer to a POST, or fails where it stands;
the subscriptions change; a task publishes its event, once or again. -/
def step (c : Config ι) (s : State ι) : Action ι → Option (State ι)
  | .advance i fresh now => advanceCall c s i fresh now
  | .respond i outcome =>
    match s.pc i with
    | .enqueue prior drift pc =>
      (pc.respond outcome).map fun pc => s.goto i (.enqueue prior drift pc)
    | _ => none
  | .fail i => if (s.pc i).active then some (s.fail i) else none
  | .subscribe subscriptions => some { s with subscriptions }
  | .publish i event =>
    if (i, event) ∈ s.scheduled then some { s with published := s.published ++ [event] } else none

end Steps

end SchemaPilot.TrackRuns
