import SchemaPilot.Track
import SchemaPilot.Webhook

namespace SchemaPilot.Enqueue

open Canonical Classifier Registry Track Webhook

def Compatibility.ofName : String → Option Compatibility
  | "SAFE" => some .SAFE
  | "BACKWARD_COMPATIBLE" => some .BACKWARD_COMPATIBLE
  | "FORWARD_COMPATIBLE" => some .FORWARD_COMPATIBLE
  | "RISKY" => some .RISKY
  | "BREAKING" => some .BREAKING
  | _ => none

/-- The rank of a name; one that is unknown ranks as `SAFE`. -/
def severityRank (value : String) : Nat := ((Compatibility.ofName value).getD .SAFE).rank

def selectAffectedSubscriptions (subscriptions : List Subscription) (endpointId : Nat)
    (newVersion : Int) (severity : Compatibility) : List Subscription :=
  subscriptions.filter (fun s =>
    s.endpointId = endpointId && s.active && s.schemaVersion.all (· ≤ newVersion) &&
      severityRank s.severityThreshold ≤ severity.rank)

structure Config where
  sha256 : ByteArray → String
  isPrintable : Char → Bool
  jsonb : Schema → Option Schema
  batchSize : Nat
  inlineDelivery : Bool

/-- A version that a call has inserted after another one, the event about it, and the
subscriptions selected for the event. -/
structure Drift where
  version : SchemaVersionRecord
  event : EventPayload
  affected : List Subscription
  deriving DecidableEq

/-- Where a `track_contract` call stands. -/
inductive CallPc where
  | idle
  | upsert (call : Call)
  | classify (new : SchemaVersionRecord) (canonicalSchema : Schema)
  | selectAffected (new : SchemaVersionRecord) (classification : Compatibility)
    (diffs : List DiffItem)
  | loop (drift : Drift) (todo : List Subscription)
  | deliver (drift : Drift) (outboxId : Nat) (subscription : Subscription)
    (todo : List Subscription) (pc : DeliverPc)
  | count
  | commit

def outboxRow (drift : Drift) (id now : Nat) (subscription : Subscription) : OutboxRow where
  id := id
  subscriptionId := subscription.id
  endpointId := drift.event.endpointId
  payload := drift.event
  status := .PENDING
  attempts := 0
  maxAttempts := 5
  nextRetryAt := now
  createdAt := now

def delivery (drift : Drift) (subscription : Subscription) : Delivery where
  eventId := drift.event.eventId
  endpointId := drift.event.endpointId
  subscription := subscription
  payload := drift.event
  maxAttempts := 1
  persistDlq := true

def newDrift (db : Tables) (eventId : Nat) (new : SchemaVersionRecord)
    (classification : Compatibility) (diffs : List DiffItem) : Drift where
  version := new
  event := {
    eventId
    endpointId := new.endpointId
    classification
    newVersion := new.version
    diffs }
  affected := selectAffectedSubscriptions db.subscriptions new.endpointId new.version classification

/-- The next step of a call, with a fresh id for the row or the event it makes. An exception
closes the session. -/
def next (c : Config) (db : Tables) (fresh now : Nat) (locked : Nat → Bool) :
    CallPc → Option (Effect × CallPc)
  | .idle => none
  | .upsert call =>
    let canonicalSchema := canonicalize call.payload.json
    let newFingerprint := fingerprint c.sha256 canonicalSchema
    match upsertSchemaVersion c.jsonb db.registry call.key newFingerprint canonicalSchema .SAFE with
    | .error _ => some (.close, .idle)
    | .ok (registry, _, new, inserted) =>
      if inserted && new.previousVersionId.isSome then
        some (.write (.setRegistry registry), .classify new canonicalSchema)
      else some (.write (.setRegistry registry), .commit)
  | .classify new canonicalSchema =>
    match classifyVersion c.isPrintable db.registry new canonicalSchema with
    | .error _ => some (.close, .idle)
    | .ok (registry, classification, diffs) =>
      some (.write (.setRegistry registry), .selectAffected new classification diffs)
  | .selectAffected new classification diffs =>
    let drift := newDrift db fresh new classification diffs
    some (.read, .loop drift drift.affected)
  | .loop _ [] => some (.read, .count)
  | .loop drift (s :: todo) =>
    let pc :=
      if c.inlineDelivery then .deliver drift fresh s todo (delivery drift s).start
      else .loop drift todo
    some (.write (.insertOutbox (outboxRow drift fresh now s)), pc)
  | .deliver drift outboxId _ todo (.returned ok) =>
    let u : OutboxUpdate :=
      { status := if ok then .DELIVERED else .FAILED, attempts := (· + 1) }
    if locked outboxId then none else some (.write (.updateOutbox outboxId u), .loop drift todo)
  | .deliver drift outboxId s todo pc =>
    ((delivery drift s).next pc).map fun (effect, pc) => (effect, .deliver drift outboxId s todo pc)
  | .count => some (.read, .commit)
  | .commit => some (.commit, .idle)

def CallPc.respond (outcome : Outcome) : CallPc → Option CallPc
  | .deliver drift outboxId s todo pc =>
    (pc.respond outcome).map fun pc => .deliver drift outboxId s todo pc
  | _ => none

section Steps

variable (c : Config) (db : Tables) (fresh now : Nat) (locked : Nat → Bool)

/-- `upsert_schema_version` as a call makes it. -/
def upsert (call : Call) :=
  upsertSchemaVersion c.jsonb db.registry call.key
    (fingerprint c.sha256 (canonicalize call.payload.json)) (canonicalize call.payload.json) .SAFE

/-- The steps of a call, one by one. -/
inductive CallStep : CallPc → Effect → CallPc → Prop
  | refused {call : Call} : CallStep (.upsert call) .close .idle
  | drift {call : Call} {registry : Db} {e : Endpoint} {new : SchemaVersionRecord}
    (hupsert : upsert c db call = .ok (registry, e, new, true))
    (hprevious : new.previousVersionId.isSome) :
    CallStep (.upsert call) (.write (.setRegistry registry))
      (.classify new (canonicalize call.payload.json))
  | noDrift {call : Call} {registry : Db} {e : Endpoint} {new : SchemaVersionRecord} {inserted : Bool}
    (hupsert : upsert c db call = .ok (registry, e, new, inserted))
    (hno : (inserted && new.previousVersionId.isSome) = false) :
    CallStep (.upsert call) (.write (.setRegistry registry)) .commit
  | unclassified {new : SchemaVersionRecord} {schema : Schema} :
    CallStep (.classify new schema) .close .idle
  | classified {new : SchemaVersionRecord} {schema : Schema} {registry : Db}
    {classification : Compatibility} {diffs : List DiffItem}
    (hclassify : classifyVersion c.isPrintable db.registry new schema =
      .ok (registry, classification, diffs)) :
    CallStep (.classify new schema) (.write (.setRegistry registry))
      (.selectAffected new classification diffs)
  | selected {new : SchemaVersionRecord} {classification : Compatibility} {diffs : List DiffItem} :
    CallStep (.selectAffected new classification diffs) .read
      (.loop (newDrift db fresh new classification diffs)
        (newDrift db fresh new classification diffs).affected)
  | done {drift : Drift} : CallStep (.loop drift []) .read .count
  | inline {drift : Drift} {s : Subscription} {todo : List Subscription}
    (hinline : c.inlineDelivery = true) :
    CallStep (.loop drift (s :: todo)) (.write (.insertOutbox (outboxRow drift fresh now s)))
      (.deliver drift fresh s todo (delivery drift s).start)
  | queued {drift : Drift} {s : Subscription} {todo : List Subscription}
    (hinline : c.inlineDelivery = false) :
    CallStep (.loop drift (s :: todo)) (.write (.insertOutbox (outboxRow drift fresh now s)))
      (.loop drift todo)
  | deliver {drift : Drift} {outboxId : Nat} {s : Subscription} {todo : List Subscription}
    {pc pc' : DeliverPc} {effect : Effect} (hnext : (delivery drift s).next pc = some (effect, pc')) :
    CallStep (.deliver drift outboxId s todo pc) effect (.deliver drift outboxId s todo pc')
  | mark {drift : Drift} {outboxId : Nat} {s : Subscription} {todo : List Subscription} {ok : Bool}
    (free : locked outboxId = false) :
    CallStep (.deliver drift outboxId s todo (.returned ok))
      (.write (.updateOutbox outboxId
        { status := if ok then .DELIVERED else .FAILED, attempts := (· + 1) }))
      (.loop drift todo)
  | count : CallStep .count .read .commit
  | commit : CallStep .commit .commit .idle

variable {c db fresh now locked}

theorem next_cases {pc pc' : CallPc} {effect : Effect}
    (h : next c db fresh now locked pc = some (effect, pc')) :
    CallStep c db fresh now locked pc effect pc' := by
  cases pc with
  | idle => cases h
  | upsert call =>
    simp only [next] at h
    split at h
    · cases h
      exact .refused
    · next registry e new inserted hu =>
      cases inserted with
      | true =>
        cases hp : new.previousVersionId.isSome with
        | true =>
          simp only [hp, Bool.and_self, if_true] at h
          cases h
          exact .drift hu hp
        | false =>
          simp only [hp, Bool.and_false, Bool.false_eq_true, if_false] at h
          cases h
          exact .noDrift hu (by rw [hp]; rfl)
      | false =>
        cases h
        exact .noDrift hu rfl
  | classify new schema =>
    simp only [next] at h
    split at h
    · cases h
      exact .unclassified
    · next hc =>
      cases h
      exact .classified hc
  | selectAffected new classification diffs =>
    cases h
    exact .selected
  | loop drift todo =>
    cases todo with
    | nil =>
      cases h
      exact .done
    | cons s todo =>
      simp only [next] at h
      cases hinline : c.inlineDelivery with
      | true =>
        rw [hinline, if_pos rfl] at h
        cases h
        exact .inline hinline
      | false =>
        rw [hinline, if_neg Bool.false_ne_true] at h
        cases h
        exact .queued hinline
  | deliver drift outboxId s todo pc =>
    by_cases hret : ∃ ok, pc = .returned ok
    · obtain ⟨ok, rfl⟩ := hret
      simp only [next] at h
      split at h
      · cases h
      · next hfree =>
        cases h
        exact .mark (Bool.eq_false_iff.mpr hfree)
    · have hnext : ((delivery drift s).next pc).map
          (fun p => (p.1, CallPc.deliver drift outboxId s todo p.2)) = some (effect, pc') := by
        cases pc with
        | returned ok => exact absurd ⟨ok, rfl⟩ hret
        | _ => exact h
      obtain ⟨⟨effect', p⟩, hp, heq⟩ := Option.map_eq_some_iff.mp hnext
      cases heq
      exact .deliver hp
  | count =>
    cases h
    exact .count
  | commit =>
    cases h
    exact .commit

end Steps

end SchemaPilot.Enqueue
