import SchemaPilot.DeliverySystem

namespace SchemaPilot.DlqReplay

open Keyed Webhook

structure SubscriptionRow where
  subscription : Subscription
  createdAt : Nat
  deriving DecidableEq

/-- A row of `webhook_delivery_dlq`, with the payload as the column has it. -/
structure DlqRow where
  id : Nat
  eventId : Nat
  consumerId : String
  endpointId : Nat
  targetUrl : String
  payload : Json
  failureReason : String
  attemptCount : Nat

section Payload

/-- The payload that `deliver_with_retry` and the worker put into an entry. -/
def wrap (payload : Json) (failedAt : String) :
    Json := .obj [("event", payload), ("failed_at", .str failedAt)]

def eventPayload : Json → Json
  | .obj fields => (fields.lookup "event").getD .null
  | v => v

/-- What a replay posts of the payload of an entry. -/
def postedPayload (payload : Json) : Json :=
  match eventPayload payload with
  | .obj fields => .obj fields
  | v => .obj [("value", v)]

/-- What a JSONB column makes of a value that it takes: an object keeps its members, in an order
of the column's own. -/
structure JsonbLaws (jsonb : Json → Option Json) : Prop where
  obj : ∀ fields v, (JsonOf.obj fields).wf → jsonb (.obj fields) = some v → ∃ stored, v = .obj stored ∧
    ∀ key, (stored.lookup key).map some = (fields.lookup key).map jsonb
  idem : ∀ v w, v.wf → jsonb v = some w → jsonb w = some w
  wf : ∀ v w, v.wf → jsonb v = some w → w.wf

theorem wf_wrap {payload : Json} (h : payload.wf) (failedAt : String) :
    (wrap payload failedAt).wf := by
  refine (JsonOf.wf_obj_iff _).mpr ⟨by simp [keys], ?_⟩
  simp only [List.forall_mem_cons]
  exact ⟨h, rfl, List.forall_mem_nil _⟩

/-- A payload that is sent, which is the event's or what the outbox has stored of it. -/
structure PayloadOf (jsonb : Json → Option Json) (event : Payload) (payload : Json) : Prop where
  wf : payload.wf
  stored : jsonb payload = jsonb event.json

variable {jsonb : Json → Option Json} {event : Payload} {payload stored : Json}

theorem payloadOf_json (jsonb : Json → Option Json) (event : Payload) :
    PayloadOf jsonb event event.json :=
  ⟨event.wf, rfl⟩

theorem payloadOf_stored (hjsonb : JsonbLaws jsonb) (h : jsonb event.json = some stored) :
    PayloadOf jsonb event stored where
  wf := hjsonb.wf _ _ event.wf h
  stored := (hjsonb.idem _ _ event.wf h).trans h.symm

/-- A stored entry gives back what the column makes of the event's payload. -/
theorem jsonb_postedPayload (hjsonb : JsonbLaws jsonb) (hevent : (jsonb event.json).isSome)
    (hpayload : PayloadOf jsonb event payload) {failedAt : String}
    (h : jsonb (wrap payload failedAt) = some stored) :
    jsonb event.json = some (postedPayload stored) := by
  obtain ⟨v, hv⟩ := Option.isSome_iff_exists.mp hevent
  obtain ⟨fields, rfl, -⟩ := hjsonb.obj _ _ event.wf hv
  obtain ⟨members, rfl, hlookup⟩ := hjsonb.obj _ _ (wf_wrap hpayload.wf failedAt) h
  have hmember : (members.lookup "event").map some = some (some (.obj fields)) := by
    rw [hlookup "event", ← hv, ← hpayload.stored]
    rfl
  obtain ⟨member, hmember, heq⟩ := Option.map_eq_some_iff.mp hmember
  cases heq
  have hposted : postedPayload (.obj members) = .obj fields := by
    simp only [postedPayload, eventPayload, hmember, Option.getD_some]
  rw [hv, hposted]

end Payload

section Replay

/-- The rows that `ORDER BY created_at DESC LIMIT 1` may return. -/
def newest (rows : List SubscriptionRow) : List SubscriptionRow :=
  rows.filter (fun row => rows.all (fun other => other.createdAt ≤ row.createdAt))

/-- The subscription is one of the consumer and the endpoint of the entry. -/
def matchesEntry (entry : DlqRow) (row : SubscriptionRow) : Bool :=
  row.subscription.endpointId = entry.endpointId && row.subscription.consumerId = entry.consumerId

structure Artifact where
  dlqId : Nat
  eventId : Nat
  consumerId : String
  endpointId : Nat
  targetUrl : String
  replayed : Bool
  failureReason : Option String
  deriving DecidableEq

/-- What a replay answers; the subscription that it picks, and the POSTs that it sends. -/
inductive ReplayResult where
  | dlqNotFound
  | subscriptionNotFound
  | delivered (subscription : Subscription) (posts : List (String × Json)) (artifact : Artifact)
  deriving DecidableEq

/-- One attempt, which an inactive subscription does not get, and no new entry. -/
def deliverTo (entry : DlqRow) (outcome : Outcome) (subscription : Subscription) : ReplayResult :=
  let ok := subscription.active && outcome.ok
  let posts :=
    if subscription.active then [(subscription.targetUrl, postedPayload entry.payload)] else []
  .delivered subscription posts {
    dlqId := entry.id
    eventId := entry.eventId
    consumerId := entry.consumerId
    endpointId := entry.endpointId
    targetUrl := entry.targetUrl
    replayed := ok
    failureReason := if ok then none else some entry.failureReason }

/-- The results that a replay may have: rows of one `created_at` come in any order. -/
def replayDlqEntry (subscriptions : List SubscriptionRow) (dlq : List DlqRow) (dlqId : Nat)
    (outcome : Outcome) : List ReplayResult :=
  match dlq.find? (fun e => e.id = dlqId) with
  | none => [.dlqNotFound]
  | some entry =>
    match newest (subscriptions.filter (matchesEntry entry)) with
    | [] => [.subscriptionNotFound]
    | rows => rows.map (fun row => deliverTo entry outcome row.subscription)

theorem mem_newest {rows : List SubscriptionRow} {row : SubscriptionRow} :
    row ∈ newest rows ↔ row ∈ rows ∧ ∀ other ∈ rows, other.createdAt ≤ row.createdAt := by
  rw [newest, List.mem_filter, List.all_eq_true]
  simp only [decide_eq_true_eq]

/-- Among some rows there is a newest one that is as new as any given one. -/
theorem exists_newest {rows : List SubscriptionRow} (h : rows ≠ []) : ∃ row, row ∈ newest rows := by
  have hmax : ∃ row ∈ rows, ∀ other ∈ rows, other.createdAt ≤ row.createdAt := by
    induction rows with
    | nil => exact absurd rfl h
    | cons row rows ih =>
      by_cases hnil : rows = []
      · subst hnil
        exact ⟨row, List.mem_cons_self, by simp⟩
      · obtain ⟨best, hbest, hall⟩ := ih hnil
        obtain hle | hle := Nat.le_total best.createdAt row.createdAt
        · refine ⟨row, List.mem_cons_self, fun other hother => ?_⟩
          obtain rfl | hother := List.mem_cons.mp hother
          · exact le_rfl
          · exact (hall other hother).trans hle
        · exact ⟨best, List.mem_cons_of_mem _ hbest, List.forall_mem_cons.mpr ⟨hle, hall⟩⟩
  obtain ⟨row, hrow, hall⟩ := hmax
  exact ⟨row, mem_newest.mpr ⟨hrow, hall⟩⟩

theorem newest_eq_nil_iff {rows : List SubscriptionRow} : newest rows = [] ↔ rows = [] := by
  constructor
  · intro h
    by_contra hne
    obtain ⟨row, hrow⟩ := exists_newest hne
    rw [h] at hrow
    cases hrow
  · rintro rfl
    rfl

theorem mem_replayDlqEntry {subscriptions : List SubscriptionRow} {dlq : List DlqRow}
    {entry : DlqRow}
    (hentry : dlq.find? (fun e => e.id = entry.id) = some entry) {outcome : Outcome}
    {r : ReplayResult} :
    r ∈ replayDlqEntry subscriptions dlq entry.id outcome ↔
      (subscriptions.filter (matchesEntry entry) = [] ∧ r = .subscriptionNotFound) ∨
        ∃ row ∈ newest (subscriptions.filter (matchesEntry entry)),
          r = deliverTo entry outcome row.subscription := by
  rw [← newest_eq_nil_iff]
  simp only [replayDlqEntry, hentry]
  split
  · next hnil =>
    rw [hnil, List.mem_singleton]
    constructor
    · exact fun hr => .inl ⟨rfl, hr⟩
    · rintro (⟨-, hr⟩ | ⟨_, hrow, -⟩)
      · exact hr
      · cases hrow
  · next hne =>
    rw [List.mem_map]
    constructor
    · rintro ⟨row, hrow, rfl⟩
      exact .inr ⟨row, hrow, rfl⟩
    · rintro (⟨hnil, -⟩ | ⟨row, hrow, rfl⟩)
      · exact absurd hnil hne
      · exact ⟨row, hrow, rfl⟩

end Replay

end SchemaPilot.DlqReplay
