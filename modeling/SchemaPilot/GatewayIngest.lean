import SchemaPilot.Digest
import SchemaPilot.GatewayRuns
import SchemaPilot.JsonLoads
import SchemaPilot.Redelivery

namespace SchemaPilot.GatewayIngest

open Runs Gateway GatewayRuns Registry Track Redelivery

/-- How `fetch` ends: with a response, or with an exception. -/
inductive Response where
  | http (status : Nat) (details : String)
  | thrown (message : Option String)
  deriving DecidableEq

def Response.ok : Response → Bool
  | .http status _ => 200 ≤ status && status ≤ 299
  | .thrown _ => false

/-- How a call of the runtime forwarder ends. -/
def forwardOutcome : Response → Outcome
  | .http status details =>
    if (Response.http status details).ok then .resolved
    else .rejected (some ("runtime ingestion failed with HTTP " ++ toString status ++
      if details = "" then "" else ": " ++ details))
  | .thrown message => .rejected message

/-- What the runtime reads from the text that `JSON.stringify` makes of a payload is up to the two
JSON libraries. -/
structure Config where
  options : GatewayOptions
  sha256 : ByteArray → String
  isPrintable : Char → Bool
  jsonb : Schema → Option Schema
  received : JsonReader.Value → Option Payload

/-- The call of `/track` that a webhook is posted as. -/
def submission (input : ForwardWebhookInput) (payload : Payload) : Track.Call where
  key := ⟨"gateway", input.source, "POST", "/webhooks/" ++ input.source⟩
  payload := payload

/-- The gateway and the registry of the runtime, with the forwards that the runtime has handled, those
of them it has committed, and all calls it has handled. -/
structure State where
  gateway : GatewayRuns.State
  registry : Db
  handled : List Nat
  committed : List Nat
  calls : List Track.Call

def init : State := ⟨GatewayRuns.initial, Db.empty, [], [], []⟩

inductive Action where
  | request (request : Gateway.Request)
  | ingest (i : Nat)
  | settle (i : Nat) (response : Response)
  | resume (i : Nat)
  | submit (call : Track.Call)

variable (c : Config)

def track (s : State) (call : Track.Call) : State :=
  { s with
    registry := trackPayload c.sha256 c.isPrintable c.jsonb s.registry call
    calls := s.calls ++ [call] }

/-- The runtime handles a forward; a payload that it cannot read is refused. -/
def ingest (s : State) (i : Nat) (input : ForwardWebhookInput) : State :=
  let s := { s with handled := s.handled ++ [i] }
  match c.received input.payload with
  | none => s
  | some payload =>
    let call := submission input payload
    if (trackContract c.sha256 c.isPrintable c.jsonb s.registry call).isOk then
      { track c s call with committed := s.committed ++ [i] }
    else track c s call

/-- A forward is handled at most once, before or after the gateway has given it up. It is answered
with a success only if its call has committed; after the commit the answer may still be a failure,
and it may be lost. -/
def step (s : State) : Action → Option State
  | .request request =>
    (GatewayRuns.step c.options s.gateway (.request request)).map fun gateway => { s with gateway }
  | .ingest i =>
    match s.gateway.calls[i]?.bind Call.forwarded with
    | some input => if i ∈ s.handled then none else some (ingest c s i input)
    | none => none
  | .settle i response =>
    if response.ok ∧ i ∉ s.committed then none
    else
      (GatewayRuns.step c.options s.gateway (.settle i (forwardOutcome response))).map
        fun gateway => { s with gateway }
  | .resume i => (GatewayRuns.step c.options s.gateway (.resume i)).map fun gateway => { s with gateway }
  | .submit call => some (track c s call)

/-- The registry knows the payload of a forwarded webhook. -/
def Registered (db : Db) (call : GatewayRuns.Call) : Prop :=
  ∃ input payload, call.forwarded = some input ∧ c.received input.payload = some payload ∧
    Known db (submission input payload).key ((submission input payload).fingerprint c.sha256)

def Resolved : Progress → Prop
  | .settled _ .resolved | .answered _ .resolved _ => True
  | _ => False

/-- Only a webhook whose forward was a success is answered with 202. -/
def Sound (call : GatewayRuns.Call) : Prop :=
  ∀ reply, call.reply = some reply → reply.status = 202 → Resolved call.progress

structure IngestInv (s : State) : Prop where
  registry : s.registry = runCalls c.sha256 c.isPrintable c.jsonb s.calls
  committed : ∀ i ∈ s.committed, ∃ call, s.gateway.calls[i]? = some call ∧ Registered c s.registry call
  resolved : ∀ i call, s.gateway.calls[i]? = some call → Resolved call.progress → i ∈ s.committed
  sound : ∀ call ∈ s.gateway.calls, Sound call

variable {c} {s s' : State}

theorem Registered.track {call : GatewayRuns.Call} (h : IngestInv c s) (hr : Registered c s.registry call)
    (new : Track.Call) : Registered c (track c s new).registry call := by
  obtain ⟨input, payload, hf, hp, hk⟩ := hr
  have ht : Tidy s.registry := h.registry ▸ tidy_runCalls c.sha256 c.isPrintable c.jsonb s.calls
  exact ⟨input, payload, hf, hp,
    (known_trackPayload c.sha256 c.isPrintable c.jsonb ht new _ _).mpr (.inl hk)⟩

theorem IngestInv.track (h : IngestInv c s) (call : Track.Call) : IngestInv c (track c s call) := by
  refine ⟨?_, fun i hi => ?_, h.resolved, h.sound⟩
  · rw [GatewayIngest.track, runCalls_concat, ← h.registry]
  · obtain ⟨d, hd, hreg⟩ := h.committed i hi
    exact ⟨d, hd, hreg.track h call⟩

theorem IngestInv.ingest (h : IngestInv c s) {i : Nat} {call : GatewayRuns.Call} {input : ForwardWebhookInput}
    (hi : s.gateway.calls[i]? = some call) (hf : call.forwarded = some input) :
    IngestInv c (ingest c s i input) := by
  have hhandled : IngestInv c { s with handled := s.handled ++ [i] } :=
    ⟨h.registry, h.committed, h.resolved, h.sound⟩
  unfold GatewayIngest.ingest
  cases hp : c.received input.payload with
  | none => exact hhandled
  | some payload =>
    have htrack := hhandled.track (submission input payload)
    dsimp only
    split
    · next hok =>
      refine ⟨htrack.registry, forall_mem_concat htrack.committed ⟨call, hi, input, payload, hf, hp, ?_⟩,
        fun j d hd hr => List.mem_append_left _ (h.resolved j d hd hr), h.sound⟩
      have ht : Tidy s.registry := h.registry ▸ tidy_runCalls c.sha256 c.isPrintable c.jsonb s.calls
      exact (known_trackPayload c.sha256 c.isPrintable c.jsonb ht _ _ _).mpr (.inr ⟨rfl, rfl, hok⟩)
    · exact htrack

variable (c)

end SchemaPilot.GatewayIngest
