import SchemaPilot.Enqueue
import SchemaPilot.OutboxWorker
import SchemaPilot.Runs
import Mathlib.Data.Fintype.Basic
import Mathlib.Logic.Function.Basic

namespace SchemaPilot.DeliverySystem

open Webhook OutboxWorker Enqueue Runs

variable {ι : Type} [Fintype ι] [DecidableEq ι]

structure Worker where
  pc : WorkerPc
  session : Session

structure Caller where
  pc : CallPc
  session : Session

/-- What has been sent and answered, by outbox row. -/
inductive Event where
  | sent (row : Nat)
  | returned (row : Nat) (outcome : Outcome)
  deriving DecidableEq

/-- The committed tables, the workers, the server process whose calls come one at a time, and
what has happened so far. -/
structure State (ι : Type) where
  db : Tables
  clock : Nat
  fresh : Nat
  worker : ι → Worker
  caller : Caller
  log : List Event
  drifts : List Drift

def init : State ι where
  db := .empty
  clock := 0
  fresh := 0
  worker _ := ⟨.poll, .closed⟩
  caller := ⟨.idle, .closed⟩
  log := []
  drifts := []

def State.setWorker (s : State ι) (i : ι) (w : Worker) : State ι :=
  { s with worker := Function.update s.worker i w }

/-- The rows that are locked for a worker. -/
def lockedFor (s : State ι) (i : ι) (id : Nat) : Bool :=
  (∃ j, j ≠ i ∧ id ∈ (s.worker j).session.locks) || id ∈ s.caller.session.locks

def lockedForCaller (s : State ι) (id : Nat) : Bool := ∃ i, id ∈ (s.worker i).session.locks

def sentRow : Effect → Option Nat → List Event
  | .send, row => row.toList.map Event.sent
  | _, _ => []

def stepWorker (c : Config) (s : State ι) (i : ι) : Option (State ι) :=
  let w := s.worker i
  match OutboxWorker.next (w.session.view s.db) s.clock c.batchSize (lockedFor s i) w.pc with
  | none => none
  | some (effect, pc) =>
    let (db, session) := effect.run s.clock s.db w.session
    some { s.setWorker i ⟨pc, session⟩ with
      db
      log := s.log ++ sentRow effect (w.pc.processing.map OutboxRow.id) }

def CallPc.outboxId : CallPc → Option Nat
  | .deliver _ outboxId _ _ _ => some outboxId
  | _ => none

/-- The selection of the subscriptions that a step makes. -/
def selected : CallPc → CallPc → List Drift
  | .selectAffected _ _ _, .loop drift _ => [drift]
  | _, _ => []

def stepCaller (c : Config) (s : State ι) : Option (State ι) :=
  let w := s.caller
  match Enqueue.next c (w.session.view s.db) s.fresh (w.session.now s.clock) (lockedForCaller s)
    w.pc with
  | none => none
  | some (effect, pc) =>
    let (db, session) := effect.run s.clock s.db w.session
    some { s with
      db
      fresh := s.fresh + 1
      caller := ⟨pc, session⟩
      log := s.log ++ sentRow effect (CallPc.outboxId w.pc)
      drifts := s.drifts ++ selected w.pc pc }

/-- A patch keeps the consumer and the endpoint, and a version that it does not set. -/
def updateSubscription (s patch : Subscription) : Subscription :=
  { s with
    targetUrl := patch.targetUrl
    severityThreshold := patch.severityThreshold
    schemaVersion := patch.schemaVersion <|> s.schemaVersion
    active := patch.active }

/-- A subscription is created, or patched. -/
def putSubscription (subscriptions : List Subscription) (new : Subscription) : List Subscription :=
  if subscriptions.any (fun s => s.id = new.id) then
    subscriptions.map (fun s => if s.id = new.id then updateSubscription s new else s)
  else subscriptions ++ [new]

inductive Action (ι : Type) where
  | worker (i : ι)
  | workerResponse (i : ι) (outcome : Outcome)
  | workerFailure (i : ι)
  | request (call : Track.Call)
  | caller
  | callerResponse (outcome : Outcome)
  | callerFailure
  | putSubscription (subscription : Subscription)
  | tick

/-- Statements, commits and answers of all processes in any order. A failure stops a poll or
a call wherever it stands, and closes its session. -/
def step (c : Config) (s : State ι) : Action ι → Option (State ι)
  | .worker i => stepWorker c s i
  | .workerResponse i outcome =>
    match (s.worker i).pc.processing, (s.worker i).pc.respond outcome with
    | some item, some pc =>
      some { s.setWorker i { s.worker i with pc } with log := s.log ++ [.returned item.id outcome] }
    | _, _ => none
  | .workerFailure i => some (s.setWorker i ⟨.poll, .closed⟩)
  | .request call =>
    match s.caller.pc with
    | .idle => some { s with caller := ⟨.upsert call, .closed⟩ }
    | _ => none
  | .caller => stepCaller c s
  | .callerResponse outcome =>
    match CallPc.outboxId s.caller.pc, s.caller.pc.respond outcome with
    | some row, some pc =>
      some { s with caller := { s.caller with pc }, log := s.log ++ [.returned row outcome] }
    | _, _ => none
  | .callerFailure => some { s with caller := ⟨.idle, .closed⟩ }
  | .putSubscription subscription =>
    some { s with
      db := { s.db with subscriptions := DeliverySystem.putSubscription s.db.subscriptions subscription } }
  | .tick => some { s with clock := s.clock + 1 }

section Change

variable (c : Config) (s : State ι)

def DeliverPc.answered (attempt : Nat) (outcome : Outcome) : DeliverPc :=
  if outcome.ok then .succeeded attempt else .failed attempt outcome.reason

/-- What each action makes of a state. -/
inductive Change : Action ι → State ι → Prop
  | worker {i : ι} {effect : Effect} {pc : WorkerPc}
    (hstep : WorkerStep ((s.worker i).session.view s.db) s.clock c.batchSize (lockedFor s i)
      (s.worker i).pc effect pc) :
    Change (.worker i) { s.setWorker i ⟨pc, (effect.run s.clock s.db (s.worker i).session).2⟩ with
      db := (effect.run s.clock s.db (s.worker i).session).1
      log := s.log ++ sentRow effect ((s.worker i).pc.processing.map OutboxRow.id) }
  | workerResponse {i : ι} {outcome : Outcome} {item : OutboxRow} {todo : List OutboxRow}
    {sub : Subscription} {attempt : Nat}
    (hpc : (s.worker i).pc = .deliver item todo sub (.awaiting attempt)) :
    Change (.workerResponse i outcome)
      { s.setWorker i ⟨.deliver item todo sub (DeliverPc.answered attempt outcome),
          (s.worker i).session⟩ with
        log := s.log ++ [.returned item.id outcome] }
  | workerFailure {i : ι} : Change (.workerFailure i) (s.setWorker i ⟨.poll, .closed⟩)
  | request {call : Track.Call} (hpc : s.caller.pc = .idle) :
    Change (.request call) { s with caller := ⟨.upsert call, .closed⟩ }
  | caller {effect : Effect} {pc : CallPc}
    (hstep : CallStep c (s.caller.session.view s.db) s.fresh (s.caller.session.now s.clock)
      (lockedForCaller s) s.caller.pc effect pc) :
    Change .caller { s with
      db := (effect.run s.clock s.db s.caller.session).1
      fresh := s.fresh + 1
      caller := ⟨pc, (effect.run s.clock s.db s.caller.session).2⟩
      log := s.log ++ sentRow effect (CallPc.outboxId s.caller.pc)
      drifts := s.drifts ++ selected s.caller.pc pc }
  | callerResponse {outcome : Outcome} {drift : Drift} {outboxId : Nat} {sub : Subscription}
    {todo : List Subscription} {attempt : Nat}
    (hpc : s.caller.pc = .deliver drift outboxId sub todo (.awaiting attempt)) :
    Change (.callerResponse outcome)
      { s with
        caller := ⟨.deliver drift outboxId sub todo (DeliverPc.answered attempt outcome),
          s.caller.session⟩
        log := s.log ++ [.returned outboxId outcome] }
  | callerFailure : Change .callerFailure { s with caller := ⟨.idle, .closed⟩ }
  | putSubscription {sub : Subscription} :
    Change (.putSubscription sub) { s with
      db := { s.db with subscriptions := putSubscription s.db.subscriptions sub } }
  | tick : Change .tick { s with clock := s.clock + 1 }

variable {c s}

theorem respond_eq_some {pc pc' : DeliverPc} {outcome : Outcome} (h : pc.respond outcome = some pc') :
    ∃ attempt, pc = .awaiting attempt ∧ pc' = DeliverPc.answered attempt outcome := by
  cases pc with
  | awaiting attempt => exact ⟨attempt, rfl, (Option.some.inj h).symm⟩
  | _ => cases h

theorem step_cases {a : Action ι} {s' : State ι} (h : step c s a = some s') : Change c s a s' := by
  cases a with
  | worker i =>
    simp only [step, stepWorker] at h
    split at h
    · cases h
    · next effect pc hn =>
      cases h
      exact .worker (OutboxWorker.next_cases hn)
  | workerResponse i outcome =>
    simp only [step] at h
    split at h
    · next item pc hitem hpc =>
      cases h
      cases hw : (s.worker i).pc with
      | deliver item' todo sub p =>
        rw [hw] at hitem hpc
        cases hitem
        obtain ⟨p', hp', rfl⟩ := Option.map_eq_some_iff.mp hpc
        obtain ⟨attempt, rfl, rfl⟩ := respond_eq_some hp'
        exact .workerResponse hw
      | _ =>
        rw [hw] at hpc
        cases hpc
    · cases h
  | request call =>
    simp only [step] at h
    split at h
    · next hpc =>
      cases h
      exact .request hpc
    · cases h
  | caller =>
    simp only [step, stepCaller] at h
    split at h
    · cases h
    · next effect pc hn =>
      cases h
      exact .caller (Enqueue.next_cases hn)
  | callerResponse outcome =>
    simp only [step] at h
    split at h
    · next row pc hrow hpc =>
      cases h
      cases hw : s.caller.pc with
      | deliver drift outboxId sub todo p =>
        rw [hw] at hrow hpc
        cases hrow
        obtain ⟨p', hp', rfl⟩ := Option.map_eq_some_iff.mp hpc
        obtain ⟨attempt, rfl, rfl⟩ := respond_eq_some hp'
        exact .callerResponse hw
      | _ =>
        rw [hw] at hpc
        cases hpc
    · cases h
  | workerFailure i =>
    cases h
    exact .workerFailure
  | callerFailure =>
    cases h
    exact .callerFailure
  | putSubscription sub =>
    cases h
    exact .putSubscription
  | tick =>
    cases h
    exact .tick

end Change

section Sample

open JsonText Digest Canonical Registry

def sampleKey : EndpointKey := ⟨"n", "svc", "POST", "/orders"⟩

def firstCall : Track.Call := ⟨sampleKey, [("score", .num (.int 1))], by decide⟩

def secondCall : Track.Call := ⟨sampleKey, [("score", .num (.float ⟨"1.5", by decide⟩))], by decide⟩

/-- The digests are those of the two calls. -/
def sampleConfig (batchSize : Nat) (inlineDelivery : Bool) : Config where
  sha256 := sampleSha256 [
    (dumpsSorted (canonicalize firstCall.payload.json),
      "0a729e6ab6035dcd37f199094b9a24d60279d01ee62db8fa3cca7c3fa2dcb417"),
    (dumpsSorted (canonicalize secondCall.payload.json),
      "73a603da77a37e886a14b8c2ac441c920e99006a4314627c9abef71b5aed1c6a")]
  isPrintable _ := true
  jsonb := some
  batchSize := batchSize
  inlineDelivery := inlineDelivery

def sampleSubscription (id : Nat) : Subscription :=
  ⟨id, "consumer", 0, "http://consumer/hook", "SAFE", none, true⟩

/-- The subscriptions are made, the first call registers the endpoint, and the second begins. -/
def driftWith (ids : List Nat) : List (Action ι) :=
  ids.map (fun id => .putSubscription (sampleSubscription id)) ++
    [.request firstCall, .caller, .caller, .request secondCall]

end Sample

end SchemaPilot.DeliverySystem
