import SchemaPilot.Registry
import Mathlib.Data.List.Induction

namespace SchemaPilot.Webhook

open Classifier Registry

inductive Status where
  | PENDING | DELIVERING | FAILED | DELIVERED
  deriving DecidableEq

/-- A row of `consumer_subscriptions`. -/
structure Subscription where
  id : Nat
  consumerId : String
  endpointId : Nat
  targetUrl : String
  severityThreshold : String
  schemaVersion : Option Int
  active : Bool
  deriving DecidableEq

/-- What is posted to a subscriber. -/
structure EventPayload where
  eventId : Nat
  endpointId : Nat
  classification : Compatibility
  newVersion : Nat
  diffs : List DiffItem
  deriving DecidableEq

/-- A row of `webhook_outbox`. -/
structure OutboxRow where
  id : Nat
  subscriptionId : Nat
  endpointId : Nat
  payload : EventPayload
  status : Status
  attempts : Nat
  maxAttempts : Nat
  nextRetryAt : Nat
  createdAt : Nat
  deriving DecidableEq

structure DeliveryAttempt where
  eventId : Nat
  consumerId : String
  endpointId : Nat
  targetUrl : String
  success : Bool
  failureReason : Option String
  attemptCount : Nat
  deriving DecidableEq

structure DlqEntry where
  eventId : Nat
  consumerId : String
  endpointId : Nat
  targetUrl : String
  payload : EventPayload
  failureReason : String
  attemptCount : Nat
  deriving DecidableEq

/-- The committed tables. -/
structure Tables where
  registry : Registry.Db
  subscriptions : List Subscription
  outbox : List OutboxRow
  attempts : List DeliveryAttempt
  dlq : List DlqEntry

def Tables.empty : Tables := ⟨Registry.Db.empty, [], [], [], []⟩

/-- The INSERT of `upsert_dlq`, which keeps the first entry of an event and a consumer and
the larger count. -/
def upsertDlq (dlq : List DlqEntry) (new : DlqEntry) : List DlqEntry :=
  if dlq.any (fun e => e.eventId = new.eventId && e.consumerId = new.consumerId) then
    dlq.map (fun e =>
      if e.eventId = new.eventId && e.consumerId = new.consumerId then
        { e with
          failureReason := new.failureReason
          attemptCount := max e.attemptCount new.attemptCount }
      else e)
  else dlq ++ [new]

/-- What the UPDATE of an outbox row sets. -/
structure OutboxUpdate where
  status : Status
  attempts : Nat → Nat := id
  nextRetryAt : Option Nat := none

def OutboxUpdate.apply (u : OutboxUpdate) (row : OutboxRow) : OutboxRow :=
  { row with
    status := u.status
    attempts := u.attempts row.attempts
    nextRetryAt := u.nextRetryAt.getD row.nextRetryAt }

inductive Write where
  | setRegistry (registry : Registry.Db)
  | insertOutbox (row : OutboxRow)
  | updateOutbox (id : Nat) (update : OutboxUpdate)
  | insertAttempt (attempt : DeliveryAttempt)
  | upsertDlq (entry : DlqEntry)

def Write.apply (db : Tables) : Write → Tables
  | .setRegistry registry => { db with registry }
  | .insertOutbox row => { db with outbox := db.outbox ++ [row] }
  | .updateOutbox id update =>
    { db with outbox := db.outbox.map (fun row => if row.id = id then update.apply row else row) }
  | .insertAttempt attempt => { db with attempts := db.attempts ++ [attempt] }
  | .upsertDlq entry => { db with dlq := Webhook.upsertDlq db.dlq entry }

def Write.locks : Write → List Nat
  | .updateOutbox id _ => [id]
  | _ => []

/-- The open transaction of a database session: when it began, what it has written, and the
outbox rows it keeps locked. -/
structure Session where
  startedAt : Option Nat := none
  writes : List Write := []
  locks : List Nat := []

def Session.closed : Session := {}

/-- The tables as the session itself sees them. -/
def Session.view (session : Session) (db : Tables) : Tables := session.writes.foldl Write.apply db

/-- `NOW()`, which stands still during a transaction. -/
def Session.now (session : Session) (clock : Nat) : Nat := session.startedAt.getD clock

/-- What one step of a process does outside of it. -/
inductive Effect where
  | read
  | selectForUpdate (ids : List Nat)
  | write (w : Write)
  | commit
  | close
  | send

/-- The ids a transaction has drawn are gone, even when it is rolled back. -/
def reserveIds (db : Tables) : Write → Tables
  | .setRegistry registry => { db with registry := { db.registry with nextId := registry.nextId } }
  | _ => db

def Effect.run (clock : Nat) (db : Tables) (session : Session) : Effect → Tables × Session
  | .read => (db, { session with startedAt := some (session.now clock) })
  | .selectForUpdate ids =>
    (db, { session with startedAt := some (session.now clock), locks := session.locks ++ ids })
  | .write w =>
    (reserveIds db w, {
      startedAt := some (session.now clock)
      writes := session.writes ++ [w]
      locks := session.locks ++ w.locks })
  | .commit => (session.view db, .closed)
  | .close => (db, .closed)
  | .send => (db, session)

/-- The end of a POST: a status code, or the text of the exception. -/
inductive Outcome where
  | response (statusCode : Nat)
  | raised (message : String)
  deriving DecidableEq

def Outcome.ok : Outcome → Bool
  | .response statusCode => 200 ≤ statusCode && statusCode < 300
  | .raised _ => false

def Outcome.reason : Outcome → String
  | .response statusCode => "HTTP " ++ toString statusCode
  | .raised message => message

/-- The arguments of a `deliver_with_retry` call. -/
structure Delivery where
  eventId : Nat
  endpointId : Nat
  subscription : Subscription
  payload : EventPayload
  maxAttempts : Nat
  persistDlq : Bool

/-- Where `deliver_with_retry` stands: the next POST, or the statement that follows it. -/
inductive DeliverPc where
  | post (attempt : Nat)
  | awaiting (attempt : Nat)
  | succeeded (attempt : Nat)
  | failed (attempt : Nat) (reason : String)
  | dlq (attempt : Nat) (reason : String)
  | commit (ok : Bool)
  | returned (ok : Bool)
  deriving DecidableEq

namespace Delivery

variable (d : Delivery)

def start : DeliverPc :=
  if d.subscription.active && 1 ≤ d.maxAttempts then .post 1 else .returned false

def attemptRow (success : Bool) (failureReason : Option String) (attempt : Nat) : DeliveryAttempt where
  eventId := d.eventId
  consumerId := d.subscription.consumerId
  endpointId := d.endpointId
  targetUrl := d.subscription.targetUrl
  success := success
  failureReason := failureReason
  attemptCount := attempt

def dlqEntry (failureReason : String) (attempt : Nat) : DlqEntry where
  eventId := d.eventId
  consumerId := d.subscription.consumerId
  endpointId := d.endpointId
  targetUrl := d.subscription.targetUrl
  payload := d.payload
  failureReason := failureReason
  attemptCount := attempt

/-- The next step; while a POST is under way there is none. -/
def next : DeliverPc → Option (Effect × DeliverPc)
  | .post attempt => some (.send, .awaiting attempt)
  | .awaiting _ => none
  | .succeeded attempt =>
    some (.write (.insertAttempt (d.attemptRow true none attempt)), .commit true)
  | .failed attempt reason =>
    let pc :=
      if attempt = d.maxAttempts then
        if d.persistDlq then .dlq attempt reason else .commit false
      else .post (attempt + 1)
    some (.write (.insertAttempt (d.attemptRow false (some reason) attempt)), pc)
  | .dlq attempt reason => some (.write (.upsertDlq (d.dlqEntry reason attempt)), .commit false)
  | .commit ok => some (.commit, .returned ok)
  | .returned _ => none

theorem start_ne_returned_true : d.start ≠ .returned true := by
  rw [start]
  split <;> exact nofun

end Delivery

def DeliverPc.respond (outcome : Outcome) : DeliverPc → Option DeliverPc
  | .awaiting attempt =>
    some (if outcome.ok then .succeeded attempt else .failed attempt outcome.reason)
  | _ => none

/-- The rows that a list of writes inserts. -/
def inserted (writes : List Write) : List OutboxRow :=
  writes.filterMap fun
    | .insertOutbox row => some row
    | _ => none

section View

variable {session : Session} {db : Tables}

theorem inserted_concat (writes : List Write) (w : Write) :
    inserted (writes ++ [w]) = inserted writes ++ inserted [w] :=
  List.filterMap_append

theorem mem_inserted {writes : List Write} {row : OutboxRow} :
    row ∈ inserted writes ↔ .insertOutbox row ∈ writes := by
  rw [inserted, List.mem_filterMap]
  constructor
  · rintro ⟨w, hw, he⟩
    cases w <;> simp only [Option.some.injEq, reduceCtorEq] at he
    exact he ▸ hw
  · exact fun h => ⟨_, h, rfl⟩

theorem view_concat (session : Session) (db : Tables) (w : Write) {startedAt : Option Nat}
    {locks : List Nat} :
    Session.view ⟨startedAt, session.writes ++ [w], locks⟩ db = w.apply (session.view db) :=
  List.foldl_concat _ _ _ _

/-- Only a commit changes more than the registry of the committed tables. -/
theorem run_db {clock : Nat} {effect : Effect} (h : effect ≠ .commit) :
    ∃ registry, (effect.run clock db session).1 = { db with registry } := by
  cases effect with
  | commit => exact absurd rfl h
  | write w =>
    cases w with
    | setRegistry registry => exact ⟨_, rfl⟩
    | insertOutbox row | updateOutbox id u | insertAttempt attempt | upsertDlq entry =>
      exact ⟨db.registry, rfl⟩
  | read | selectForUpdate ids | close | send => exact ⟨db.registry, rfl⟩

theorem run_outbox {clock : Nat} {effect : Effect} (h : effect ≠ .commit) :
    (effect.run clock db session).1.outbox = db.outbox := by
  obtain ⟨registry, hdb⟩ := @run_db session db clock effect h
  rw [hdb]

theorem mem_run_writes {clock : Nat} {effect : Effect} {x : Write}
    (hx : x ∈ (effect.run clock db session).2.writes) : x ∈ session.writes ∨ effect = .write x := by
  cases effect with
  | write w =>
    obtain hx | hx := List.mem_append.mp hx
    · exact .inl hx
    · exact .inr (congrArg Effect.write (List.mem_singleton.mp hx).symm)
  | read | selectForUpdate ids | send => exact .inl hx
  | commit | close => exact absurd hx List.not_mem_nil

theorem forall_run_writes {clock : Nat} {effect : Effect} {P : Write → Prop}
    (h : ∀ x ∈ session.writes, P x) (heffect : ∀ x, effect = .write x → P x) :
    ∀ x ∈ (effect.run clock db session).2.writes, P x := by
  intro x hx
  obtain hx | hx := mem_run_writes hx
  · exact h x hx
  · exact heffect x hx

theorem view_subscriptions (session : Session) (db : Tables) :
    (session.view db).subscriptions = db.subscriptions := by
  rw [Session.view]
  induction session.writes using List.reverseRecOn with
  | nil => rfl
  | append_singleton writes w ih =>
    rw [List.foldl_concat, ← ih]
    cases w <;> rfl

theorem apply_map {β : Type} {f : OutboxRow → β} (hf : ∀ (u : OutboxUpdate) row, f (u.apply row) = f row)
    (db : Tables) (w : Write) :
    (w.apply db).outbox.map f = db.outbox.map f ++ (inserted [w]).map f := by
  cases w with
  | updateOutbox id u =>
    simp only [Write.apply, inserted, List.filterMap_cons, List.filterMap_nil, List.map_nil,
      List.append_nil, List.map_map]
    apply List.map_congr_left
    intro row _
    rw [Function.comp_apply]
    split
    · exact hf u row
    · rfl
  | insertOutbox row => simp [Write.apply, inserted]
  | setRegistry registry | insertAttempt attempt | upsertDlq entry => simp [Write.apply, inserted]

/-- What no UPDATE changes of a row, over the rows of a view. -/
theorem view_map {β : Type} {f : OutboxRow → β} (hf : ∀ (u : OutboxUpdate) row, f (u.apply row) = f row)
    (session : Session) (db : Tables) :
    (session.view db).outbox.map f = db.outbox.map f ++ (inserted session.writes).map f := by
  rw [Session.view]
  induction session.writes using List.reverseRecOn with
  | nil => simp [inserted]
  | append_singleton writes w ih =>
    rw [List.foldl_concat, apply_map hf, ih, inserted_concat, List.map_append, List.append_assoc]

theorem view_ids (session : Session) (db : Tables) :
    (session.view db).outbox.map OutboxRow.id =
      db.outbox.map OutboxRow.id ++ (inserted session.writes).map OutboxRow.id :=
  view_map (fun _ _ => rfl) session db

theorem exists_apply_iff {P : OutboxRow → Prop} (hP : ∀ (u : OutboxUpdate) row, P (u.apply row) ↔ P row)
    (db : Tables) (w : Write) :
    (∃ row ∈ (w.apply db).outbox, P row) ↔
      (∃ row ∈ db.outbox, P row) ∨ ∃ row ∈ inserted [w], P row := by
  cases w with
  | updateOutbox id u =>
    have hrow : ∀ row : OutboxRow, P (if row.id = id then u.apply row else row) ↔ P row := by
      intro row
      split
      · exact hP u row
      · exact Iff.rfl
    simp [Write.apply, inserted, hrow]
  | insertOutbox row =>
    simp only [Write.apply, inserted, List.filterMap_cons, List.filterMap_nil, List.mem_append, or_and_right,
      exists_or]
  | setRegistry registry | insertAttempt attempt | upsertDlq entry => simp [Write.apply, inserted]

/-- What no UPDATE changes about a row holds of some row of the view when it holds of a row
that was there or has been inserted. -/
theorem exists_view_iff {P : OutboxRow → Prop} (hP : ∀ (u : OutboxUpdate) row, P (u.apply row) ↔ P row)
    (session : Session) (db : Tables) :
    (∃ row ∈ (session.view db).outbox, P row) ↔
      (∃ row ∈ db.outbox, P row) ∨ ∃ row ∈ inserted session.writes, P row := by
  rw [Session.view]
  induction session.writes using List.reverseRecOn with
  | nil => simp [inserted]
  | append_singleton writes w ih =>
    rw [List.foldl_concat, exists_apply_iff hP, ih, inserted_concat]
    simp only [List.mem_append, or_and_right, exists_or, or_assoc]

/-- Some row with the id has the status. -/
def HasStatus (status : Status) (db : Tables) (id : Nat) : Prop :=
  ∃ row ∈ db.outbox, row.id = id ∧ row.status = status

theorem hasStatus_apply {status : Status} {db : Tables} {w : Write} {id : Nat}
    (h : HasStatus status (w.apply db) id) :
    (HasStatus status db id ∧ ∀ u, w ≠ .updateOutbox id u) ∨
      (∃ u, w = .updateOutbox id u ∧ u.status = status) ∨
      ∃ row ∈ inserted [w], row.id = id ∧ row.status = status := by
  obtain ⟨row, hrow, hid, hstatus⟩ := h
  cases w with
  | updateOutbox id' u =>
    obtain ⟨old, hold, rfl⟩ := List.mem_map.mp hrow
    split at hid
    · next he =>
      rw [if_pos he] at hstatus
      obtain rfl : id' = id := he.symm.trans hid
      exact .inr (.inl ⟨u, rfl, hstatus⟩)
    · next he =>
      rw [if_neg he] at hstatus
      refine .inl ⟨⟨old, hold, hid, hstatus⟩, fun u' heq => ?_⟩
      cases heq
      exact he hid
  | insertOutbox new =>
    obtain hold | hnew := List.mem_append.mp hrow
    · exact .inl ⟨⟨row, hold, hid, hstatus⟩, nofun⟩
    · exact .inr (.inr ⟨row, hnew, hid, hstatus⟩)
  | setRegistry registry | insertAttempt attempt | upsertDlq entry =>
    exact .inl ⟨⟨row, hrow, hid, hstatus⟩, nofun⟩

/-- Where the rows of a status in a view come from. -/
theorem hasStatus_view {status : Status} {id : Nat} (h : HasStatus status (session.view db) id) :
    (HasStatus status db id ∧ ∀ u, .updateOutbox id u ∉ session.writes) ∨
      (∃ u, .updateOutbox id u ∈ session.writes ∧ u.status = status) ∨
      ∃ row ∈ inserted session.writes, row.id = id ∧ row.status = status := by
  obtain ⟨startedAt, writes, locks⟩ := session
  rw [Session.view] at h
  dsimp only at h ⊢
  induction writes using List.reverseRecOn with
  | nil => exact .inl ⟨h, fun _ => List.not_mem_nil⟩
  | append_singleton writes w ih =>
    rw [List.foldl_concat] at h
    rw [inserted_concat]
    obtain ⟨hold, hne⟩ | ⟨u, rfl, hu⟩ | ⟨row, hrow, hid⟩ := hasStatus_apply h
    · obtain ⟨hdb, hno⟩ | ⟨u, hu, hs⟩ | ⟨row, hrow, hid⟩ := ih hold
      · refine .inl ⟨hdb, fun u hm => ?_⟩
        obtain hm | hm := List.mem_append.mp hm
        · exact hno u hm
        · exact hne u (List.mem_singleton.mp hm).symm
      · exact .inr (.inl ⟨u, List.mem_append_left _ hu, hs⟩)
      · exact .inr (.inr ⟨row, List.mem_append_left _ hrow, hid⟩)
    · exact .inr (.inl ⟨u, List.mem_append_right _ (List.mem_singleton.mpr rfl), hu⟩)
    · exact .inr (.inr ⟨row, List.mem_append_right _ hrow, hid⟩)

/-- Some row with the id is `PENDING`. -/
def Pending (db : Tables) (id : Nat) : Prop := ∃ row ∈ db.outbox, row.id = id ∧ row.status = .PENDING

theorem pending_view {id : Nat} (h : Pending (session.view db) id) :
    (Pending db id ∧ ∀ u, .updateOutbox id u ∉ session.writes) ∨
      (∃ u, .updateOutbox id u ∈ session.writes ∧ u.status = .PENDING) ∨
      ∃ row ∈ inserted session.writes, row.id = id := by
  obtain hold | hupdate | ⟨row, hrow, hid, -⟩ := hasStatus_view h
  · exact .inl hold
  · exact .inr (.inl hupdate)
  · exact .inr (.inr ⟨row, hrow, hid⟩)

end View

end SchemaPilot.Webhook
