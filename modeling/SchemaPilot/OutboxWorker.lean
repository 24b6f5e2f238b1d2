import SchemaPilot.Webhook
import Mathlib.Data.List.Sort

namespace SchemaPilot.OutboxWorker

open Webhook

def backoffSeconds (attempts : Nat) : Nat := min 60 (2 ^ max 1 attempts)

/-- A row that `SKIP LOCKED` leaves to a poll. -/
def isDue (now : Nat) (locked : Nat → Bool) (row : OutboxRow) : Bool :=
  row.status = .PENDING && row.nextRetryAt ≤ now && !locked row.id

/-- The rows that a poll fetches, and locks. -/
def selectDue (outbox : List OutboxRow) (now batchSize : Nat) (locked : Nat → Bool) :
    List OutboxRow :=
  ((outbox.filter (isDue now locked)).insertionSort (fun a b => a.createdAt ≤ b.createdAt)).take
    batchSize

/-- Where a worker stands in `_poll_once`: the statement it executes next, with the rows of
its batch that are still to be done. -/
inductive WorkerPc where
  | poll
  | loop (todo : List OutboxRow)
  | commitClaim (item : OutboxRow) (todo : List OutboxRow)
  | selectSubscription (item : OutboxRow) (todo : List OutboxRow)
  | failMissing (item : OutboxRow) (todo : List OutboxRow)
  | deliver (item : OutboxRow) (todo : List OutboxRow) (subscription : Subscription) (pc : DeliverPc)
  | upsertDlq (item : OutboxRow) (todo : List OutboxRow) (subscription : Subscription)
  | commitItem (item : OutboxRow) (todo : List OutboxRow)
  | count
  deriving DecidableEq

def delivery (item : OutboxRow) (subscription : Subscription) : Delivery where
  eventId := item.payload.eventId
  endpointId := item.endpointId
  subscription := subscription
  payload := item.payload
  maxAttempts := 1
  persistDlq := false

def exhausted (item : OutboxRow) (subscription : Subscription) : DlqEntry where
  eventId := item.payload.eventId
  consumerId := subscription.consumerId
  endpointId := item.endpointId
  targetUrl := subscription.targetUrl
  payload := item.payload
  failureReason := "outbox max attempts exhausted"
  attemptCount := item.attempts + 1

/-- The UPDATE that ends the processing of a row, and where the worker goes after it. -/
def finish (now : Nat) (item : OutboxRow) (todo : List OutboxRow) (subscription : Subscription)
    (ok : Bool) : OutboxUpdate × WorkerPc :=
  if ok then ({ status := .DELIVERED, attempts := (· + 1) }, .commitItem item todo)
  else
    let nextAttempt := item.attempts + 1
    if item.maxAttempts ≤ nextAttempt then
      ({ status := .FAILED, attempts := fun _ => nextAttempt }, .upsertDlq item todo subscription)
    else
      ({ status := .PENDING, attempts := fun _ => nextAttempt,
         nextRetryAt := some (now + backoffSeconds nextAttempt) }, .commitItem item todo)

/-- An UPDATE waits for the transaction that has locked the row. -/
def update (locked : Nat → Bool) (id : Nat) (u : OutboxUpdate) (pc : WorkerPc) :
    Option (Effect × WorkerPc) :=
  if locked id then none else some (.write (.updateOutbox id u), pc)

/-- The next step of a worker; none while it waits for a lock or for the end of a POST. -/
def next (db : Tables) (now batchSize : Nat) (locked : Nat → Bool) :
    WorkerPc → Option (Effect × WorkerPc)
  | .poll =>
    let rows := selectDue db.outbox now batchSize locked
    some (.selectForUpdate (rows.map OutboxRow.id), .loop rows)
  | .loop [] => some (.read, .count)
  | .loop (item :: todo) =>
    update locked item.id { status := .DELIVERING } (.commitClaim item todo)
  | .commitClaim item todo => some (.commit, .selectSubscription item todo)
  | .selectSubscription item todo =>
    match db.subscriptions.find? (fun s => s.id = item.subscriptionId) with
    | none => some (.read, .failMissing item todo)
    | some s => some (.read, .deliver item todo s (delivery item s).start)
  | .failMissing item todo => update locked item.id { status := .FAILED } (.commitItem item todo)
  | .deliver item todo s (.returned ok) =>
    let (u, pc) := finish now item todo s ok
    update locked item.id u pc
  | .deliver item todo s pc =>
    ((delivery item s).next pc).map fun (effect, pc) => (effect, .deliver item todo s pc)
  | .upsertDlq item todo s => some (.write (.upsertDlq (exhausted item s)), .commitItem item todo)
  | .commitItem _ todo => some (.commit, .loop todo)
  | .count => some (.close, .poll)

/-- The rows that a worker has fetched and not yet done with. -/
def WorkerPc.batch : WorkerPc → List OutboxRow
  | .poll | .count => []
  | .loop todo => todo
  | .commitClaim item todo | .selectSubscription item todo | .failMissing item todo
  | .deliver item todo _ _ | .upsertDlq item todo _ | .commitItem item todo => item :: todo

/-- The row that a worker is processing: from its UPDATE to `DELIVERING` to the commit of its
last one. -/
def WorkerPc.processing : WorkerPc → Option OutboxRow
  | .poll | .count | .loop _ => none
  | .commitClaim item _ | .selectSubscription item _ | .failMissing item _ | .deliver item _ _ _
  | .upsertDlq item _ _ | .commitItem item _ => some item

def WorkerPc.respond (outcome : Outcome) : WorkerPc → Option WorkerPc
  | .deliver item todo s pc => (pc.respond outcome).map fun pc => .deliver item todo s pc
  | _ => none

section SelectDue

variable {outbox : List OutboxRow} {now batchSize : Nat} {locked : Nat → Bool}

theorem mem_selectDue {row : OutboxRow} (h : row ∈ selectDue outbox now batchSize locked) :
    row ∈ outbox ∧ row.status = .PENDING ∧ locked row.id = false := by
  have hm := (List.perm_insertionSort _ _).mem_iff.mp (List.mem_of_mem_take h)
  simp only [List.mem_filter, isDue, Bool.and_eq_true, decide_eq_true_eq, Bool.not_eq_true'] at hm
  exact ⟨hm.1, hm.2.1.1, hm.2.2⟩

theorem nodup_selectDue (h : (outbox.map OutboxRow.id).Nodup) :
    ((selectDue outbox now batchSize locked).map OutboxRow.id).Nodup := by
  have hfilter := h.sublist ((List.filter_sublist (p := isDue now locked)).map OutboxRow.id)
  rw [selectDue]
  apply List.Nodup.sublist ((List.take_sublist _ _).map _)
  exact ((List.perm_insertionSort _ _).map OutboxRow.id).nodup_iff.mpr hfilter

end SelectDue

section Steps

variable (db : Tables) (now batchSize : Nat) (locked : Nat → Bool)

/-- The steps of a worker, one by one. -/
inductive WorkerStep : WorkerPc → Effect → WorkerPc → Prop
  | poll :
    WorkerStep .poll
      (.selectForUpdate ((selectDue db.outbox now batchSize locked).map OutboxRow.id))
      (.loop (selectDue db.outbox now batchSize locked))
  | done : WorkerStep (.loop []) .read .count
  | claim {item : OutboxRow} {todo : List OutboxRow} (free : locked item.id = false) :
    WorkerStep (.loop (item :: todo)) (.write (.updateOutbox item.id { status := .DELIVERING }))
      (.commitClaim item todo)
  | claimed {item : OutboxRow} {todo : List OutboxRow} :
    WorkerStep (.commitClaim item todo) .commit (.selectSubscription item todo)
  | missing {item : OutboxRow} {todo : List OutboxRow}
    (hfind : db.subscriptions.find? (fun s => s.id = item.subscriptionId) = none) :
    WorkerStep (.selectSubscription item todo) .read (.failMissing item todo)
  | found {item : OutboxRow} {todo : List OutboxRow} {s : Subscription}
    (hfind : db.subscriptions.find? (fun s => s.id = item.subscriptionId) = some s) :
    WorkerStep (.selectSubscription item todo) .read (.deliver item todo s (delivery item s).start)
  | failMissing {item : OutboxRow} {todo : List OutboxRow} (free : locked item.id = false) :
    WorkerStep (.failMissing item todo) (.write (.updateOutbox item.id { status := .FAILED }))
      (.commitItem item todo)
  | deliver {item : OutboxRow} {todo : List OutboxRow} {s : Subscription} {pc pc' : DeliverPc}
    {effect : Effect} (hnext : (delivery item s).next pc = some (effect, pc')) :
    WorkerStep (.deliver item todo s pc) effect (.deliver item todo s pc')
  | delivered {item : OutboxRow} {todo : List OutboxRow} {s : Subscription}
    (free : locked item.id = false) :
    WorkerStep (.deliver item todo s (.returned true))
      (.write (.updateOutbox item.id { status := .DELIVERED, attempts := (· + 1) }))
      (.commitItem item todo)
  | exhausted {item : OutboxRow} {todo : List OutboxRow} {s : Subscription}
    (free : locked item.id = false) (hmax : item.maxAttempts ≤ item.attempts + 1) :
    WorkerStep (.deliver item todo s (.returned false))
      (.write (.updateOutbox item.id { status := .FAILED, attempts := fun _ => item.attempts + 1 }))
      (.upsertDlq item todo s)
  | retry {item : OutboxRow} {todo : List OutboxRow} {s : Subscription}
    (free : locked item.id = false) (hmax : item.attempts + 1 < item.maxAttempts) :
    WorkerStep (.deliver item todo s (.returned false))
      (.write (.updateOutbox item.id
        { status := .PENDING, attempts := fun _ => item.attempts + 1,
          nextRetryAt := some (now + backoffSeconds (item.attempts + 1)) }))
      (.commitItem item todo)
  | upsertDlq {item : OutboxRow} {todo : List OutboxRow} {s : Subscription} :
    WorkerStep (.upsertDlq item todo s) (.write (.upsertDlq (exhausted item s)))
      (.commitItem item todo)
  | commitItem {item : OutboxRow} {todo : List OutboxRow} :
    WorkerStep (.commitItem item todo) .commit (.loop todo)
  | count : WorkerStep .count .close .poll

variable {db now batchSize locked}

theorem finish_true (item : OutboxRow) (todo : List OutboxRow) (s : Subscription) :
    finish now item todo s true =
      ({ status := .DELIVERED, attempts := (· + 1) }, .commitItem item todo) :=
  rfl

theorem finish_exhausted {item : OutboxRow} (h : item.maxAttempts ≤ item.attempts + 1)
    (todo : List OutboxRow) (s : Subscription) :
    finish now item todo s false =
      ({ status := .FAILED, attempts := fun _ => item.attempts + 1 }, .upsertDlq item todo s) :=
  if_pos h

theorem finish_retry {item : OutboxRow} (h : item.attempts + 1 < item.maxAttempts)
    (todo : List OutboxRow) (s : Subscription) :
    finish now item todo s false =
      ({ status := .PENDING, attempts := fun _ => item.attempts + 1,
         nextRetryAt := some (now + backoffSeconds (item.attempts + 1)) }, .commitItem item todo) :=
  if_neg (Nat.not_le.mpr h)

theorem update_eq_some {id : Nat} {u : OutboxUpdate} {pc pc' : WorkerPc} {effect : Effect}
    (h : update locked id u pc = some (effect, pc')) :
    locked id = false ∧ effect = .write (.updateOutbox id u) ∧ pc' = pc := by
  rw [update] at h
  split at h
  · cases h
  · next hfree =>
    cases h
    exact ⟨Bool.eq_false_iff.mpr hfree, rfl, rfl⟩

theorem next_cases {pc pc' : WorkerPc} {effect : Effect}
    (h : next db now batchSize locked pc = some (effect, pc')) :
    WorkerStep db now batchSize locked pc effect pc' := by
  cases pc with
  | poll =>
    cases h
    exact .poll
  | loop todo =>
    cases todo with
    | nil =>
      cases h
      exact .done
    | cons item todo =>
      obtain ⟨hfree, rfl, rfl⟩ := update_eq_some h
      exact .claim hfree
  | commitClaim item todo =>
    cases h
    exact .claimed
  | selectSubscription item todo =>
    simp only [next] at h
    split at h
    · next hfind =>
      cases h
      exact .missing hfind
    · next s hfind =>
      cases h
      exact .found hfind
  | failMissing item todo =>
    obtain ⟨hfree, rfl, rfl⟩ := update_eq_some h
    exact .failMissing hfree
  | deliver item todo s pc =>
    by_cases hret : ∃ ok, pc = .returned ok
    · obtain ⟨ok, rfl⟩ := hret
      have hfinish : update locked item.id (finish now item todo s ok).1 (finish now item todo s ok).2 =
          some (effect, pc') := h
      cases ok with
      | true =>
        rw [finish_true] at hfinish
        obtain ⟨hfree, rfl, rfl⟩ := update_eq_some hfinish
        exact .delivered hfree
      | false =>
        by_cases hmax : item.maxAttempts ≤ item.attempts + 1
        · rw [finish_exhausted hmax] at hfinish
          obtain ⟨hfree, rfl, rfl⟩ := update_eq_some hfinish
          exact .exhausted hfree hmax
        · rw [finish_retry (Nat.lt_of_not_le hmax)] at hfinish
          obtain ⟨hfree, rfl, rfl⟩ := update_eq_some hfinish
          exact .retry hfree (Nat.lt_of_not_le hmax)
    · have hnext : ((delivery item s).next pc).map
          (fun p => (p.1, WorkerPc.deliver item todo s p.2)) = some (effect, pc') := by
        cases pc with
        | returned ok => exact absurd ⟨ok, rfl⟩ hret
        | _ => exact h
      obtain ⟨⟨effect', p⟩, hp, heq⟩ := Option.map_eq_some_iff.mp hnext
      cases heq
      exact .deliver hp
  | upsertDlq item todo s =>
    cases h
    exact .upsertDlq
  | commitItem item todo =>
    cases h
    exact .commitItem
  | count =>
    cases h
    exact .count

end Steps

end SchemaPilot.OutboxWorker
