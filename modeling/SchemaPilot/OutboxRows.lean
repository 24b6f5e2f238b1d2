import SchemaPilot.DeliveryInvariant

namespace SchemaPilot.OutboxRows

open Webhook OutboxWorker Runs DeliverySystem DeliveryInvariant

def isSent (row : Nat) : Event → Bool
  | .sent row' => row' = row
  | .returned _ _ => false

/-- How many POSTs have been sent for the row. -/
def posts (log : List Event) (row : Nat) : Nat := log.countP (isSent row)

def Event.row : Event → Nat
  | .sent row | .returned row _ => row

section Log

variable {log : List Event} {row : Nat}

theorem posts_sent (log : List Event) (row : Nat) :
    posts (log ++ [.sent row]) row = posts log row + 1 := by
  simp [posts, isSent, List.countP_append]

theorem posts_returned (row row' : Nat) (outcome : Outcome) :
    posts (log ++ [.returned row' outcome]) row = posts log row := by
  simp [posts, isSent, List.countP_append]

theorem successes_returned_self (log : List Event) (row : Nat) (outcome : Outcome) :
    successes (log ++ [.returned row outcome]) row = successes log row + outcome.ok.toNat := by
  cases h : outcome.ok <;> simp [successes, isSuccess, List.countP_append, h]

theorem counts_other {e : Event} (h : Event.row e ≠ row) :
    successes (log ++ [e]) row = successes log row ∧ posts (log ++ [e]) row = posts log row := by
  cases e with
  | sent row' =>
    change row' ≠ row at h
    simp [successes, posts, isSuccess, isSent, List.countP_append, h]
  | returned row' outcome =>
    change row' ≠ row at h
    simp [successes, posts, isSuccess, isSent, List.countP_append, h]

theorem counts_unlogged (h : ∀ e ∈ log, Event.row e ≠ row) :
    successes log row = 0 ∧ posts log row = 0 := by
  refine ⟨List.countP_eq_zero.mpr fun e he hs => h e he ?_,
    List.countP_eq_zero.mpr fun e he hs => h e he ?_⟩
  · cases e with
    | sent row' => cases hs
    | returned row' outcome =>
      simp only [isSuccess, Bool.and_eq_true, decide_eq_true_eq] at hs
      exact hs.1
  · cases e with
    | sent row' => exact of_decide_eq_true hs
    | returned row' outcome => cases hs

end Log

/-- The consumer of a subscription. -/
def consumerOf (subscriptions : List Subscription) (id : Nat) : Option String :=
  (subscriptions.find? (fun s => s.id = id)).map Subscription.consumerId

theorem consumerOf_isSome {subscriptions : List Subscription} {s : Subscription}
    (h : s ∈ subscriptions) : (consumerOf subscriptions s.id).isSome := by
  rw [consumerOf, Option.isSome_map, List.find?_isSome]
  exact ⟨s, h, decide_eq_true rfl⟩

/-- A patch keeps the place of a subscription, and a new one comes after those there. -/
theorem find?_putSubscription {subscriptions : List Subscription} {id : Nat} {s : Subscription}
    (h : subscriptions.find? (fun s => s.id = id) = some s) (new : Subscription) :
    (putSubscription subscriptions new).find? (fun s => s.id = id) =
      some (if s.id = new.id then updateSubscription s new else s) := by
  rw [putSubscription]
  split
  · have hid : (fun s : Subscription => decide (s.id = id)) ∘
        (fun s => if s.id = new.id then updateSubscription s new else s) =
        fun s => decide (s.id = id) := by
      funext s
      rw [Function.comp_apply]
      split <;> rfl
    rw [List.find?_map, hid, h, Option.map_some]
  · next hnone =>
    have hne : s.id ≠ new.id := fun heq =>
      hnone (List.any_eq_true.mpr ⟨s, List.mem_of_find?_eq_some h, decide_eq_true heq⟩)
    rw [List.find?_append, h, if_neg hne, Option.some_or]

/-- A patch changes the consumer of no subscription. -/
theorem consumerOf_putSubscription {subscriptions : List Subscription} {id : Nat} {consumer : String}
    (h : consumerOf subscriptions id = some consumer) (new : Subscription) :
    consumerOf (putSubscription subscriptions new) id = some consumer := by
  obtain ⟨s, hs, rfl⟩ := Option.map_eq_some_iff.mp h
  rw [consumerOf, find?_putSubscription hs, Option.map_some]
  split <;> rfl

/-- The dead letter of a row: an entry for its event and its consumer. -/
def InDlq (db : Tables) (row : OutboxRow) : Prop :=
  ∃ consumer, consumerOf db.subscriptions row.subscriptionId = some consumer ∧
    ∃ e ∈ db.dlq, e.eventId = row.payload.eventId ∧ e.consumerId = consumer ∧
      row.maxAttempts ≤ e.attemptCount

theorem InDlq.mono {db db' : Tables} {row : OutboxRow} (h : InDlq db row)
    (hsubs : ∀ id consumer, consumerOf db.subscriptions id = some consumer →
      consumerOf db'.subscriptions id = some consumer)
    (hdlq : ∀ e ∈ db.dlq, ∃ e' ∈ db'.dlq, e'.eventId = e.eventId ∧ e'.consumerId = e.consumerId ∧
      e.attemptCount ≤ e'.attemptCount) : InDlq db' row := by
  obtain ⟨consumer, hc, e, he, hevent, hconsumer, hcount⟩ := h
  obtain ⟨e', he', hevent', hconsumer', hcount'⟩ := hdlq e he
  exact ⟨consumer, hsubs _ _ hc, e', he', hevent'.trans hevent, hconsumer'.trans hconsumer,
    hcount.trans hcount'⟩

/-- An upsert keeps what is there, with the same key and no smaller count. -/
theorem upsertDlq_keeps (dlq : List DlqEntry) (new : DlqEntry) {e : DlqEntry} (he : e ∈ dlq) :
    ∃ e' ∈ upsertDlq dlq new, e'.eventId = e.eventId ∧ e'.consumerId = e.consumerId ∧
      e.attemptCount ≤ e'.attemptCount := by
  rw [upsertDlq]
  split
  · refine ⟨_, List.mem_map_of_mem he, ?_⟩
    split
    · exact ⟨rfl, rfl, le_max_left _ _⟩
    · exact ⟨rfl, rfl, le_rfl⟩
  · exact ⟨e, List.mem_append_left _ he, rfl, rfl, le_rfl⟩

theorem mem_upsertDlq (dlq : List DlqEntry) (new : DlqEntry) :
    ∃ e ∈ upsertDlq dlq new, e.eventId = new.eventId ∧ e.consumerId = new.consumerId ∧
      new.attemptCount ≤ e.attemptCount := by
  rw [upsertDlq]
  split
  · next hany =>
    obtain ⟨e, he, hkey⟩ := List.any_eq_true.mp hany
    refine ⟨_, List.mem_map_of_mem he, ?_⟩
    rw [if_pos hkey]
    simp only [Bool.and_eq_true, decide_eq_true_eq] at hkey
    exact ⟨hkey.1, hkey.2, le_max_right _ _⟩
  · exact ⟨new, List.mem_append_right _ (List.mem_singleton.mpr rfl), rfl, rfl, le_rfl⟩

/-- What the status of a row says about its attempts, its POSTs and the dead letters. -/
def RowOk (db : Tables) (log : List Event) (row : OutboxRow) : Prop :=
  match row.status with
  | .PENDING =>
    row.attempts < row.maxAttempts ∧ successes log row.id = 0 ∧ posts log row.id ≤ row.attempts
  | .DELIVERING => True
  | .DELIVERED => successes log row.id = 1 ∧ posts log row.id ≤ row.maxAttempts
  | .FAILED => row.attempts = row.maxAttempts ∧ successes log row.id = 0 ∧ InDlq db row

theorem RowOk.mono {db db' : Tables} {log log' : List Event} {row : OutboxRow} (h : RowOk db log row)
    (hcounts : successes log' row.id = successes log row.id ∧ posts log' row.id = posts log row.id)
    (hdlq : InDlq db row → InDlq db' row) : RowOk db' log' row := by
  unfold RowOk at h ⊢
  rw [hcounts.1, hcounts.2]
  cases hstatus : row.status with
  | PENDING | DELIVERING | DELIVERED =>
    simp only [hstatus] at h
    exact h
  | FAILED =>
    simp only [hstatus] at h
    exact ⟨h.1, h.2.1, hdlq h.2.2⟩

/-- What holds of the committed tables and of what has been sent and answered. -/
structure TablesOk (db : Tables) (log : List Event) : Prop where
  rows : ∀ row ∈ db.outbox, RowOk db log row
  ids : (db.outbox.map OutboxRow.id).Nodup
  subscribed : ∀ row ∈ db.outbox, (consumerOf db.subscriptions row.subscriptionId).isSome
  logged : ∀ e ∈ log, Event.row e ∈ db.outbox.map OutboxRow.id

/-- A row that no step changes any more. -/
def Final (row : OutboxRow) : Prop := row.status = .DELIVERED ∨ row.status = .FAILED

section Tables

variable {db db' : Tables} {log : List Event} {row old : OutboxRow}

theorem TablesOk.eq_of_id (h : TablesOk db log) (hr : row ∈ db.outbox) (ho : old ∈ db.outbox)
    (hid : row.id = old.id) : row = old :=
  List.inj_on_of_nodup_map h.ids hr ho hid

theorem TablesOk.congr (h : TablesOk db log) (houtbox : db'.outbox = db.outbox) (hdlq : db'.dlq = db.dlq)
    (hsubs : db'.subscriptions = db.subscriptions) : TablesOk db' log := by
  refine ⟨fun row hr => ?_, houtbox ▸ h.ids, fun row hr => ?_, houtbox ▸ h.logged⟩
  · apply (h.rows row (houtbox ▸ hr)).mono ⟨rfl, rfl⟩
    rw [InDlq, InDlq, hdlq, hsubs]
    exact id
  · rw [hsubs]
    exact h.subscribed row (houtbox ▸ hr)

/-- A POST, or its answer, for a row that is being delivered. -/
theorem TablesOk.event (h : TablesOk db log) (ho : old ∈ db.outbox) (hstatus : old.status = .DELIVERING)
    {e : Event} (he : Event.row e = old.id) : TablesOk db (log ++ [e]) := by
  have hmem : Event.row e ∈ db.outbox.map OutboxRow.id := by
    rw [he]
    exact List.mem_map_of_mem ho
  refine ⟨fun row hr => ?_, h.ids, h.subscribed, forall_mem_concat h.logged hmem⟩
  by_cases hid : row.id = old.id
  · obtain rfl := h.eq_of_id hr ho hid
    rw [RowOk, hstatus]
    trivial
  · apply (h.rows row hr).mono (counts_other ?_) id
    rw [he]
    exact Ne.symm hid

/-- The UPDATE of one row, with what may come to the dead letters. -/
theorem TablesOk.update (h : TablesOk db log) (ho : old ∈ db.outbox) {u : OutboxUpdate}
    (houtbox : db'.outbox = db.outbox.map (fun row => if row.id = old.id then u.apply row else row))
    (hsubs : db'.subscriptions = db.subscriptions)
    (hdlq : ∀ e ∈ db.dlq, ∃ e' ∈ db'.dlq, e'.eventId = e.eventId ∧ e'.consumerId = e.consumerId ∧
      e.attemptCount ≤ e'.attemptCount)
    (hnew : RowOk db' log (u.apply old)) : TablesOk db' log := by
  have hids : db'.outbox.map OutboxRow.id = db.outbox.map OutboxRow.id := by
    rw [houtbox, List.map_map]
    apply List.map_congr_left
    intro row _
    rw [Function.comp_apply]
    split <;> rfl
  refine ⟨fun row hr => ?_, hids ▸ h.ids, fun row hr => ?_, hids ▸ h.logged⟩
  · obtain ⟨row', hr', rfl⟩ := List.mem_map.mp (houtbox ▸ hr)
    by_cases hid : row'.id = old.id
    · obtain rfl := h.eq_of_id hr' ho hid
      rw [if_pos rfl]
      exact hnew
    · rw [if_neg hid]
      exact (h.rows row' hr').mono ⟨rfl, rfl⟩ fun hd => hd.mono (fun _ _ hc => hsubs ▸ hc) hdlq
  · obtain ⟨row', hr', rfl⟩ := List.mem_map.mp (houtbox ▸ hr)
    rw [hsubs]
    split
    · exact h.subscribed row' hr'
    · exact h.subscribed row' hr'

theorem mem_update_self {u : OutboxUpdate}
    (houtbox : db'.outbox = db.outbox.map (fun row => if row.id = old.id then u.apply row else row))
    (ho : old ∈ db.outbox) : u.apply old ∈ db'.outbox := by
  rw [houtbox]
  exact List.mem_map.mpr ⟨old, ho, if_pos rfl⟩

theorem mem_update_other {u : OutboxUpdate}
    (houtbox : db'.outbox = db.outbox.map (fun row => if row.id = old.id then u.apply row else row))
    (hr : row ∈ db.outbox) (hid : row.id ≠ old.id) : row ∈ db'.outbox := by
  rw [houtbox]
  exact List.mem_map.mpr ⟨row, hr, if_neg hid⟩

/-- The INSERT of rows that have not been sent. -/
theorem TablesOk.insert (h : TablesOk db log) {rows : List OutboxRow}
    (hids : (db.outbox.map OutboxRow.id ++ rows.map OutboxRow.id).Nodup)
    (houtbox : db'.outbox = db.outbox ++ rows) (hdlq : db'.dlq = db.dlq)
    (hsubs : db'.subscriptions = db.subscriptions)
    (hnew : ∀ row ∈ rows, row.status = .PENDING ∧ row.attempts = 0 ∧ 0 < row.maxAttempts ∧
      (consumerOf db.subscriptions row.subscriptionId).isSome) : TablesOk db' log := by
  refine ⟨fun row hr => ?_, ?_, fun row hr => ?_, fun e he => ?_⟩
  · obtain hr | hr := List.mem_append.mp (houtbox ▸ hr)
    · apply (h.rows row hr).mono ⟨rfl, rfl⟩
      rw [InDlq, InDlq, hdlq, hsubs]
      exact id
    · obtain ⟨hstatus, hattempts, hmax, -⟩ := hnew row hr
      have hunlogged : ∀ e ∈ log, Event.row e ≠ row.id := fun e he heq =>
        (List.nodup_append.mp hids).2.2 _ (h.logged e he) _ (List.mem_map_of_mem hr) heq
      obtain ⟨hs, hp⟩ := counts_unlogged hunlogged
      rw [RowOk, hstatus, hattempts, hs, hp]
      exact ⟨hmax, rfl, le_rfl⟩
  · rw [houtbox, List.map_append]
    exact hids
  · rw [hsubs]
    obtain hr | hr := List.mem_append.mp (houtbox ▸ hr)
    · exact h.subscribed row hr
    · exact (hnew row hr).2.2.2
  · rw [houtbox, List.map_append]
    exact List.mem_append_left _ (h.logged e he)

theorem TablesOk.putSubscription (h : TablesOk db log) (new : Subscription) :
    TablesOk { db with subscriptions := putSubscription db.subscriptions new } log := by
  refine ⟨fun row hr => ?_, h.ids, fun row hr => ?_, h.logged⟩
  · refine (h.rows row hr).mono ⟨rfl, rfl⟩ fun hd => hd.mono (fun id consumer hc => ?_) fun e he => ?_
    · exact consumerOf_putSubscription hc new
    · exact ⟨e, he, rfl, rfl, le_rfl⟩
  · obtain ⟨consumer, hc⟩ := Option.isSome_iff_exists.mp (h.subscribed row hr)
    exact Option.isSome_iff_exists.mpr ⟨consumer, consumerOf_putSubscription hc new⟩

end Tables

end SchemaPilot.OutboxRows
