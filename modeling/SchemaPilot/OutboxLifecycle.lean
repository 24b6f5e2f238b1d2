import SchemaPilot.OutboxRows
import SchemaPilot.DeliveryOnce

namespace SchemaPilot.OutboxLifecycle

open Webhook OutboxWorker Enqueue Runs DeliverySystem DeliveryInvariant DeliverySteps OutboxRows

/-- A row that waits in the tables as it was fetched. -/
def Fetched (db : Tables) (row : OutboxRow) : Prop := row ∈ db.outbox ∧ row.status = .PENDING

/-- The row that the tables have after an item's UPDATE to `DELIVERING`. -/
def claimed (item : OutboxRow) : OutboxRow := OutboxUpdate.apply { status := .DELIVERING } item

structure Claimed (db : Tables) (item : OutboxRow) : Prop where
  mem : claimed item ∈ db.outbox
  attempts_lt : item.attempts < item.maxAttempts

/-- The POSTs of an item once its last one has been sent. -/
def Answered (log : List Event) (item : OutboxRow) (ok : Bool) : Prop :=
  successes log item.id = ok.toNat ∧ posts log item.id ≤ item.attempts + 1

def Unanswered (log : List Event) (item : OutboxRow) : Prop :=
  successes log item.id = 0 ∧ posts log item.id ≤ item.attempts

theorem Unanswered.answered {log : List Event} {item : OutboxRow} (h : Unanswered log item) :
    Answered log item false :=
  ⟨h.1, Nat.le_succ_of_le h.2⟩

def DeliverOk (log : List Event) (item : OutboxRow) (writes : List Write) : DeliverPc → Prop
  | .post attempt => attempt = 1 ∧ writes = [] ∧ Unanswered log item
  | .awaiting attempt => attempt = 1 ∧ writes = [] ∧ Answered log item false
  | .succeeded _ => writes = [] ∧ Answered log item true
  | .failed attempt _ => attempt = 1 ∧ writes = [] ∧ Answered log item false
  | .dlq _ _ => False
  | .commit ok => (∃ attempt, writes = [.insertAttempt attempt]) ∧ Answered log item ok
  | .returned ok => writes = [] ∧ Answered log item ok

/-- What a worker has written when it is done with an item. -/
inductive Settles (db : Tables) (log : List Event) (item : OutboxRow) : List Write → Prop
  | delivered (h : Answered log item true) :
    Settles db log item [.updateOutbox item.id { status := .DELIVERED, attempts := (· + 1) }]
  | exhausted {sub : Subscription}
    (hsub : consumerOf db.subscriptions item.subscriptionId = some sub.consumerId)
    (hmax : item.maxAttempts ≤ item.attempts + 1) (h : Answered log item false) :
    Settles db log item
      [.updateOutbox item.id { status := .FAILED, attempts := fun _ => item.attempts + 1 },
        .upsertDlq (exhausted item sub)]
  | retry {nextRetryAt : Option Nat} (hmax : item.attempts + 1 < item.maxAttempts)
    (h : Answered log item false) :
    Settles db log item
      [.updateOutbox item.id
        { status := .PENDING, attempts := fun _ => item.attempts + 1, nextRetryAt }]

def PcOk (db : Tables) (log : List Event) (writes : List Write) : WorkerPc → Prop
  | .poll | .count | .loop _ => writes = []
  | .commitClaim item _ =>
    Fetched db item ∧ writes = [.updateOutbox item.id { status := .DELIVERING }]
  | .selectSubscription item _ => Claimed db item ∧ Unanswered log item ∧ writes = []
  | .failMissing _ _ => False
  | .deliver item _ sub pc =>
    Claimed db item ∧ consumerOf db.subscriptions item.subscriptionId = some sub.consumerId ∧
      DeliverOk log item writes pc
  | .upsertDlq item _ sub =>
    Claimed db item ∧ consumerOf db.subscriptions item.subscriptionId = some sub.consumerId ∧
      item.maxAttempts ≤ item.attempts + 1 ∧ Answered log item false ∧
      writes = [.updateOutbox item.id { status := .FAILED, attempts := fun _ => item.attempts + 1 }]
  | .commitItem item _ => Claimed db item ∧ Settles db log item writes

structure WorkerOk (db : Tables) (log : List Event) (w : Worker) : Prop where
  todo : ∀ row ∈ todo w.pc, Fetched db row
  nodup : (w.pc.batch.map OutboxRow.id).Nodup
  pc : PcOk db log w.session.writes w.pc

section Mono

variable {db db' : Tables} {log : List Event}

theorem Settles.mono {item : OutboxRow} {writes : List Write} (h : Settles db log item writes)
    (hsubs : ∀ id consumer, consumerOf db.subscriptions id = some consumer →
      consumerOf db'.subscriptions id = some consumer) : Settles db' log item writes := by
  cases h with
  | delivered h => exact .delivered h
  | exhausted hsub hmax h => exact .exhausted (hsubs _ _ hsub) hmax h
  | retry hmax h => exact .retry hmax h

/-- Rows that are added and subscriptions that are patched do not disturb a worker. -/
theorem WorkerOk.mono {w : Worker} (h : WorkerOk db log w)
    (houtbox : ∀ row ∈ db.outbox, row ∈ db'.outbox)
    (hsubs : ∀ id consumer, consumerOf db.subscriptions id = some consumer →
      consumerOf db'.subscriptions id = some consumer) : WorkerOk db' log w := by
  refine ⟨fun row hr => ⟨houtbox row (h.todo row hr).1, (h.todo row hr).2⟩, h.nodup, ?_⟩
  obtain ⟨pc, session⟩ := w
  have hpc := h.pc
  cases pc with
  | poll | count | loop todo => exact hpc
  | commitClaim item todo => exact ⟨⟨houtbox _ hpc.1.1, hpc.1.2⟩, hpc.2⟩
  | selectSubscription item todo => exact ⟨⟨houtbox _ hpc.1.1, hpc.1.2⟩, hpc.2⟩
  | failMissing item todo => exact hpc
  | deliver item todo sub pc => exact ⟨⟨houtbox _ hpc.1.1, hpc.1.2⟩, hsubs _ _ hpc.2.1, hpc.2.2⟩
  | upsertDlq item todo sub => exact ⟨⟨houtbox _ hpc.1.1, hpc.1.2⟩, hsubs _ _ hpc.2.1, hpc.2.2⟩
  | commitItem item todo => exact ⟨⟨houtbox _ hpc.1.1, hpc.1.2⟩, hpc.2.mono hsubs⟩

end Mono

/-- What a step of the worker makes of the tables, of the log and of itself. -/
structure Advance (db : Tables) (db' : Tables) (log' : List Event) (w' : Worker) : Prop where
  tables : TablesOk db' log'
  worker : WorkerOk db' log' w'
  final : ∀ row ∈ db.outbox, Final row → row ∈ db'.outbox
  subscriptions : db'.subscriptions = db.subscriptions

section Worker

variable {db : Tables} {log : List Event} {now n clock : Nat} {locked : Nat → Bool}

theorem Advance.quiet (ht : TablesOk db log) {w' : Worker} (hw : WorkerOk db log w') :
    Advance db db log w' :=
  ⟨ht, hw, fun _ hr _ => hr, rfl⟩

/-- The commit of an item's UPDATE, with what may have come to the dead letters. -/
theorem Advance.update (ht : TablesOk db log) {db' : Tables} {old : OutboxRow} (ho : old ∈ db.outbox)
    (hopen : ¬Final old) {u : OutboxUpdate}
    (houtbox : db'.outbox = db.outbox.map (fun row => if row.id = old.id then u.apply row else row))
    (hsubs : db'.subscriptions = db.subscriptions)
    (hdlq : ∀ e ∈ db.dlq, ∃ e' ∈ db'.dlq, e'.eventId = e.eventId ∧ e'.consumerId = e.consumerId ∧
      e.attemptCount ≤ e'.attemptCount)
    (hnew : RowOk db' log (u.apply old)) {w' : Worker} (hw : WorkerOk db' log w') :
    Advance db db' log w' := by
  refine ⟨ht.update ho houtbox hsubs hdlq hnew, hw, fun row hr hfinal => ?_, hsubs⟩
  apply mem_update_other houtbox hr
  intro hid
  rw [ht.eq_of_id hr ho hid] at hfinal
  exact hopen hfinal

/-- The rest of a batch stays as it was fetched when the item is updated. -/
theorem fetched_rest {db' : Tables} {item : OutboxRow} {rest : List OutboxRow} {u : OutboxUpdate}
    (hnodup : ((item :: rest).map OutboxRow.id).Nodup) (htodo : ∀ row ∈ rest, Fetched db row)
    (houtbox : db'.outbox = db.outbox.map (fun row => if row.id = item.id then u.apply row else row)) :
    ∀ row ∈ rest, Fetched db' row := by
  intro row hr
  have hid : row.id ≠ item.id := fun heq =>
    (List.nodup_cons.mp hnodup).1 (heq ▸ List.mem_map_of_mem hr)
  exact ⟨mem_update_other houtbox (htodo row hr).1 hid, (htodo row hr).2⟩

theorem advance_claimed (ht : TablesOk db log) {session : Session} {item : OutboxRow}
    {rest : List OutboxRow} (hw : WorkerOk db log ⟨.commitClaim item rest, session⟩) :
    Advance db (session.view db) log ⟨.selectSubscription item rest, .closed⟩ := by
  obtain ⟨htodo, hnodup, ⟨hmem, hstatus⟩, hwrites⟩ := hw
  have hnodup : ((item :: rest).map OutboxRow.id).Nodup := hnodup
  have hview : session.view db = (Write.updateOutbox item.id { status := .DELIVERING }).apply db := by
    rw [Session.view, hwrites]
    rfl
  have hrow := ht.rows item hmem
  rw [RowOk, hstatus] at hrow
  have hopen : ¬Final item := by
    simp [Final, hstatus]
  have hclaimed : Claimed ((Write.updateOutbox item.id { status := .DELIVERING }).apply db) item :=
    ⟨mem_update_self rfl hmem, hrow.1⟩
  rw [hview]
  apply Advance.update ht hmem hopen
  · rfl
  · rfl
  · exact fun e he => ⟨e, he, rfl, rfl, le_rfl⟩
  · trivial
  · exact ⟨fetched_rest hnodup htodo rfl, hnodup, hclaimed, hrow.2, rfl⟩

theorem advance_commitItem (ht : TablesOk db log) {session : Session} {item : OutboxRow}
    {rest : List OutboxRow} (hw : WorkerOk db log ⟨.commitItem item rest, session⟩) :
    Advance db (session.view db) log ⟨.loop rest, .closed⟩ := by
  obtain ⟨htodo, hnodup, ⟨hmem, hlt⟩, hsettles⟩ := hw
  have hnodup : ((item :: rest).map OutboxRow.id).Nodup := hnodup
  have hrest := (List.nodup_cons.mp hnodup).2
  have hopen : ¬Final (claimed item) := nofun
  obtain ⟨startedAt, writes, locks⟩ := session
  dsimp only at hsettles
  cases hsettles with
  | delivered h =>
    apply Advance.update ht hmem hopen
    · rfl
    · rfl
    · exact fun e he => ⟨e, he, rfl, rfl, le_rfl⟩
    · exact ⟨h.1, h.2.trans hlt⟩
    · exact ⟨fetched_rest hnodup htodo rfl, hrest, rfl⟩
  | @exhausted sub hsub hmax h =>
    obtain ⟨e, he, hevent, hconsumer, hcount⟩ := mem_upsertDlq db.dlq (exhausted item sub)
    apply Advance.update ht hmem hopen
    · rfl
    · rfl
    · exact fun e he => upsertDlq_keeps _ _ he
    · exact ⟨Nat.le_antisymm hlt hmax, h.1, sub.consumerId, hsub, e, he, hevent, hconsumer,
        hmax.trans hcount⟩
    · exact ⟨fetched_rest hnodup htodo rfl, hrest, rfl⟩
  | retry hmax h =>
    apply Advance.update ht hmem hopen
    · rfl
    · rfl
    · exact fun e he => ⟨e, he, rfl, rfl, le_rfl⟩
    · exact ⟨hmax, h.1, h.2⟩
    · exact ⟨fetched_rest hnodup htodo rfl, hrest, rfl⟩

theorem advance_deliver (ht : TablesOk db log) {session : Session} {item : OutboxRow}
    {rest : List OutboxRow} {sub : Subscription} {pc pc' : DeliverPc} {effect : Effect}
    (hw : WorkerOk db log ⟨.deliver item rest sub pc, session⟩)
    (hnext : (OutboxWorker.delivery item sub).next pc = some (effect, pc')) :
    Advance db (effect.run clock db session).1 (log ++ sentRow effect (some item.id))
      ⟨.deliver item rest sub pc', (effect.run clock db session).2⟩ := by
  obtain ⟨htodo, hnodup, hclaimed, hsub, hdeliver⟩ := hw
  cases pc with
  | post attempt =>
    cases hnext
    obtain ⟨hattempt, hwrites, hs, hp⟩ := hdeliver
    have hsent : Answered (log ++ [.sent item.id]) item false := by
      rw [Answered, successes_sent, posts_sent]
      exact ⟨hs, Nat.succ_le_succ hp⟩
    exact ⟨ht.event hclaimed.mem rfl rfl, ⟨htodo, hnodup, hclaimed, hsub, hattempt, hwrites, hsent⟩,
      fun _ hr _ => hr, rfl⟩
  | awaiting attempt => cases hnext
  | succeeded attempt =>
    cases hnext
    obtain ⟨hwrites, hanswered⟩ := hdeliver
    change Advance db db (log ++ []) _
    rw [List.append_nil]
    have hwrites : ∃ row, session.writes ++ [.insertAttempt
        ((OutboxWorker.delivery item sub).attemptRow true none attempt)] = [.insertAttempt row] :=
      ⟨_, congrArg (· ++ [_]) hwrites⟩
    exact Advance.quiet ht ⟨htodo, hnodup, hclaimed, hsub, hwrites, hanswered⟩
  | failed attempt reason =>
    obtain ⟨rfl, hwrites, hanswered⟩ := hdeliver
    cases hnext
    change Advance db db (log ++ []) _
    rw [List.append_nil]
    have hwrites : ∃ row, session.writes ++ [.insertAttempt
        ((OutboxWorker.delivery item sub).attemptRow false (some reason) 1)] = [.insertAttempt row] :=
      ⟨_, congrArg (· ++ [_]) hwrites⟩
    exact Advance.quiet ht ⟨htodo, hnodup, hclaimed, hsub, hwrites, hanswered⟩
  | dlq attempt reason => exact hdeliver.elim
  | commit ok =>
    cases hnext
    obtain ⟨⟨attempt, hwrites⟩, hanswered⟩ := hdeliver
    have hview : session.view db = (Write.insertAttempt attempt).apply db := by
      rw [Session.view, hwrites]
      rfl
    change Advance db (session.view db) (log ++ []) _
    rw [List.append_nil, hview]
    exact ⟨ht.congr rfl rfl rfl, ⟨htodo, hnodup, ⟨hclaimed.mem, hclaimed.attempts_lt⟩, hsub, rfl, hanswered⟩,
      fun _ hr _ => hr, rfl⟩
  | returned ok => cases hnext

theorem advance_response (ht : TablesOk db log) {session : Session} {item : OutboxRow}
    {rest : List OutboxRow} {sub : Subscription} {attempt : Nat}
    (hw : WorkerOk db log ⟨.deliver item rest sub (.awaiting attempt), session⟩) (outcome : Outcome) :
    Advance db db (log ++ [.returned item.id outcome])
      ⟨.deliver item rest sub (DeliverPc.answered attempt outcome), session⟩ := by
  obtain ⟨htodo, hnodup, hclaimed, hsub, rfl, hwrites, hs, hp⟩ := hw
  refine ⟨ht.event hclaimed.mem rfl rfl, ⟨htodo, hnodup, hclaimed, hsub, ?_⟩, fun _ hr _ => hr, rfl⟩
  have hanswered : Answered (log ++ [.returned item.id outcome]) item outcome.ok := by
    rw [Answered, successes_returned_self, posts_returned, hs]
    exact ⟨Nat.zero_add _, hp⟩
  rw [DeliverPc.answered]
  split
  · next hok =>
    rw [hok] at hanswered
    exact ⟨hwrites, hanswered⟩
  · next hok =>
    rw [Bool.eq_false_iff.mpr hok] at hanswered
    exact ⟨rfl, hwrites, hanswered⟩

theorem start_deliverOk {item : OutboxRow} {sub : Subscription} (h : Unanswered log item) :
    DeliverOk log item [] (OutboxWorker.delivery item sub).start := by
  rw [Delivery.start]
  split
  · exact ⟨rfl, rfl, h⟩
  · exact ⟨rfl, h.answered⟩

theorem advance_step (ht : TablesOk db log) {w : Worker} (hw : WorkerOk db log w) {pc : WorkerPc}
    {effect : Effect} (hstep : WorkerStep (w.session.view db) now n locked w.pc effect pc) :
    Advance db (effect.run clock db w.session).1
      (log ++ sentRow effect (w.pc.processing.map OutboxRow.id))
      ⟨pc, (effect.run clock db w.session).2⟩ := by
  obtain ⟨pc₀, session⟩ := w
  change WorkerStep (session.view db) now n locked pc₀ effect pc at hstep
  have hview : session.writes = [] → session.view db = db := by
    intro hwrites
    rw [Session.view, hwrites, List.foldl_nil]
  -- what a step that neither commits nor posts leaves to show
  have hquiet : ∀ {effect : Effect} {pc : WorkerPc}, (effect.run clock db session).1 = db →
      sentRow effect (pc₀.processing.map OutboxRow.id) = [] →
      WorkerOk db log ⟨pc, (effect.run clock db session).2⟩ →
      Advance db (effect.run clock db session).1
        (log ++ sentRow effect (pc₀.processing.map OutboxRow.id))
        ⟨pc, (effect.run clock db session).2⟩ := by
    intro effect pc hdb hlog hw'
    rw [hdb, hlog, List.append_nil]
    exact Advance.quiet ht hw'
  cases hstep with
  | poll =>
    have hwrites : session.writes = [] := hw.pc
    rw [hview hwrites]
    refine hquiet rfl rfl ⟨fun row hr => ?_, nodup_selectDue ht.ids, hwrites⟩
    obtain ⟨hmem, hstatus, -⟩ := mem_selectDue hr
    exact ⟨hmem, hstatus⟩
  | done => exact hquiet rfl rfl ⟨fun _ hr => absurd hr List.not_mem_nil, List.nodup_nil, hw.pc⟩
  | @claim item todo _ =>
    have hwrites : session.writes = [] := hw.pc
    refine hquiet rfl rfl ⟨fun row hr => hw.todo row (List.mem_cons_of_mem _ hr), hw.nodup,
      hw.todo item List.mem_cons_self, ?_⟩
    exact congrArg (· ++ [_]) hwrites
  | claimed =>
    change Advance db (session.view db) (log ++ []) _
    rw [List.append_nil]
    exact advance_claimed ht hw
  | @missing item todo hfind =>
    obtain ⟨hclaimed, -, hwrites⟩ := hw.pc
    have hsome := ht.subscribed _ hclaimed.mem
    rw [hview hwrites] at hfind
    change (consumerOf db.subscriptions item.subscriptionId).isSome = true at hsome
    rw [consumerOf, hfind] at hsome
    cases hsome
  | @found item todo sub hfind =>
    obtain ⟨hclaimed, hunanswered, hwrites⟩ := hw.pc
    rw [hview hwrites] at hfind
    refine hquiet rfl rfl ⟨hw.todo, hw.nodup, hclaimed, ?_, ?_⟩
    · rw [consumerOf, hfind]
      rfl
    · change DeliverOk log item session.writes _
      rw [hwrites]
      exact start_deliverOk hunanswered
  | failMissing _ => exact hw.pc.elim
  | deliver hnext => exact advance_deliver ht hw hnext
  | delivered _ =>
    obtain ⟨hclaimed, -, hwrites, hanswered⟩ := hw.pc
    have hwrites : session.writes = [] := hwrites
    refine hquiet rfl rfl ⟨hw.todo, hw.nodup, hclaimed, ?_⟩
    simp only [Effect.run, hwrites, List.nil_append]
    exact .delivered hanswered
  | exhausted _ hmax =>
    obtain ⟨hclaimed, hsub, hwrites, hanswered⟩ := hw.pc
    refine hquiet rfl rfl ⟨hw.todo, hw.nodup, hclaimed, hsub, hmax, hanswered, ?_⟩
    exact congrArg (· ++ [_]) hwrites
  | retry _ hmax =>
    obtain ⟨hclaimed, -, hwrites, hanswered⟩ := hw.pc
    have hwrites : session.writes = [] := hwrites
    refine hquiet rfl rfl ⟨hw.todo, hw.nodup, hclaimed, ?_⟩
    simp only [Effect.run, hwrites, List.nil_append]
    exact .retry hmax hanswered
  | upsertDlq =>
    obtain ⟨hclaimed, hsub, hmax, hanswered, hwrites⟩ := hw.pc
    have hwrites : session.writes = [_] := hwrites
    refine hquiet rfl rfl ⟨hw.todo, hw.nodup, hclaimed, ?_⟩
    simp only [Effect.run, hwrites, List.singleton_append]
    exact .exhausted hsub hmax hanswered
  | commitItem =>
    change Advance db (session.view db) (log ++ []) _
    rw [List.append_nil]
    exact advance_commitItem ht hw
  | count =>
    exact hquiet rfl rfl ⟨fun _ hr => absurd hr List.not_mem_nil, List.nodup_nil, rfl⟩

end Worker

/-- What a call writes while it queues rows. -/
def CallWrite (db : Tables) : Write → Prop
  | .setRegistry _ => True
  | .insertOutbox row =>
    row.status = .PENDING ∧ row.attempts = 0 ∧ 0 < row.maxAttempts ∧
      (consumerOf db.subscriptions row.subscriptionId).isSome
  | .updateOutbox _ _ | .insertAttempt _ | .upsertDlq _ => False

/-- The subscriptions that a call has still to queue a row for. -/
def queue : CallPc → List Subscription
  | .loop _ todo => todo
  | _ => []

structure CallerOk (db : Tables) (w : Caller) : Prop where
  writes : ∀ x ∈ w.session.writes, CallWrite db x
  queue : ∀ sub ∈ queue w.pc, (consumerOf db.subscriptions sub.id).isSome

section Caller

variable {c : Config} {db : Tables} {fresh now : Nat} {locked : Nat → Bool}

theorem CallWrite.mono {db' : Tables} {x : Write} (h : CallWrite db x)
    (hsubs : ∀ id, (consumerOf db.subscriptions id).isSome → (consumerOf db'.subscriptions id).isSome) :
    CallWrite db' x := by
  cases x with
  | setRegistry registry => trivial
  | insertOutbox row => exact ⟨h.1, h.2.1, h.2.2.1, hsubs _ h.2.2.2⟩
  | updateOutbox id u | insertAttempt attempt | upsertDlq entry => exact h.elim

theorem CallerOk.mono {db' : Tables} {w : Caller} (h : CallerOk db w)
    (hsubs : ∀ id, (consumerOf db.subscriptions id).isSome → (consumerOf db'.subscriptions id).isSome) :
    CallerOk db' w :=
  ⟨fun x hx => (h.writes x hx).mono hsubs, fun sub hs => hsubs _ (h.queue sub hs)⟩

/-- A call that queues rows only adds to the outbox. -/
theorem view_call {session : Session} (h : ∀ x ∈ session.writes, CallWrite db x) :
    (session.view db).outbox = db.outbox ++ inserted session.writes ∧
      (session.view db).dlq = db.dlq := by
  obtain ⟨startedAt, writes, locks⟩ := session
  rw [Session.view]
  dsimp only at h ⊢
  induction writes using List.reverseRecOn with
  | nil => exact ⟨(List.append_nil _).symm, rfl⟩
  | append_singleton writes w ih =>
    obtain ⟨houtbox, hdlq⟩ := ih fun x hx => h x (List.mem_append_left _ hx)
    have hlast := h w (List.mem_append_right _ (List.mem_singleton.mpr rfl))
    rw [List.foldl_concat, inserted_concat, ← List.append_assoc, ← houtbox]
    cases w with
    | setRegistry registry => exact ⟨(List.append_nil _).symm, hdlq⟩
    | insertOutbox row => exact ⟨rfl, hdlq⟩
    | updateOutbox id u | insertAttempt attempt | upsertDlq entry => exact hlast.elim

theorem callerOk_step {w : Caller} (h : CallerOk db w) (hinline : c.inlineDelivery = false)
    (hidle : delivering w.pc = false) {pc : CallPc} {effect : Effect}
    (hstep : CallStep c (w.session.view db) fresh now locked w.pc effect pc) (clock : Nat) :
    CallerOk db ⟨pc, (effect.run clock db w.session).2⟩ := by
  obtain ⟨pc₀, session⟩ := w
  change CallStep c (session.view db) fresh now locked pc₀ effect pc at hstep
  have hnil : ∀ x ∈ ([] : List Write), CallWrite db x := List.forall_mem_nil _
  have hnone : ∀ sub ∈ ([] : List Subscription), (consumerOf db.subscriptions sub.id).isSome :=
    List.forall_mem_nil _
  cases hstep with
  | refused | unclassified | commit => exact ⟨hnil, hnone⟩
  | drift _ _ | noDrift _ _ | classified _ => exact ⟨forall_mem_concat h.writes trivial, hnone⟩
  | selected =>
    refine ⟨h.writes, fun sub hs => ?_⟩
    have hmem := List.mem_of_mem_filter hs
    rw [view_subscriptions] at hmem
    exact consumerOf_isSome hmem
  | done | count => exact ⟨h.writes, hnone⟩
  | inline hc =>
    rw [hinline] at hc
    cases hc
  | @queued drift sub todo _ =>
    have hsub := h.queue sub List.mem_cons_self
    exact ⟨forall_mem_concat h.writes ⟨rfl, rfl, Nat.succ_pos _, hsub⟩,
      fun sub' hs => h.queue sub' (List.mem_cons_of_mem _ hs)⟩
  | deliver _ | mark _ => cases hidle

end Caller

/-- A poll may ask for any number of rows. -/
def pollStep (c : Config) (s : State Unit) (a : Nat × Action Unit) : Option (State Unit) :=
  step { c with batchSize := a.1 } s a.2

def isFailure : Action Unit → Bool
  | .workerFailure _ | .callerFailure => true
  | _ => false

def NoFailure (_ : State Unit) (a : Nat × Action Unit) : Prop := isFailure a.2 = false

instance (s : State Unit) (a : Nat × Action Unit) : Decidable (NoFailure s a) :=
  inferInstanceAs (Decidable (isFailure a.2 = false))

structure Inv (s : State Unit) : Prop where
  base : DeliveryInvariant.Inv s
  idle : delivering s.caller.pc = false
  tables : TablesOk s.db s.log
  worker : WorkerOk s.db s.log (s.worker ())
  caller : CallerOk s.db s.caller

theorem inv_init : Inv (init : State Unit) := by
  refine ⟨DeliveryInvariant.inv_init, rfl, ⟨List.forall_mem_nil _, List.nodup_nil, List.forall_mem_nil _,
    List.forall_mem_nil _⟩, ⟨List.forall_mem_nil _, List.nodup_nil, rfl⟩, List.forall_mem_nil _,
    List.forall_mem_nil _⟩

section Step

variable {c : Config} {s s' : State Unit} {a : Action Unit}

/-- With one worker, and no inline delivery, a poll fetches no row that is in other hands. -/
theorem allowed (h : Inv s) (hok : isFailure a = false) : Allowed c s a := by
  cases a with
  | worker i =>
    refine fun _ row _ => ⟨fun j hji => absurd (Subsingleton.elim j i) hji, fun heq => ?_⟩
    have hidle := h.idle
    cases hpc : s.caller.pc with
    | deliver drift outboxId sub todo pc =>
      rw [hpc] at hidle
      cases hidle
    | _ =>
      rw [hpc] at heq
      cases heq
  | callerFailure => cases hok
  | _ => trivial

theorem setWorker_self (s : State Unit) (i : Unit) (w : Worker) : (s.setWorker i w).worker () = w := by
  rw [setWorker_worker, if_pos rfl]

theorem outboxId_eq_none {pc : CallPc} (h : delivering pc = false) : CallPc.outboxId pc = none := by
  cases pc with
  | deliver drift outboxId sub todo pc => cases h
  | _ => rfl

theorem sentRow_none (effect : Effect) : sentRow effect none = [] := by
  cases effect <;> rfl

/-- A call changes the tables, if at all, by the rows that it queues. -/
theorem tablesOk_caller (h : Inv s) (clock : Nat) (effect : Effect) :
    TablesOk (effect.run clock s.db s.caller.session).1 s.log ∧
      (∀ row ∈ s.db.outbox, row ∈ (effect.run clock s.db s.caller.session).1.outbox) ∧
      (effect.run clock s.db s.caller.session).1.subscriptions = s.db.subscriptions := by
  by_cases hcommit : effect = .commit
  · subst hcommit
    obtain ⟨houtbox, hdlq⟩ := view_call h.caller.writes
    have hsubs := view_subscriptions s.caller.session s.db
    refine ⟨h.tables.insert h.base.caller.ids houtbox hdlq hsubs fun row hr => ?_, fun row hr => ?_, hsubs⟩
    · exact h.caller.writes _ (mem_inserted.mp hr)
    · change row ∈ (s.caller.session.view s.db).outbox
      rw [houtbox]
      exact List.mem_append_left _ hr
  · obtain ⟨registry, hdb⟩ := @run_db s.caller.session s.db clock effect hcommit
    rw [hdb]
    exact ⟨h.tables.congr rfl rfl rfl, fun _ hr => hr, rfl⟩

/-- Rows that are delivered or have failed stay as they are. -/
theorem inv_step (hinline : c.inlineDelivery = false) (h : Inv s) (hok : isFailure a = false)
    (hs : step c s a = some s') :
    Inv s' ∧ ∀ row ∈ s.db.outbox, Final row → row ∈ s'.db.outbox := by
  have hbase := DeliverySteps.inv_step h.base (allowed h hok) hs
  have hidle := DeliveryOnce.not_delivering_step hinline h.idle hs
  cases step_cases hs with
  | worker hstep =>
    obtain ⟨htables, hworker, hfinal, hsubs⟩ := advance_step h.tables h.worker hstep
    refine ⟨⟨hbase, hidle, htables, ?_, h.caller.mono fun id hc => hsubs ▸ hc⟩, hfinal⟩
    change WorkerOk _ _ ((s.setWorker () _).worker ())
    rw [setWorker_self]
    exact hworker
  | @workerResponse i outcome item todo sub attempt hpc =>
    have hw := h.worker
    rw [show s.worker () = ⟨.deliver item todo sub (.awaiting attempt), (s.worker ()).session⟩ by
      rw [← hpc]] at hw
    obtain ⟨htables, hworker, hfinal, -⟩ := advance_response h.tables hw outcome
    refine ⟨⟨hbase, hidle, htables, ?_, h.caller⟩, hfinal⟩
    change WorkerOk _ _ ((s.setWorker () _).worker ())
    rw [setWorker_self]
    exact hworker
  | workerFailure | callerFailure => cases hok
  | request hpc =>
    refine ⟨⟨hbase, hidle, h.tables, h.worker, List.forall_mem_nil _, List.forall_mem_nil _⟩,
      fun _ hr _ => hr⟩
  | @caller effect pc hstep =>
    obtain ⟨htables, houtbox, hsubs⟩ := tablesOk_caller h s.clock effect
    have hcaller := callerOk_step h.caller hinline h.idle hstep s.clock
    refine ⟨⟨hbase, hidle, ?_, ?_, hcaller.mono fun id hc => hsubs ▸ hc⟩, fun row hr _ => houtbox row hr⟩
    · rw [outboxId_eq_none h.idle, sentRow_none, List.append_nil]
      exact htables
    · rw [outboxId_eq_none h.idle, sentRow_none, List.append_nil]
      exact h.worker.mono houtbox fun id consumer hc => hsubs ▸ hc
  | callerResponse hpc =>
    have hdelivering := h.idle
    rw [hpc] at hdelivering
    cases hdelivering
  | @putSubscription sub =>
    have hsubs : ∀ id consumer, consumerOf s.db.subscriptions id = some consumer →
        consumerOf (putSubscription s.db.subscriptions sub) id = some consumer :=
      fun id consumer hc => consumerOf_putSubscription hc sub
    refine ⟨⟨hbase, hidle, h.tables.putSubscription sub, h.worker.mono (fun _ hr => hr) hsubs,
      h.caller.mono fun id hc => ?_⟩, fun _ hr _ => hr⟩
    obtain ⟨consumer, hc⟩ := Option.isSome_iff_exists.mp hc
    exact Option.isSome_iff_exists.mpr ⟨consumer, hsubs id consumer hc⟩
  | tick => exact ⟨⟨hbase, hidle, h.tables, h.worker, h.caller⟩, fun _ hr _ => hr⟩

theorem inv_reachable (hinline : c.inlineDelivery = false) {start : State Unit} (hstart : Inv start)
    (h : Reachable (pollStep c) NoFailure start s) : Inv s :=
  h.invariant hstart fun _ a _ hi hok hs =>
    (inv_step (c := { c with batchSize := a.1 }) hinline hi hok hs).1

theorem final_reachable (hinline : c.inlineDelivery = false) (hinv : Inv s) {row : OutboxRow}
    (hrow : row ∈ s.db.outbox) (hfinal : Final row) (h : Reachable (pollStep c) NoFailure s s') :
    row ∈ s'.db.outbox := by
  have hboth : Inv s' ∧ row ∈ s'.db.outbox := by
    refine h.invariant (I := fun s => Inv s ∧ row ∈ s.db.outbox) ⟨hinv, hrow⟩ fun t a t' hi hok hs => ?_
    have hstep := inv_step (c := { c with batchSize := a.1 }) hinline hi.1 hok hs
    exact ⟨hstep.1, hstep.2 row hi.2 hfinal⟩
  exact hboth.2

end Step

/-- With one worker, no inline delivery and no failure, what the status of a row says: a row
that waits has attempts left and no 2xx answer, a delivered row has exactly one within its
attempts, a failed row has none, has used up its attempts and is among the dead letters; and a
row that is delivered or has failed never changes again. -/
theorem outbox_rows_settled (c : Config) (hinline : c.inlineDelivery = false) (s : State Unit)
    (h : Reachable (pollStep c) NoFailure init s) (row : OutboxRow) (hrow : row ∈ s.db.outbox) :
    (row.status = .PENDING → row.attempts < row.maxAttempts ∧ successes s.log row.id = 0) ∧
    (row.status = .DELIVERED → successes s.log row.id = 1 ∧ posts s.log row.id ≤ row.maxAttempts) ∧
    (row.status = .FAILED →
      row.attempts = row.maxAttempts ∧ successes s.log row.id = 0 ∧ InDlq s.db row) ∧
    (row.status = .DELIVERED ∨ row.status = .FAILED →
      ∀ s', Reachable (pollStep c) NoFailure s s' →
        row ∈ s'.db.outbox ∧ ∀ row' ∈ s'.db.outbox, row'.id = row.id → row' = row) := by
  have hinv := inv_reachable hinline inv_init h
  have hok := hinv.tables.rows row hrow
  refine ⟨fun hstatus => ?_, fun hstatus => ?_, fun hstatus => ?_, fun hfinal s' hs' => ?_⟩
  · rw [RowOk, hstatus] at hok
    exact ⟨hok.1, hok.2.1⟩
  · rw [RowOk, hstatus] at hok
    exact hok
  · rw [RowOk, hstatus] at hok
    exact hok
  · have hmem := final_reachable hinline hinv hrow hfinal hs'
    exact ⟨hmem, fun row' hr hid => (inv_reachable hinline hinv hs').tables.eq_of_id hr hmem hid⟩

/-- A run in which one row is delivered and another one, whose subscription is inactive, waits. -/
theorem outbox_rows_settled_two_rows :
    let c := sampleConfig 50 false
    let acts : List (Nat × Action Unit) := List.flatten [(driftWith [7, 8]).map (0, ·),
      List.replicate 8 (0, .caller),
      [(0, .putSubscription { sampleSubscription 8 with active := false })],
      List.replicate 5 (2, .worker ()), [(2, .workerResponse () (.response 200))],
      List.replicate 10 (1, .worker ())]
    ∃ s : State Unit, run (pollStep c) NoFailure init acts = some s ∧
      s.db.outbox.map (fun row => (row.status, row.attempts)) = [(.DELIVERED, 1), (.PENDING, 1)] ∧
      ∀ row ∈ s.db.outbox, row.status = .DELIVERED → successes s.log row.id = 1 := by
  intro c acts
  have hrun : (run (pollStep c) NoFailure init acts).map
      (fun s => s.db.outbox.map (fun row => (row.status, row.attempts))) =
      some [(.DELIVERED, 1), (.PENDING, 1)] := by decide +kernel
  obtain ⟨s, hs, houtbox⟩ := Option.map_eq_some_iff.mp hrun
  refine ⟨s, hs, houtbox, fun row hr hstatus => ?_⟩
  exact ((outbox_rows_settled c rfl s (reachable_run _ _ .start hs) row hr).2.1 hstatus).1

end SchemaPilot.OutboxLifecycle
