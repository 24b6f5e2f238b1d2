import SchemaPilot.DeadLetters

namespace SchemaPilot.DeadLetterWorker

open Webhook OutboxWorker Runs DeliverySystem OutboxRows DeadLetters

/-- What a worker writes while it processes a row. -/
def WorkerWrite (subscriptions : List Subscription) (item : OutboxRow) : Write → Prop
  | .insertAttempt _ => True
  | .upsertDlq e => EntryFor subscriptions (stub item) e
  | .updateOutbox id _ => id = item.id
  | .setRegistry _ | .insertOutbox _ => False

/-- No row fails without an entry in the same transaction. -/
def Backed (writes : List Write) : Prop :=
  ∀ id u, .updateOutbox id u ∈ writes → u.status = .FAILED → ∃ e, .upsertDlq e ∈ writes

/-- What a worker has written, and what it has read of the row's subscription. -/
def WorkerLocal (subscriptions : List Subscription) (writes : List Write) : WorkerPc → Prop
  | .poll | .loop _ | .count => writes = []
  | .commitClaim item _ | .selectSubscription item _ | .commitItem item _ =>
    (∀ x ∈ writes, WorkerWrite subscriptions item x) ∧ Backed writes
  | .failMissing _ _ => False
  | .deliver item _ sub _ =>
    (∀ x ∈ writes, WorkerWrite subscriptions item x) ∧ Backed writes ∧
      sub.id = item.subscriptionId ∧ Current subscriptions sub
  | .upsertDlq item _ sub =>
    (∀ x ∈ writes, WorkerWrite subscriptions item x) ∧
      sub.id = item.subscriptionId ∧ Current subscriptions sub

structure WorkerOk (db : Tables) (w : Worker) : Prop where
  batch : ∀ row ∈ w.pc.batch, ∃ old ∈ db.outbox, stub old = stub row
  pc : WorkerLocal db.subscriptions w.session.writes w.pc

section Worker

variable {db : Tables} {now n clock : Nat} {locked : Nat → Bool} {session : Session} {writes : List Write}
  {pc pc' : WorkerPc} {effect : Effect} {item : OutboxRow} {queued : List Stub} {inHand inHand' : Stub → Prop}
  {trace : List (Nat × String)} {fresh : Nat}

theorem backed_nil : Backed [] := fun _ _ hu => absurd hu List.not_mem_nil

theorem Backed.concat (h : Backed writes) {x : Write}
    (hx : ∀ id u, x = .updateOutbox id u → u.status ≠ .FAILED) : Backed (writes ++ [x]) := by
  intro id u hu hstatus
  obtain hu | hu := List.mem_append.mp hu
  · obtain ⟨e, he⟩ := h id u hu hstatus
    exact ⟨e, List.mem_append_left _ he⟩
  · exact absurd hstatus (hx id u (List.mem_singleton.mp hu).symm)

theorem backed_upsertDlq (writes : List Write) (e : DlqEntry) : Backed (writes ++ [.upsertDlq e]) :=
  fun _ _ _ _ => ⟨e, List.mem_append_right _ (List.mem_singleton.mpr rfl)⟩

theorem inserted_eq_nil (h : ∀ x ∈ writes, WorkerWrite db.subscriptions item x) :
    inserted writes = [] := by
  apply List.eq_nil_iff_forall_not_mem.mpr
  intro row hr
  exact h _ (mem_inserted.mp hr)

/-- Within a delivery, the worker goes on with what it has read. -/
theorem workerLocal_deliver {todo : List OutboxRow} {sub : Subscription} {p p' : DeliverPc}
    (h : WorkerLocal db.subscriptions session.writes (.deliver item todo sub p))
    (hnext : (OutboxWorker.delivery item sub).next p = some (effect, p')) :
    WorkerLocal db.subscriptions (effect.run clock db session).2.writes (.deliver item todo sub p') := by
  obtain ⟨hwrites, hbacked, hsub, hcurrent⟩ := h
  cases p with
  | post attempt =>
    cases hnext
    exact ⟨hwrites, hbacked, hsub, hcurrent⟩
  | awaiting attempt | returned ok => cases hnext
  | succeeded attempt | failed attempt reason =>
    cases hnext
    exact ⟨forall_mem_concat hwrites trivial, hbacked.concat (fun id u heq => by cases heq), hsub, hcurrent⟩
  | dlq attempt reason =>
    cases hnext
    exact ⟨forall_mem_concat hwrites (entryFor_dlqEntry rfl hsub hcurrent reason attempt),
      backed_upsertDlq _ _, hsub, hcurrent⟩
  | commit ok =>
    cases hnext
    exact ⟨List.forall_mem_nil _, backed_nil, hsub, hcurrent⟩

theorem workerLocal_step (hknown : ∀ row ∈ db.outbox, (consumerOf db.subscriptions row.subscriptionId).isSome)
    (h : WorkerOk db ⟨pc, session⟩)
    (hstep : WorkerStep (session.view db) now n locked pc effect pc') :
    WorkerLocal db.subscriptions (effect.run clock db session).2.writes pc' := by
  have hl := h.pc
  cases hstep with
  | poll | done => exact hl
  | claim _ =>
    have hwrites : session.writes = [] := hl
    simp only [Effect.run, hwrites, List.nil_append]
    exact ⟨List.forall_mem_singleton.mpr rfl,
      backed_nil.concat fun id u heq => by cases heq; exact Status.noConfusion⟩
  | claimed => exact ⟨List.forall_mem_nil _, backed_nil⟩
  | @missing item todo hfind =>
    obtain ⟨old, hold, hstub⟩ := h.batch item List.mem_cons_self
    have hsome := hknown old hold
    rw [view_subscriptions] at hfind
    have hid : old.subscriptionId = item.subscriptionId := congrArg Stub.subscriptionId hstub
    rw [hid, consumerOf, hfind] at hsome
    cases hsome
  | found hfind =>
    rw [view_subscriptions] at hfind
    exact ⟨hl.1, hl.2, current_of_find hfind⟩
  | failMissing _ => exact hl.elim
  | deliver hnext => exact workerLocal_deliver hl hnext
  | delivered _ | retry _ _ =>
    exact ⟨forall_mem_concat hl.1 rfl, hl.2.1.concat fun id u heq => by cases heq; exact Status.noConfusion⟩
  | exhausted _ _ => exact ⟨forall_mem_concat hl.1 rfl, hl.2.2⟩
  | upsertDlq => exact ⟨forall_mem_concat hl.1 (entryFor_exhausted hl.2.1 hl.2.2), backed_upsertDlq _ _⟩
  | commitItem | count => rfl

/-- A worker keeps to its batch, and fetches pending rows. -/
theorem batch_step (hstep : WorkerStep db now n locked pc effect pc') {row : OutboxRow}
    (hr : row ∈ pc'.batch) :
    row ∈ pc.batch ∨ pc = .poll ∧ row ∈ db.outbox ∧ row.status = .PENDING := by
  cases hstep with
  | poll =>
    obtain ⟨hmem, hstatus, -⟩ := mem_selectDue hr
    exact .inr ⟨rfl, hmem, hstatus⟩
  | done | count => exact absurd hr List.not_mem_nil
  | claim _ | claimed | missing _ | found _ | failMissing _ | deliver _ | delivered _ | exhausted _ _
  | retry _ _ | upsertDlq => exact .inl hr
  | commitItem => exact .inl (List.mem_cons_of_mem _ hr)

theorem view_poll (h : WorkerOk db ⟨pc, session⟩) (hpc : pc = .poll) : session.view db = db := by
  obtain rfl := hpc
  have hwrites : session.writes = [] := h.pc
  rw [Session.view, hwrites, List.foldl_nil]

theorem workerOk_step (hknown : ∀ row ∈ db.outbox, (consumerOf db.subscriptions row.subscriptionId).isSome)
    (h : WorkerOk db ⟨pc, session⟩)
    (hstep : WorkerStep (session.view db) now n locked pc effect pc') :
    WorkerOk (effect.run clock db session).1 ⟨pc', (effect.run clock db session).2⟩ := by
  refine ⟨fun row hr => ?_, ?_⟩
  · apply exists_stub_run
    obtain hr | ⟨hpoll, hrow, -⟩ := batch_step hstep hr
    · exact h.batch row hr
    · exact ⟨row, view_poll h hpoll ▸ hrow, rfl⟩
  · rw [run_subscriptions]
    exact workerLocal_step hknown h hstep

/-- What a worker commits belongs to one row of its batch. -/
theorem workerLocal_commit {subscriptions : List Subscription}
    (h : WorkerLocal subscriptions writes pc)
    (hstep : WorkerStep db now n locked pc .commit pc') :
    ∃ item ∈ pc.batch, (∀ x ∈ writes, WorkerWrite subscriptions item x) ∧ Backed writes := by
  cases hstep with
  | claimed | commitItem => exact ⟨_, List.mem_cons_self, h⟩
  | deliver _ => exact ⟨_, List.mem_cons_self, h.1, h.2.1⟩

theorem WorkerOk.mono {db' : Tables} {w : Worker} (h : WorkerOk db w)
    (hrows : ∀ row ∈ db.outbox, ∃ row' ∈ db'.outbox, stub row' = stub row)
    (hsubs : db'.subscriptions = db.subscriptions) : WorkerOk db' w := by
  refine ⟨fun row hr => ?_, hsubs ▸ h.pc⟩
  obtain ⟨old, hold, hstub⟩ := h.batch row hr
  obtain ⟨row', hrow', hstub'⟩ := hrows old hold
  exact ⟨row', hrow', hstub'.trans hstub⟩

/-- A patch that keeps the urls of the batch. -/
theorem WorkerOk.putSubscription {w : Worker} (h : WorkerOk db w) {new : Subscription}
    (hnew : ∀ row ∈ w.pc.batch, row.subscriptionId = new.id →
      ∀ s ∈ db.subscriptions, s.id = new.id → s.targetUrl = new.targetUrl) :
    WorkerOk { db with subscriptions := putSubscription db.subscriptions new } w := by
  refine ⟨h.batch, ?_⟩
  have hentry : ∀ item ∈ w.pc.batch, ∀ e, EntryFor db.subscriptions (stub item) e →
      EntryFor (DeliverySystem.putSubscription db.subscriptions new) (stub item) e := by
    rintro item hitem e ⟨hkey, hurl⟩
    obtain ⟨hevent, hconsumer⟩ := Prod.mk.inj hkey
    refine ⟨?_, urlOf_putSubscription hurl (hnew item hitem)⟩
    exact Prod.ext hevent (consumerOf_putSubscription hconsumer new)
  have hwrites : ∀ item ∈ w.pc.batch,
      (∀ x ∈ w.session.writes, WorkerWrite db.subscriptions item x) →
      ∀ x ∈ w.session.writes,
        WorkerWrite (DeliverySystem.putSubscription db.subscriptions new) item x := by
    intro item hitem hall x hx
    have hold := hall x hx
    cases x with
    | upsertDlq e => exact hentry item hitem e hold
    | setRegistry registry | insertOutbox row | updateOutbox id u | insertAttempt attempt => exact hold
  have hcurrent : ∀ item ∈ w.pc.batch, ∀ sub, sub.id = item.subscriptionId →
      Current db.subscriptions sub →
      Current (DeliverySystem.putSubscription db.subscriptions new) sub :=
    fun item hitem sub hid hc => hc.putSubscription fun heq => hnew item hitem (hid ▸ heq)
  have hl := h.pc
  cases hpc : w.pc with
  | poll | loop todo | count =>
    rw [hpc] at hl
    exact hl
  | commitClaim item todo | selectSubscription item todo | commitItem item todo =>
    rw [hpc] at hl hwrites
    exact ⟨hwrites item List.mem_cons_self hl.1, hl.2⟩
  | failMissing item todo =>
    rw [hpc] at hl
    exact hl.elim
  | deliver item todo sub p =>
    rw [hpc] at hl hwrites hcurrent
    exact ⟨hwrites item List.mem_cons_self hl.1, hl.2.1, hl.2.2.1,
      hcurrent item List.mem_cons_self sub hl.2.2.1 hl.2.2.2⟩
  | upsertDlq item todo sub =>
    rw [hpc] at hl hwrites hcurrent
    exact ⟨hwrites item List.mem_cons_self hl.1, hl.2.1,
      hcurrent item List.mem_cons_self sub hl.2.1 hl.2.2⟩

/-- A worker leaves the rows there, whatever it makes of them. -/
theorem run_stubs (h : WorkerLocal db.subscriptions session.writes pc)
    (hstep : WorkerStep (session.view db) now n locked pc effect pc') :
    (effect.run clock db session).1.outbox.map stub = db.outbox.map stub := by
  by_cases hcommit : effect = .commit
  · subst hcommit
    obtain ⟨item, -, hwrites, -⟩ := workerLocal_commit h hstep
    change (session.view db).outbox.map stub = db.outbox.map stub
    rw [view_map fun _ _ => rfl, inserted_eq_nil hwrites, List.map_nil, List.append_nil]
  · rw [run_outbox hcommit]

/-- A row that is pending after a worker's commit was so before, or is of its batch. -/
theorem pending_commit (hwrites : ∀ x ∈ session.writes, WorkerWrite db.subscriptions item x)
    {row : OutboxRow}
    (hrow : row ∈ (session.view db).outbox) (hpending : row.status = .PENDING) :
    (∃ old ∈ db.outbox, old.id = row.id ∧ old.status = .PENDING) ∨ row.id = item.id := by
  obtain ⟨hold, -⟩ | ⟨u, hu, -⟩ | ⟨new, hnew, -⟩ := hasStatus_view ⟨row, hrow, rfl, hpending⟩
  · exact .inl hold
  · exact .inr (hwrites _ hu)
  · rw [inserted_eq_nil hwrites] at hnew
    cases hnew

/-- The commit of a worker. -/
theorem book_commitWorker (hb : Book db queued inHand trace fresh)
    (hbatch : ∃ old ∈ db.outbox, stub old = stub item) (hitem : inHand (stub item))
    (hwrites : ∀ x ∈ session.writes, WorkerWrite db.subscriptions item x)
    (hbacked : Backed session.writes)
    (hhand : ∀ st ∈ queued, inHand' st → inHand st) :
    Book (session.view db) queued inHand' trace fresh := by
  have hnone := inserted_eq_nil hwrites
  have hqueued : stub item ∈ queued := by
    obtain ⟨old, hold, hstub⟩ := hbatch
    exact hstub ▸ hb.committed old hold
  refine hb.commit (fun row hrow => ?_) (fun e he => ?_) (fun id u hu hstatus st hst hid => ?_)
    (fun row hr => ?_) hhand
  · obtain ⟨old, hold, hstub⟩ | ⟨new, hnew, -⟩ := exists_stub_view.mp ⟨row, hrow, rfl⟩
    · exact hstub ▸ hb.committed old hold
    · rw [hnone] at hnew
      cases hnew
  · obtain ⟨hkey, hurl⟩ := hwrites _ he
    obtain ⟨row, hrow, hstub⟩ := exists_stub_view.mpr (.inl hbatch)
    have hsub : row.subscriptionId = item.subscriptionId := congrArg Stub.subscriptionId hstub
    refine ⟨row, hrow, ?_, ?_, ?_⟩
    · exact hstub ▸ hitem
    · exact hstub ▸ hkey
    · exact hsub ▸ hurl
  · obtain ⟨e, he⟩ := hbacked id u hu hstatus
    obtain rfl : id = item.id := hwrites _ hu
    obtain rfl : st = stub item := hb.eq_of_id hst hqueued hid
    exact ⟨e, .inr he, (hwrites _ he).1⟩
  · rw [hnone] at hr
    cases hr

theorem book_worker (hb : Book db queued inHand trace fresh) (hw : WorkerOk db ⟨pc, session⟩)
    (hbatch : ∀ row ∈ pc.batch, inHand (stub row)) (hhand : ∀ st ∈ queued, inHand' st → inHand st)
    (hstep : WorkerStep (session.view db) now n locked pc effect pc') :
    Book (effect.run clock db session).1 queued inHand' (trace ++ postedByWorker pc) fresh := by
  have hquiet : effect ≠ .commit → postedByWorker pc = [] →
      Book (effect.run clock db session).1 queued inHand' (trace ++ postedByWorker pc) fresh := by
    intro hcommit hposted
    obtain ⟨registry, hdb⟩ := @run_db session db clock effect hcommit
    rw [hdb, hposted, List.append_nil]
    exact hb.keep (List.Sublist.refl _) hb.committed hhand le_rfl
  have hcommitted : effect = .commit → postedByWorker pc = [] →
      Book (effect.run clock db session).1 queued inHand' (trace ++ postedByWorker pc) fresh := by
    intro hcommit hposted
    subst hcommit
    rw [hposted, List.append_nil]
    obtain ⟨item, hitem, hwrites, hbacked⟩ := workerLocal_commit hw.pc hstep
    exact book_commitWorker hb (hw.batch item hitem) (hbatch item hitem) hwrites hbacked hhand
  cases hstep with
  | @deliver item todo sub p p' effect hnext =>
    cases p with
    | post attempt =>
      cases hnext
      obtain ⟨old, hold, hstub⟩ := hw.batch item List.mem_cons_self
      obtain ⟨-, -, hsub, hcurrent⟩ := hw.pc
      have hqueued : stub item ∈ queued := hstub ▸ hb.committed old hold
      have hurl : urlOf db.subscriptions item.subscriptionId = some sub.targetUrl := hsub ▸ hcurrent.2
      have hpost := hb.post hqueued (hbatch item List.mem_cons_self) hurl
      exact hpost.keep (List.Sublist.refl _) hb.committed hhand le_rfl
    | commit ok =>
      cases hnext
      exact hcommitted rfl rfl
    | awaiting attempt | returned ok => cases hnext
    | succeeded attempt | failed attempt reason | dlq attempt reason =>
      cases hnext
      exact hquiet (fun heq => by cases heq) rfl
  | claimed | commitItem => exact hcommitted rfl rfl
  | poll | done | claim _ | missing _ | found _ | failMissing _ | upsertDlq | count =>
    exact hquiet (fun heq => by cases heq) rfl
  | delivered _ | exhausted _ _ | retry _ _ => exact hquiet (fun heq => by cases heq) rfl

end Worker

end SchemaPilot.DeadLetterWorker
