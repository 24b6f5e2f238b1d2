import SchemaPilot.DeadLetterCall
import SchemaPilot.DeadLetterWorker

namespace SchemaPilot.DeadLetterRuns

open Webhook OutboxWorker Enqueue Runs DeliverySystem OutboxRows DeadLetters

variable {ι : Type}

/-- What a step posts: the outbox row, and the url. -/
def posted (s : State ι) : Action ι → List (Nat × String)
  | .worker i => postedByWorker (s.worker i).pc
  | .caller => postedByCall s.caller.pc
  | _ => []

/-- A delivery to the subscription may still come: it has a row that is pending, in the hands of
a worker or of the call under way, or the call has still to come to it. -/
def InUse (s : State ι) (id : Nat) : Prop :=
  (∃ row ∈ s.db.outbox, row.subscriptionId = id ∧ row.status = .PENDING) ∨
    (∃ i, ∃ row ∈ (s.worker i).pc.batch, row.subscriptionId = id) ∨
    (∃ row ∈ inserted s.caller.session.writes, row.subscriptionId = id) ∨
    ∃ sub ∈ DeadLetterCall.held s.caller.pc, sub.id = id

instance [Fintype ι] (s : State ι) (id : Nat) : Decidable (InUse s id) :=
  inferInstanceAs (Decidable (_ ∨ _ ∨ _ ∨ _))

/-- No event selects two subscriptions of one consumer, and no patch changes the url of a
subscription that a delivery may still come to. -/
def OneContact (p : State ι × List (Nat × String)) : Action ι → Prop
  | .caller => ((DeadLetterCall.selectedBy p.1.db.subscriptions p.1.caller.pc).map
      Subscription.consumerId).Nodup
  | .putSubscription new => InUse p.1 new.id →
      ∀ sub ∈ p.1.db.subscriptions, sub.id = new.id → sub.targetUrl = new.targetUrl
  | _ => True

instance [Fintype ι] (p : State ι × List (Nat × String)) (a : Action ι) : Decidable (OneContact p a) :=
  match a with
  | .caller => inferInstanceAs (Decidable ((DeadLetterCall.selectedBy p.1.db.subscriptions
      p.1.caller.pc).map Subscription.consumerId).Nodup)
  | .putSubscription new => inferInstanceAs (Decidable (InUse p.1 new.id →
      ∀ sub ∈ p.1.db.subscriptions, sub.id = new.id → sub.targetUrl = new.targetUrl))
  | .worker _ | .workerResponse _ _ | .workerFailure _ | .request _ | .callerResponse _
  | .callerFailure | .tick => isTrue trivial

/-- The row may still be posted. -/
def InHand (s : State ι) (st : Stub) : Prop :=
  (∃ row ∈ s.db.outbox, stub row = st ∧ row.status = .PENDING) ∨
    (∃ i, ∃ row ∈ (s.worker i).pc.batch, stub row = st) ∨
    ∃ row ∈ inserted s.caller.session.writes, stub row = st

theorem InHand.inUse {s : State ι} {st : Stub} (h : InHand s st) : InUse s st.subscriptionId := by
  obtain ⟨row, hrow, rfl, hstatus⟩ | ⟨i, row, hrow, rfl⟩ | ⟨row, hrow, rfl⟩ := h
  · exact .inl ⟨row, hrow, rfl, hstatus⟩
  · exact .inr (.inl ⟨i, row, hrow, rfl⟩)
  · exact .inr (.inr (.inl ⟨row, hrow, rfl⟩))

structure Inv (p : State ι × List (Nat × String)) : Prop where
  subscriptions : (p.1.db.subscriptions.map Subscription.id).Nodup
  book : Book p.1.db (DeadLetterCall.rowsOf p.1.db p.1.caller.session.writes) (InHand p.1) p.2 p.1.fresh
  worker : ∀ i, DeadLetterWorker.WorkerOk p.1.db (p.1.worker i)
  caller : DeadLetterCall.CallerOk p.1.db p.1.fresh p.1.caller

theorem inv_init : Inv ((init, []) : State ι × List (Nat × String)) where
  subscriptions := List.nodup_nil
  book := ⟨List.nodup_nil, List.nodup_nil, List.forall_mem_nil _, List.forall_mem_nil _,
    List.forall_mem_nil _, List.forall_mem_nil _, List.forall_mem_nil _, List.forall_mem_nil _,
    List.forall_mem_nil _, List.forall_mem_nil _, List.forall_mem_nil _⟩
  worker _ := ⟨List.forall_mem_nil _, rfl⟩
  caller := ⟨List.forall_mem_nil _, trivial⟩

section Worker

variable [DecidableEq ι] {s : State ι} {trace : List (Nat × String)} {i : ι}

/-- A worker goes on with its batch, or with what is left of it. -/
theorem Inv.setWorker (h : Inv (s, trace)) {w : Worker} (hw : DeadLetterWorker.WorkerOk s.db w)
    (hbatch : ∀ row ∈ w.pc.batch, row ∈ (s.worker i).pc.batch) (log : List Event) :
    Inv ({ s.setWorker i w with log }, trace) := by
  refine ⟨h.subscriptions, ?_, fun j => ?_, h.caller⟩
  · refine h.book.keep (List.Sublist.refl _) h.book.committed (fun st _ hin => ?_) le_rfl
    obtain hpending | ⟨j, row, hrow, hstub⟩ | hinserted := hin
    · exact .inl hpending
    · refine .inr (.inl ?_)
      change row ∈ ((s.setWorker i w).worker j).pc.batch at hrow
      rw [DeliveryInvariant.setWorker_worker] at hrow
      split at hrow
      · exact ⟨i, row, hbatch row hrow, hstub⟩
      · exact ⟨j, row, hrow, hstub⟩
    · exact .inr (.inr hinserted)
  · change DeadLetterWorker.WorkerOk s.db ((s.setWorker i w).worker j)
    rw [DeliveryInvariant.setWorker_worker]
    split
    · exact hw
    · exact h.worker j

/-- A worker's step takes no row into hands that was in none. -/
theorem inHand_worker (h : Inv (s, trace)) {now n : Nat} {locked : Nat → Bool} {effect : Effect}
    {pc : WorkerPc}
    (hstep : WorkerStep ((s.worker i).session.view s.db) now n locked (s.worker i).pc effect pc)
    {clock : Nat} {log : List Event} {st : Stub}
    (hst : st ∈ DeadLetterCall.rowsOf s.db s.caller.session.writes)
    (hin : InHand { s.setWorker i ⟨pc, (effect.run clock s.db (s.worker i).session).2⟩ with
      db := (effect.run clock s.db (s.worker i).session).1, log } st) : InHand s st := by
  have hw := h.worker i
  obtain ⟨row, hrow, hstub, hpending⟩ | ⟨j, row, hrow, hstub⟩ | hinserted := hin
  · by_cases hcommit : effect = .commit
    · subst hcommit
      obtain ⟨item, hitem, hwrites, -⟩ := DeadLetterWorker.workerLocal_commit hw.pc hstep
      have hid : st.id = row.id := congrArg Stub.id hstub.symm
      obtain ⟨old, hold, holdId, hs⟩ | heq := DeadLetterWorker.pending_commit hwrites hrow hpending
      · exact .inl ⟨old, hold, h.book.eq_of_id (h.book.committed old hold) hst (holdId.trans hid.symm), hs⟩
      · obtain ⟨old, hold, holdStub⟩ := hw.batch item hitem
        have hqueued := holdStub ▸ h.book.committed old hold
        exact .inr (.inl ⟨i, item, hitem, h.book.eq_of_id hqueued hst (heq.symm.trans hid.symm)⟩)
    · rw [run_outbox hcommit] at hrow
      exact .inl ⟨row, hrow, hstub, hpending⟩
  · change row ∈ ((s.setWorker i _).worker j).pc.batch at hrow
    rw [DeliveryInvariant.setWorker_worker] at hrow
    split at hrow
    · obtain hrow | ⟨hpoll, hrow, hpending⟩ := DeadLetterWorker.batch_step hstep hrow
      · exact .inr (.inl ⟨i, row, hrow, hstub⟩)
      · rw [DeadLetterWorker.view_poll hw hpoll] at hrow
        exact .inl ⟨row, hrow, hstub, hpending⟩
    · exact .inr (.inl ⟨j, row, hrow, hstub⟩)
  · exact .inr (.inr hinserted)

theorem inv_worker (h : Inv (s, trace)) {now n : Nat} {locked : Nat → Bool} {effect : Effect}
    {pc : WorkerPc}
    (hstep : WorkerStep ((s.worker i).session.view s.db) now n locked (s.worker i).pc effect pc)
    (clock : Nat) (log : List Event) :
    Inv ({ s.setWorker i ⟨pc, (effect.run clock s.db (s.worker i).session).2⟩ with
      db := (effect.run clock s.db (s.worker i).session).1, log },
      trace ++ postedByWorker (s.worker i).pc) := by
  have hw := h.worker i
  have hsubs := @run_subscriptions s.db (s.worker i).session clock effect
  have hstubs : (effect.run clock s.db (s.worker i).session).1.outbox.map stub = s.db.outbox.map stub :=
    DeadLetterWorker.run_stubs hw.pc hstep
  have hknown : ∀ row ∈ s.db.outbox, (consumerOf s.db.subscriptions row.subscriptionId).isSome :=
    fun row hrow => h.book.known _ (h.book.committed row hrow)
  have hrows : ∀ row ∈ s.db.outbox,
      ∃ row' ∈ (effect.run clock s.db (s.worker i).session).1.outbox, stub row' = stub row :=
    fun row hrow => exists_stub_run ⟨row, hrow, rfl⟩ effect
  have hkeeps : DeadLetterCall.Keeps s.db (effect.run clock s.db (s.worker i).session).1 s.caller :=
    ⟨hstubs, fun e he => run_dlq_keeps effect he, fun _ _ => by rw [hsubs],
      fun _ _ _ hu => by rw [hsubs]; exact hu, fun _ _ hc => by rw [hsubs]; exact hc⟩
  refine ⟨?_, ?_, fun j => ?_, h.caller.keep hkeeps le_rfl⟩
  · change ((effect.run clock s.db (s.worker i).session).1.subscriptions.map Subscription.id).Nodup
    rw [hsubs]
    exact h.subscriptions
  · change Book _ (DeadLetterCall.rowsOf _ s.caller.session.writes) _ _ s.fresh
    rw [hkeeps.rowsOf_eq]
    exact DeadLetterWorker.book_worker h.book hw (fun row hr => .inr (.inl ⟨i, row, hr, rfl⟩))
      (fun st hst => inHand_worker h hstep hst) hstep
  · change DeadLetterWorker.WorkerOk _ ((s.setWorker i _).worker j)
    rw [DeliveryInvariant.setWorker_worker]
    split
    · exact DeadLetterWorker.workerOk_step hknown hw hstep
    · exact (h.worker j).mono hrows hsubs

end Worker

section Call

variable {s : State ι} {trace : List (Nat × String)} {c : Config} {now : Nat} {locked : Nat → Bool}
  {effect : Effect} {pc : CallPc}

/-- A call that stops, or that begins. -/
theorem Inv.closeCaller (h : Inv (s, trace)) (hpc : DeadLetterCall.CallLocal s.db s.fresh [] pc) :
    Inv ({ s with caller := ⟨pc, .closed⟩ }, trace) := by
  have hrows : (DeadLetterCall.rowsOf s.db []).Sublist
      (DeadLetterCall.rowsOf s.db s.caller.session.writes) :=
    (List.nil_sublist _).append_left _
  refine ⟨h.subscriptions, h.book.keep hrows (fun row hrow => ?_) (fun st _ hin => ?_) le_rfl, h.worker,
    List.forall_mem_nil _, hpc⟩
  · exact DeadLetterCall.mem_rowsOf.mpr (.inl ⟨row, hrow, rfl⟩)
  · obtain hpending | hbatch | ⟨row, hrow, -⟩ := hin
    · exact .inl hpending
    · exact .inr (.inl hbatch)
    · exact absurd hrow List.not_mem_nil

/-- Of the rows there, a call's step takes none into hands that was in none. -/
theorem inHand_call (h : Inv (s, trace))
    (hstep : CallStep c (s.caller.session.view s.db) s.fresh now locked s.caller.pc effect pc)
    {clock fresh : Nat} {log : List Event} {drifts : List Drift} {st : Stub}
    (hst : st ∈ DeadLetterCall.rowsOf s.db s.caller.session.writes)
    (hin : InHand { s with
      db := (effect.run clock s.db s.caller.session).1
      caller := ⟨pc, (effect.run clock s.db s.caller.session).2⟩
      fresh, log, drifts } st) : InHand s st := by
  obtain ⟨row, hrow, hstub, hpending⟩ | hbatch | ⟨row, hrow, hstub⟩ := hin
  · by_cases hcommit : effect = .commit
    · subst hcommit
      have hid : st.id = row.id := congrArg Stub.id hstub.symm
      obtain ⟨old, hold, holdId, hs⟩ | ⟨new, hnew, hnewId⟩ :=
        DeadLetterCall.pending_commit h.caller.writes hrow hpending
      · exact .inl ⟨old, hold, h.book.eq_of_id (h.book.committed old hold) hst (holdId.trans hid.symm), hs⟩
      · have hqueued : stub new ∈ DeadLetterCall.rowsOf s.db s.caller.session.writes :=
          DeadLetterCall.mem_rowsOf_of_inserted hnew
        exact .inr (.inr ⟨new, hnew, h.book.eq_of_id hqueued hst (hnewId.trans hid.symm)⟩)
    · rw [run_outbox hcommit] at hrow
      exact .inl ⟨row, hrow, hstub, hpending⟩
  · exact .inr (.inl hbatch)
  · obtain hrow | rfl := mem_run_writes (mem_inserted.mp hrow)
    · exact .inr (.inr ⟨row, mem_inserted.mpr hrow, hstub⟩)
    · have hid := DeadLetterCall.insert_fresh hstep
      have hlt : st.id < s.fresh := (h.book.lt st hst).1
      have heq : row.id = st.id := congrArg Stub.id hstub
      omega

theorem inv_call (h : Inv (s, trace))
    (hone : ((DeadLetterCall.selectedBy s.db.subscriptions s.caller.pc).map Subscription.consumerId).Nodup)
    (hstep : CallStep c (s.caller.session.view s.db) s.fresh now locked s.caller.pc effect pc)
    (clock : Nat) (log : List Event) (drifts : List Drift) :
    Inv ({ s with
      db := (effect.run clock s.db s.caller.session).1
      fresh := s.fresh + 1
      caller := ⟨pc, (effect.run clock s.db s.caller.session).2⟩
      log, drifts }, trace ++ postedByCall s.caller.pc) := by
  have hsubs := @run_subscriptions s.db s.caller.session clock effect
  refine ⟨?_, ?_, fun i => ?_, ?_⟩
  · change ((effect.run clock s.db s.caller.session).1.subscriptions.map Subscription.id).Nodup
    rw [hsubs]
    exact h.subscriptions
  · exact DeadLetterCall.book_call h.book h.caller (fun row hr => .inr (.inr ⟨row, hr, rfl⟩))
      (fun st hst => inHand_call h hstep hst) hstep
  · exact (h.worker i).mono (fun row hrow => exists_stub_run ⟨row, hrow, rfl⟩ effect) hsubs
  · exact DeadLetterCall.callerOk_step h.subscriptions (fun st hst => (h.book.lt st hst).2) hone h.caller
      hstep

/-- A patch, or a new subscription. -/
theorem inv_putSubscription (h : Inv (s, trace)) {new : Subscription}
    (hnew : InUse s new.id → ∀ sub ∈ s.db.subscriptions, sub.id = new.id → sub.targetUrl = new.targetUrl) :
    Inv ({ s with db := { s.db with subscriptions := putSubscription s.db.subscriptions new } }, trace) where
  subscriptions := nodup_putSubscription h.subscriptions new
  book := h.book.putSubscription fun st _ hin heq => hnew (heq ▸ hin.inUse)
  worker i := (h.worker i).putSubscription fun row hrow heq => hnew (.inr (.inl ⟨i, row, hrow, heq⟩))
  caller := by
    have hkeeps : DeadLetterCall.Keeps s.db
        { s.db with subscriptions := putSubscription s.db.subscriptions new } s.caller := by
      refine ⟨rfl, fun e he => ⟨e, he, rfl, rfl⟩, fun st hst => h.book.letter_putSubscription new hst,
        fun row hrow url hurl => ?_, fun sub hs hcurrent => ?_⟩
      · exact urlOf_putSubscription hurl fun heq => hnew (.inr (.inr (.inl ⟨row, hrow, heq⟩)))
      · exact hcurrent.putSubscription fun heq => hnew (.inr (.inr (.inr ⟨sub, hs, heq⟩)))
    exact h.caller.keep hkeeps le_rfl

end Call

section

variable [Fintype ι] [DecidableEq ι] {c : Config}

theorem inv_step {p p' : State ι × List (Nat × String)} {a : Action ι} (h : Inv p)
    (hok : OneContact p a)
    (hs : traced (step c) posted p a = some p') : Inv p' := by
  obtain ⟨s, trace⟩ := p
  obtain ⟨s', hstep, rfl⟩ := Option.map_eq_some_iff.mp hs
  have hstep : step c s a = some s' := hstep
  have hquiet : Inv (s', trace) → Inv (s', trace ++ []) := by
    rw [List.append_nil]
    exact id
  cases step_cases hstep with
  | worker hw => exact inv_worker h hw s.clock _
  | caller hw => exact inv_call h hok hw s.clock _ _
  | @workerResponse i outcome item todo sub attempt hpc =>
    have hw := h.worker i
    refine hquiet (h.setWorker ⟨?_, ?_⟩ ?_ _)
    · have hbatch := hw.batch
      rw [hpc] at hbatch
      exact hbatch
    · have hl := hw.pc
      rw [hpc] at hl
      exact hl
    · rw [hpc]
      exact fun _ hrow => hrow
  | workerFailure =>
    exact hquiet (h.setWorker (w := ⟨.poll, .closed⟩) ⟨List.forall_mem_nil _, rfl⟩ (List.forall_mem_nil _) s.log)
  | request _ | callerFailure => exact hquiet (h.closeCaller trivial)
  | @callerResponse outcome drift outboxId sub todo attempt hpc =>
    apply hquiet
    refine ⟨h.subscriptions, h.book, h.worker, h.caller.writes, ?_⟩
    have hl := h.caller.pc
    rw [hpc] at hl
    exact ⟨hl.1, hl.2.1, hl.2.2.answered outcome⟩
  | putSubscription => exact hquiet (inv_putSubscription h hok)
  | tick => exact hquiet ⟨h.subscriptions, h.book, h.worker, h.caller⟩

/-- As long as no event goes to two subscriptions of one consumer, and no url is patched under
a delivery, every failed row has an entry with the url that it was last posted to, and no two
failed rows share one. -/
theorem failed_rows_lettered (c : Config) (p : State ι × List (Nat × String))
    (h : Reachable (traced (step c) posted) OneContact (init, []) p) (row : OutboxRow)
    (hrow : row ∈ p.1.db.outbox) (hfailed : row.status = .FAILED) :
    InDlqAt p.1.db p.2 row ∧
      ∀ row' ∈ p.1.db.outbox, row'.status = .FAILED → row'.payload.eventId = row.payload.eventId →
        consumerOf p.1.db.subscriptions row'.subscriptionId =
          consumerOf p.1.db.subscriptions row.subscriptionId → row' = row := by
  have hinv : Inv p := h.invariant inv_init fun _ _ _ hi hok hs => inv_step hi hok hs
  refine ⟨hinv.book.inDlqAt hrow hfailed, fun row' hrow' _ hevent hconsumer => ?_⟩
  have hletter : letter p.1.db.subscriptions (stub row') = letter p.1.db.subscriptions (stub row) :=
    Prod.ext hevent hconsumer
  have hstub := hinv.book.eq_of_letter (hinv.book.committed row' hrow') (hinv.book.committed row hrow) hletter
  have hids := hinv.book.ids
  rw [DeadLetterCall.rowsOf, List.map_append, List.map_map] at hids
  exact List.inj_on_of_nodup_map (List.nodup_append.mp hids).1 hrow' hrow (congrArg Stub.id hstub)

end

def secondUrl (sub : Subscription) : Subscription :=
  { sub with targetUrl := "http://consumer/second" }

/-- One subscription, whose delivery fails, and whose url is patched after that. -/
theorem failed_rows_lettered_one_subscription :
    let acts : List (Action Unit) := List.flatten [driftWith [7], List.replicate 5 .caller,
      [.callerResponse (.response 500)], List.replicate 7 .caller,
      [.putSubscription (secondUrl (sampleSubscription 7))]]
    ∃ p, run (traced (step (sampleConfig 50 true)) posted) OneContact ((init, []) : State Unit × _) acts =
      some p ∧ ∃ row ∈ p.1.db.outbox, lastPosted p.2 row.id = some "http://consumer/hook" ∧
        InDlqAt p.1.db p.2 row := by
  intro acts
  have hrun : (run (traced (step (sampleConfig 50 true)) posted) OneContact
      ((init, []) : State Unit × _) acts).map
      (fun p => (p.1.db.outbox.map (fun row => (row.id, row.status)), p.2)) =
      some ([(5, .FAILED)], [(5, "http://consumer/hook")]) := by decide +kernel
  obtain ⟨p, hp, hresult⟩ := Option.map_eq_some_iff.mp hrun
  simp only [Prod.mk.injEq, List.map_eq_singleton_iff] at hresult
  obtain ⟨⟨row, houtbox, hid, hfailed⟩, htrace⟩ := hresult
  have hrow : row ∈ p.1.db.outbox := by
    rw [houtbox]
    exact List.mem_singleton.mpr rfl
  refine ⟨p, hp, row, hrow, ?_, ?_⟩
  · rw [hid, htrace]
    decide
  · exact (failed_rows_lettered _ p (reachable_run _ _ .start hp) row hrow hfailed).1

/-- The only entries have another url. -/
theorem not_inDlqAt {db : Tables} {trace : List (Nat × String)} {row : OutboxRow} {u : String}
    (hlast : lastPosted trace row.id = some u) (hurls : u ∉ db.dlq.map DlqEntry.targetUrl) :
    ¬InDlqAt db trace row := by
  rintro ⟨e, he, -, -, hurl⟩
  exact hurls (List.mem_map.mpr ⟨e, he, hurl u hlast⟩)

/-- Two subscriptions of one consumer, and both deliveries fail: the one entry has the url of the
first. -/
theorem second_delivery_unlettered :
    let acts : List (Action Unit) := List.flatten [[.putSubscription (sampleSubscription 7),
      .putSubscription (secondUrl (sampleSubscription 8)), .request firstCall, .caller, .caller,
      .request secondCall], List.replicate 5 .caller, [.callerResponse (.response 500)],
      List.replicate 6 .caller, [.callerResponse (.response 500)], List.replicate 7 .caller]
    ∃ p, run (traced (step (sampleConfig 50 true)) posted) always ((init, []) : State Unit × _) acts =
      some p ∧ p.1.db.outbox.map OutboxRow.status = [.FAILED, .FAILED] ∧ p.1.db.dlq.length = 1 ∧
        ∃ row ∈ p.1.db.outbox, ¬InDlqAt p.1.db p.2 row := by
  intro acts
  have hrun : (run (traced (step (sampleConfig 50 true)) posted) always
      ((init, []) : State Unit × _) acts).map
      (fun p => (p.1.db.outbox.map OutboxRow.status, p.1.db.outbox.map OutboxRow.id,
        p.1.db.dlq.map DlqEntry.targetUrl, p.2)) =
      some ([.FAILED, .FAILED], [5, 11], ["http://consumer/hook"],
        [(5, "http://consumer/hook"), (11, "http://consumer/second")]) := by decide +kernel
  obtain ⟨p, hp, hresult⟩ := Option.map_eq_some_iff.mp hrun
  simp only [Prod.mk.injEq] at hresult
  obtain ⟨hstatus, hids, hurls, htrace⟩ := hresult
  have hlength : p.1.db.dlq.length = 1 := by
    rw [← List.length_map, hurls]
    rfl
  obtain ⟨row, hrow, hid⟩ : ∃ row ∈ p.1.db.outbox, row.id = 11 := by
    rw [← List.mem_map, hids]
    decide
  refine ⟨p, hp, hstatus, hlength, row, hrow, not_inDlqAt (u := "http://consumer/second") ?_ ?_⟩
  · rw [hid, htrace]
    decide
  · rw [hurls]
    decide

/-- One subscription, patched after a failed attempt with another url and made inactive: the
remaining attempts post nothing, and the entry has a url that was never posted to. -/
theorem patched_row_unlettered :
    let acts : List (Action Unit) := List.flatten [driftWith [7], List.replicate 7 .caller,
      List.replicate 5 (.worker ()), [.workerResponse () (.response 500)], List.replicate 6 (.worker ()),
      [.putSubscription { secondUrl (sampleSubscription 7) with active := false }],
      List.replicate 2 .tick, List.replicate 8 (.worker ()), List.replicate 4 .tick,
      List.replicate 8 (.worker ()), List.replicate 8 .tick, List.replicate 8 (.worker ()),
      List.replicate 16 .tick, List.replicate 8 (.worker ())]
    ∃ p, run (traced (step (sampleConfig 50 false)) posted) always ((init, []) : State Unit × _) acts =
      some p ∧ ∃ row ∈ p.1.db.outbox, row.status = .FAILED ∧ ¬InDlqAt p.1.db p.2 row := by
  intro acts
  have hrun : (run (traced (step (sampleConfig 50 false)) posted) always
      ((init, []) : State Unit × _) acts).map
      (fun p => (p.1.db.outbox.map (fun row => (row.id, row.status)), p.1.db.dlq.map DlqEntry.targetUrl,
        p.2)) =
      some ([(5, .FAILED)], ["http://consumer/second"], [(5, "http://consumer/hook")]) := by
    decide +kernel
  obtain ⟨p, hp, hresult⟩ := Option.map_eq_some_iff.mp hrun
  simp only [Prod.mk.injEq, List.map_eq_singleton_iff] at hresult
  obtain ⟨⟨row, houtbox, hid, hfailed⟩, hurls, htrace⟩ := hresult
  have hrow : row ∈ p.1.db.outbox := by
    rw [houtbox]
    exact List.mem_singleton.mpr rfl
  refine ⟨p, hp, row, hrow, hfailed, not_inDlqAt (u := "http://consumer/hook") ?_ ?_⟩
  · rw [hid, htrace]
    decide
  · obtain ⟨e, hdlq, hurl⟩ := hurls
    rw [hdlq, List.map_singleton, hurl]
    decide

end SchemaPilot.DeadLetterRuns
