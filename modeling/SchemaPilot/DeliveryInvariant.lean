import SchemaPilot.DeliverySystem

namespace SchemaPilot.DeliveryInvariant

open Webhook OutboxWorker Enqueue Runs DeliverySystem

/-- A 2xx answer to a POST for the row. -/
def isSuccess (row : Nat) : Event → Bool
  | .returned row' outcome => row' = row && outcome.ok
  | .sent _ => false

def Delivered (log : List Event) (row : Nat) : Prop := ∃ e ∈ log, isSuccess row e

/-- A POST for a row whose earlier one has been answered with 2xx. -/
def isFurtherPost (earlier : Event) : Event → Bool
  | .sent row => isSuccess row earlier
  | .returned _ _ => false

def NoFurtherPost (log : List Event) : Prop := log.Pairwise fun a b => isFurtherPost a b = false

instance (log : List Event) : Decidable (NoFurtherPost log) :=
  inferInstanceAs (Decidable (log.Pairwise _))

def successes (log : List Event) (row : Nat) : Nat := log.countP (isSuccess row)

section Log

variable {log : List Event} {row : Nat}

theorem delivered_append {e : Event} : Delivered (log ++ [e]) row ↔ Delivered log row ∨ isSuccess row e := by
  simp [Delivered, or_and_right, exists_or]

theorem delivered_sent {row' : Nat} : Delivered (log ++ [.sent row']) row ↔ Delivered log row := by
  simp [delivered_append, isSuccess]

theorem NoFurtherPost.sent (h : NoFurtherPost log) (hd : ¬Delivered log row) :
    NoFurtherPost (log ++ [.sent row]) := by
  refine List.pairwise_append.mpr ⟨h, List.pairwise_singleton _ _, fun a ha b hb => ?_⟩
  rw [List.mem_singleton.mp hb, isFurtherPost, Bool.eq_false_iff]
  exact fun hs => hd ⟨a, ha, hs⟩

theorem NoFurtherPost.returned (h : NoFurtherPost log) (outcome : Outcome) :
    NoFurtherPost (log ++ [.returned row outcome]) := by
  refine List.pairwise_append.mpr ⟨h, List.pairwise_singleton _ _, fun a _ b hb => ?_⟩
  rw [List.mem_singleton.mp hb, isFurtherPost]

theorem successes_sent (row' : Nat) : successes (log ++ [.sent row']) row = successes log row := by
  simp [successes, isSuccess]

theorem successes_returned {row' : Nat} (h : successes log row ≤ 1) (hd : ¬Delivered log row')
    (outcome : Outcome) : successes (log ++ [.returned row' outcome]) row ≤ 1 := by
  rw [successes, List.countP_append, List.countP_singleton]
  split
  · next hs =>
    simp only [isSuccess, Bool.and_eq_true, decide_eq_true_eq] at hs
    have hzero : log.countP (isSuccess row) = 0 :=
      List.countP_eq_zero.mpr fun e he hs' => hd ⟨e, he, hs.1 ▸ hs'⟩
    omega
  · exact h

end Log

/-- The delivery has been answered with 2xx. -/
def won : DeliverPc → Bool
  | .succeeded _ | .commit true | .returned true => true
  | _ => false

def uncommitted : DeliverPc → Bool
  | .returned _ => false
  | _ => true

def Visible (db : Tables) (id : Nat) : Prop := ∃ row ∈ db.outbox, row.id = id

/-- A write that leaves the outbox alone. -/
def Quiet : Write → Prop
  | .insertAttempt _ | .upsertDlq _ => True
  | _ => False

def todo : WorkerPc → List OutboxRow
  | .poll | .count => []
  | .loop todo | .commitClaim _ todo | .selectSubscription _ todo | .failMissing _ todo
  | .deliver _ todo _ _ | .upsertDlq _ todo _ | .commitItem _ todo => todo

/-- What a worker has written, and what it knows of the row that it is processing. -/
def WorkerLocal (db : Tables) (log : List Event) (w : Worker) : Prop :=
  match w.pc with
  | .poll | .count | .loop _ => w.session.writes = []
  | .commitClaim item _ =>
    w.session.writes = [.updateOutbox item.id { status := .DELIVERING }] ∧ ¬Delivered log item.id
  | .selectSubscription item _ | .failMissing item _ =>
    w.session.writes = [] ∧ ¬Pending db item.id ∧ ¬Delivered log item.id
  | .deliver item _ _ pc =>
    (∀ x ∈ w.session.writes, Quiet x) ∧ ¬Pending db item.id ∧
      (won pc = false → ¬Delivered log item.id)
  | .upsertDlq item _ _ | .commitItem item _ =>
    (∀ x ∈ w.session.writes, Quiet x ∨ ∃ u, x = .updateOutbox item.id u ∧
        (u.status = .PENDING → ¬Delivered log item.id)) ∧
      ¬Pending db item.id

structure WorkerOk (db : Tables) (log : List Event) (w : Worker) : Prop where
  visible : ∀ row ∈ w.pc.batch, Visible db row.id
  nodup : (w.pc.batch.map OutboxRow.id).Nodup
  undelivered : ∀ row ∈ todo w.pc, ¬Delivered log row.id
  state : WorkerLocal db log w

/-- The call is past a 2xx answer to its POST for the row. -/
def Holds (pc : CallPc) (id : Nat) : Prop :=
  ∃ drift s todo p, pc = .deliver drift id s todo p ∧ won p

/-- The call has not yet committed the row that it delivers. -/
def Posting (pc : CallPc) (id : Nat) : Prop :=
  ∃ drift s todo p, pc = .deliver drift id s todo p ∧ uncommitted p

/-- The call has not come to the subscriptions yet. -/
def starting : CallPc → Bool
  | .idle | .upsert _ | .classify _ _ => true
  | _ => false

structure CallerOk (db : Tables) (log : List Event) (fresh : Nat) (w : Caller) : Prop where
  ids : (db.outbox.map OutboxRow.id ++ (inserted w.session.writes).map OutboxRow.id).Nodup
  id_lt : ∀ id ∈ db.outbox.map OutboxRow.id ++ (inserted w.session.writes).map OutboxRow.id,
    id < fresh
  inserted : ∀ row ∈ inserted w.session.writes, Delivered log row.id → Holds w.pc row.id
  updates : ∀ id u, .updateOutbox id u ∈ w.session.writes →
    u.status ≠ .PENDING ∧ id ∈ w.session.locks
  posting : ∀ id, Posting w.pc id → ∃ row ∈ Webhook.inserted w.session.writes, row.id = id
  settled : ∀ id, Delivered log id → Pending db id →
    Holds w.pc id ∨ ∃ u, .updateOutbox id u ∈ w.session.writes
  start : starting w.pc → ∀ id u, .updateOutbox id u ∉ w.session.writes
  committed : ∀ drift id s todo, w.pc = .deliver drift id s todo (.returned true) →
    Webhook.inserted w.session.writes = []

structure Inv {ι : Type} (s : State ι) : Prop where
  worker : ∀ i, WorkerOk s.db s.log (s.worker i)
  caller : CallerOk s.db s.log s.fresh s.caller
  apart : ∀ i j, i ≠ j → ∀ row ∈ (s.worker i).pc.batch, ∀ row' ∈ (s.worker j).pc.batch,
    row.id ≠ row'.id
  log_lt : ∀ id, Delivered s.log id → id < s.fresh
  quiet : NoFurtherPost s.log
  once : ∀ id, successes s.log id ≤ 1

theorem inv_init {ι : Type} : Inv (init : State ι) := by
  refine ⟨fun i => ⟨?_, ?_, ?_, rfl⟩, ⟨?_, ?_, ?_, ?_, ?_, ?_, ?_, ?_⟩, ?_, ?_, List.Pairwise.nil, ?_⟩ <;>
    simp [init, WorkerPc.batch, todo, Tables.empty, Session.closed, inserted, Posting, Delivered,
      successes]

/-- What other processes may change under a worker. -/
structure Keeps (db db' : Tables) (log log' : List Event) (w : Worker) : Prop where
  visible : ∀ id, Visible db id → Visible db' id
  pending : ∀ row ∈ w.pc.batch, Pending db' row.id → Pending db row.id
  delivered : ∀ row ∈ w.pc.batch, Delivered log' row.id → Delivered log row.id

theorem mem_batch_of_processing {pc : WorkerPc} {item : OutboxRow} (h : pc.processing = some item) :
    item ∈ pc.batch := by
  cases pc <;> simp_all [WorkerPc.processing, WorkerPc.batch]

theorem mem_batch_of_todo {pc : WorkerPc} {row : OutboxRow} (h : row ∈ todo pc) : row ∈ pc.batch := by
  cases pc with
  | poll | count => cases h
  | loop rest => exact h
  | _ => exact List.mem_cons_of_mem _ h

theorem WorkerOk.keep {db db' : Tables} {log log' : List Event} {w : Worker}
    (hk : Keeps db db' log log' w) (h : WorkerOk db log w) : WorkerOk db' log' w := by
  refine ⟨fun row hr => hk.visible _ (h.visible row hr), h.nodup,
    fun row hr hd => h.undelivered row hr (hk.delivered row (mem_batch_of_todo hr) hd), ?_⟩
  have hl := h.state
  unfold WorkerLocal at hl ⊢
  have hitem : ∀ item, w.pc.processing = some item → item ∈ w.pc.batch :=
    fun item => mem_batch_of_processing
  cases hpc : w.pc with
  | poll | count | loop rest =>
    simp only [hpc] at hl
    exact hl
  | commitClaim item rest =>
    simp only [hpc] at hl
    have hm := hitem item (by rw [hpc]; rfl)
    exact ⟨hl.1, mt (hk.delivered item hm) hl.2⟩
  | selectSubscription item rest | failMissing item rest =>
    simp only [hpc] at hl
    have hm := hitem item (by rw [hpc]; rfl)
    exact ⟨hl.1, mt (hk.pending item hm) hl.2.1, mt (hk.delivered item hm) hl.2.2⟩
  | deliver item rest s pc =>
    simp only [hpc] at hl
    have hm := hitem item (by rw [hpc]; rfl)
    exact ⟨hl.1, mt (hk.pending item hm) hl.2.1, fun hw => mt (hk.delivered item hm) (hl.2.2 hw)⟩
  | upsertDlq item rest _ | commitItem item rest =>
    simp only [hpc] at hl
    have hm := hitem item (by rw [hpc]; rfl)
    refine ⟨fun x hx => (hl.1 x hx).imp_right ?_, mt (hk.pending item hm) hl.2⟩
    rintro ⟨u, rfl, hu⟩
    exact ⟨u, rfl, fun hs => mt (hk.delivered item hm) (hu hs)⟩

/-- A worker goes on with the same batch, or with what is left of it. -/
theorem WorkerOk.next {db : Tables} {log : List Event} {w w' : Worker} (h : WorkerOk db log w)
    (hbatch : w'.pc.batch.Sublist w.pc.batch) (htodo : ∀ row ∈ todo w'.pc, row ∈ todo w.pc)
    (hstate : WorkerLocal db log w') : WorkerOk db log w' :=
  ⟨fun row hr => h.visible row (hbatch.subset hr), h.nodup.sublist (hbatch.map _),
    fun row hr => h.undelivered row (htodo row hr), hstate⟩

theorem CallerOk.keep {db db' : Tables} {log log' : List Event} {fresh : Nat} {w : Caller}
    (hids : db'.outbox.map OutboxRow.id = db.outbox.map OutboxRow.id)
    (hsettled : ∀ id, Delivered log' id → Pending db' id → Delivered log id ∧ Pending db id)
    (hinserted : ∀ row ∈ Webhook.inserted w.session.writes, Delivered log' row.id → Delivered log row.id)
    (h : CallerOk db log fresh w) : CallerOk db' log' fresh w where
  ids := hids ▸ h.ids
  id_lt := hids ▸ h.id_lt
  inserted row hr hd := h.inserted row hr (hinserted row hr hd)
  updates := h.updates
  posting := h.posting
  settled id hd hp := by
    obtain ⟨hd, hp⟩ := hsettled id hd hp
    exact h.settled id hd hp
  start := h.start
  committed := h.committed

/-- What a worker may write while it processes a row. -/
def Writes (log : List Event) (item : OutboxRow) (writes : List Write) : Prop :=
  ∀ x ∈ writes, Quiet x ∨ ∃ u, x = .updateOutbox item.id u ∧
    (u.status = .PENDING → ¬Delivered log item.id)

section Writes

variable {db : Tables} {log : List Event} {item : OutboxRow} {session : Session}

theorem WorkerOk.writes {w : Worker} (h : WorkerOk db log w) (hpc : w.pc.processing = some item) :
    Writes log item w.session.writes := by
  have hl := h.state
  rw [WorkerLocal] at hl
  cases hp : w.pc with
  | poll | count | loop rest =>
    rw [hp] at hpc
    cases hpc
  | commitClaim item' rest =>
    rw [hp] at hpc
    simp only [hp] at hl
    cases hpc
    intro x hx
    rw [hl.1, List.mem_singleton] at hx
    exact .inr ⟨_, hx, nofun⟩
  | selectSubscription item' rest | failMissing item' rest =>
    simp only [hp] at hl
    rw [hl.1]
    exact fun x hx => absurd hx List.not_mem_nil
  | deliver item' rest s pc =>
    simp only [hp] at hl
    exact fun x hx => .inl (hl.1 x hx)
  | upsertDlq item' rest _ | commitItem item' rest =>
    rw [hp] at hpc
    simp only [hp] at hl
    cases hpc
    exact hl.1

theorem Writes.inserted_eq_nil (h : Writes log item session.writes) :
    inserted session.writes = [] := by
  apply List.eq_nil_iff_forall_not_mem.mpr
  intro row hr
  obtain hq | ⟨u, hu, -⟩ := h _ (mem_inserted.mp hr)
  · exact hq
  · cases hu

theorem Writes.view_ids (h : Writes log item session.writes) :
    (session.view db).outbox.map OutboxRow.id = db.outbox.map OutboxRow.id := by
  rw [Webhook.view_ids, h.inserted_eq_nil, List.map_nil, List.append_nil]

theorem Writes.pending_view (h : Writes log item session.writes) {id : Nat}
    (hp : Pending (session.view db) id) :
    (Pending db id ∧ ∀ u, .updateOutbox id u ∉ session.writes) ∨
      id = item.id ∧ ¬Delivered log item.id := by
  obtain hold | ⟨u, hu, hs⟩ | ⟨row, hr, -⟩ := Webhook.pending_view hp
  · exact .inl hold
  · obtain hq | ⟨u', heq, hd⟩ := h _ hu
    · exact hq.elim
    · cases heq
      exact .inr ⟨rfl, hd hs⟩
  · rw [h.inserted_eq_nil] at hr
    cases hr

/-- Within a delivery the outbox is left alone. -/
theorem deliver_write {d : Delivery} {pc pc' : DeliverPc} {x : Write}
    (h : d.next pc = some (.write x, pc')) : Quiet x := by
  cases pc with
  | succeeded attempt | failed attempt reason | dlq attempt reason =>
    cases h
    trivial
  | post attempt | awaiting attempt | commit ok | returned ok => cases h

theorem not_pending_view {id : Nat} (h : ∀ x ∈ session.writes, Quiet x) (hp : ¬Pending db id) :
    ¬Pending (session.view db) id := by
  intro hv
  obtain ⟨hv, -⟩ | ⟨u, hu, -⟩ | ⟨row, hr, -⟩ := Webhook.pending_view hv
  · exact hp hv
  · exact h _ hu
  · exact h _ (mem_inserted.mp hr)

theorem visible_iff (db : Tables) (id : Nat) : Visible db id ↔ id ∈ db.outbox.map OutboxRow.id :=
  List.mem_map.symm

end Writes

theorem Inv.apart_of_subset {ι : Type} {s : State ι} {i : ι} (h : Inv s) {pc : WorkerPc}
    (hsub : ∀ row ∈ pc.batch, row ∈ (s.worker i).pc.batch) :
    ∀ j, j ≠ i → ∀ row ∈ pc.batch, ∀ row' ∈ (s.worker j).pc.batch, row.id ≠ row'.id :=
  fun j hji row hr row' hr' => h.apart i j hji.symm row (hsub row hr) row' hr'

section Worker

variable {ι : Type} [DecidableEq ι] {s : State ι} {i : ι}

theorem setWorker_worker (s : State ι) (i : ι) (w : Worker) (j : ι) :
    (s.setWorker i w).worker j = if j = i then w else s.worker j :=
  Function.update_apply s.worker i w j

/-- A step of one worker, with what it may not do to the others. -/
theorem Inv.setWorker (h : Inv s) {w : Worker} {db : Tables} {log : List Event}
    (hw : WorkerOk db log w)
    (hapart : ∀ j, j ≠ i → ∀ row ∈ w.pc.batch, ∀ row' ∈ (s.worker j).pc.batch, row.id ≠ row'.id)
    (hkeep : ∀ j, j ≠ i → Keeps s.db db s.log log (s.worker j))
    (hcaller : CallerOk db log s.fresh s.caller)
    (hlt : ∀ id, Delivered log id → id < s.fresh) (hquiet : NoFurtherPost log)
    (honce : ∀ id, successes log id ≤ 1) : Inv { s.setWorker i w with db, log } := by
  refine ⟨fun j => ?_, hcaller, fun j k hne row hr row' hr' => ?_, hlt, hquiet, honce⟩
  · change WorkerOk db log ((s.setWorker i w).worker j)
    rw [setWorker_worker]
    split
    · exact hw
    · next hji => exact (h.worker j).keep (hkeep j hji)
  · change row ∈ ((s.setWorker i w).worker j).pc.batch at hr
    change row' ∈ ((s.setWorker i w).worker k).pc.batch at hr'
    rw [setWorker_worker] at hr hr'
    split at hr <;> split at hr'
    · next hji hki => exact absurd (hji.trans hki.symm) hne
    · next hji hki => exact hapart k hki row hr row' hr'
    · next hji hki => exact (hapart j hji row' hr' row hr).symm
    · exact h.apart j k hne row hr row' hr'

/-- A worker goes on, and leaves the tables and the log as they are. -/
theorem Inv.move (h : Inv s) {w : Worker} (hw : WorkerOk s.db s.log w)
    (hapart : ∀ j, j ≠ i → ∀ row ∈ w.pc.batch, ∀ row' ∈ (s.worker j).pc.batch, row.id ≠ row'.id) :
    Inv (s.setWorker i w) :=
  h.setWorker hw hapart (fun _ _ => ⟨fun _ => id, fun _ _ => id, fun _ _ => id⟩) h.caller h.log_lt
    h.quiet h.once

/-- A worker sends a POST for a row that has not been delivered. -/
theorem Inv.sendWorker (h : Inv s) {w : Worker} {item : OutboxRow}
    (hw : WorkerOk s.db s.log w) (hsub : ∀ row ∈ w.pc.batch, row ∈ (s.worker i).pc.batch)
    (hd : ¬Delivered s.log item.id) :
    Inv { s.setWorker i w with log := s.log ++ [.sent item.id] } := by
  have hdelivered : ∀ id, Delivered (s.log ++ [.sent item.id]) id → Delivered s.log id :=
    fun id => delivered_sent.mp
  refine h.setWorker (hw.keep ⟨fun _ => id, fun _ _ => id, fun row _ => hdelivered row.id⟩)
    (h.apart_of_subset hsub) (fun j _ => ⟨fun _ => id, fun _ _ => id, fun row _ => hdelivered row.id⟩)
    (h.caller.keep rfl (fun id hd hp => ⟨hdelivered id hd, hp⟩) fun row _ => hdelivered row.id)
    (fun id hd => h.log_lt id (hdelivered id hd)) (h.quiet.sent hd) fun id => ?_
  rw [successes_sent]
  exact h.once id

/-- A worker commits what it has written to the row that it is processing. -/
theorem Inv.commitWorker (h : Inv s) {w : Worker} {item : OutboxRow}
    (hpc : (s.worker i).pc.processing = some item)
    (hw : WorkerOk ((s.worker i).session.view s.db) s.log w)
    (hsub : ∀ row ∈ w.pc.batch, row ∈ (s.worker i).pc.batch) :
    Inv { s.setWorker i w with db := (s.worker i).session.view s.db } := by
  have hwrites := (h.worker i).writes hpc
  have hids : ((s.worker i).session.view s.db).outbox.map OutboxRow.id =
      s.db.outbox.map OutboxRow.id := hwrites.view_ids
  refine h.setWorker hw (h.apart_of_subset hsub) (fun j hji => ⟨fun id hv => ?_, fun row hr hp => ?_,
    fun _ _ => id⟩) (h.caller.keep hids (fun id hd hp => ?_) fun _ _ => id) h.log_lt h.quiet h.once
  · rw [visible_iff, hids, ← visible_iff]
    exact hv
  · obtain ⟨hp, -⟩ | ⟨hid, -⟩ := hwrites.pending_view hp
    · exact hp
    · exact absurd hid (h.apart j i hji row hr item (mem_batch_of_processing hpc))
  · obtain ⟨hp, -⟩ | ⟨hid, hnd⟩ := hwrites.pending_view hp
    · exact ⟨hd, hp⟩
    · exact absurd (hid ▸ hd) hnd

theorem delivered_returned {log : List Event} {id row : Nat} {outcome : Outcome}
    (h : Delivered (log ++ [.returned row outcome]) id) :
    Delivered log id ∨ id = row ∧ outcome.ok := by
  obtain h | h := delivered_append.mp h
  · exact .inl h
  · simp only [isSuccess, Bool.and_eq_true, decide_eq_true_eq] at h
    exact .inr ⟨h.1.symm, h.2⟩

/-- The answer to a worker's POST. -/
theorem Inv.respondWorker (h : Inv s) {item : OutboxRow} {rest : List OutboxRow} {sub : Subscription}
    {attempt : Nat} (hpc : (s.worker i).pc = .deliver item rest sub (.awaiting attempt))
    {outcome : Outcome} {pc : DeliverPc} (hout : DeliverPc.respond outcome (.awaiting attempt) = some pc) :
    Inv { s.setWorker i { s.worker i with pc := .deliver item rest sub pc } with
      log := s.log ++ [.returned item.id outcome] } := by
  have hw := h.worker i
  have hl := hw.state
  rw [WorkerLocal] at hl
  simp only [hpc] at hl
  obtain ⟨hquiet, hp, hnd⟩ := hl
  have hnd := hnd rfl
  have hbatch : (s.worker i).pc.batch = item :: rest := by rw [hpc]; rfl
  have hvisible := hw.visible
  have hnodup := hw.nodup
  rw [hbatch] at hvisible hnodup
  have hitem := hvisible item List.mem_cons_self
  refine h.setWorker ⟨hvisible, hnodup, fun row hr hd => ?_, hquiet, hp, fun hwon hd => ?_⟩
    (h.apart_of_subset fun row hr => hbatch ▸ hr)
    (fun j hji => ⟨fun _ => id, fun _ _ => id, fun row hr hd => ?_⟩)
    (h.caller.keep rfl (fun id hd hp' => ?_) fun row hr hd => ?_) (fun id hd => ?_)
    (h.quiet.returned outcome) fun id => successes_returned (h.once id) hnd outcome
  · obtain hd | ⟨hid, -⟩ := delivered_returned hd
    · exact hw.undelivered row (by rw [hpc]; exact hr) hd
    · exact (List.nodup_cons.mp hnodup).1 (List.mem_map.mpr ⟨row, hr, hid⟩)
  · simp only [DeliverPc.respond, Option.some.injEq] at hout
    obtain hd | ⟨-, hok⟩ := delivered_returned hd
    · exact hnd hd
    · rw [if_pos hok] at hout
      rw [← hout] at hwon
      cases hwon
  · obtain hd | ⟨hid, -⟩ := delivered_returned hd
    · exact hd
    · exact absurd hid (h.apart j i hji row hr item (by rw [hbatch]; exact List.mem_cons_self))
  · obtain hd | ⟨rfl, -⟩ := delivered_returned hd
    · exact ⟨hd, hp'⟩
    · exact absurd hp' hp
  · obtain hd | ⟨hid, -⟩ := delivered_returned hd
    · exact hd
    · have hdisjoint := (List.nodup_append.mp h.caller.ids).2.2
      exact absurd hid.symm (hdisjoint _ ((visible_iff _ _).mp hitem) _ (List.mem_map_of_mem hr))
  · obtain hd | ⟨rfl, -⟩ := delivered_returned hd
    · exact h.log_lt id hd
    · exact h.caller.id_lt _ (List.mem_append_left _ ((visible_iff _ _).mp hitem))

/-- A step that keeps the batch, or a part of it. -/
theorem Inv.goto (h : Inv s) {w : Worker} (hbatch : w.pc.batch.Sublist (s.worker i).pc.batch)
    (htodo : ∀ row ∈ todo w.pc, row ∈ todo (s.worker i).pc) (hstate : WorkerLocal s.db s.log w) :
    Inv (s.setWorker i w) :=
  h.move ((h.worker i).next hbatch htodo hstate) (h.apart_of_subset fun _ hr => hbatch.subset hr)

theorem Inv.stay (h : Inv s) {w : Worker} (hbatch : w.pc.batch = (s.worker i).pc.batch)
    (htodo : todo w.pc = todo (s.worker i).pc) (hstate : WorkerLocal s.db s.log w) :
    Inv (s.setWorker i w) :=
  h.goto (hbatch ▸ List.Sublist.refl _) (fun _ hr => htodo ▸ hr) hstate

end Worker

section Caller

variable {ι : Type} {s : State ι}

theorem Holds.of_deliver {drift : Drift} {id id' : Nat} {sub : Subscription} {rest : List Subscription}
    {p : DeliverPc} (h : Holds (.deliver drift id sub rest p) id') : id' = id ∧ won p := by
  obtain ⟨drift', sub', rest', p', heq, hwon⟩ := h
  cases heq
  exact ⟨rfl, hwon⟩

theorem Posting.of_deliver {drift : Drift} {id id' : Nat} {sub : Subscription} {rest : List Subscription}
    {p : DeliverPc} (h : Posting (.deliver drift id sub rest p) id') : id' = id ∧ uncommitted p := by
  obtain ⟨drift', sub', rest', p', heq, hopen⟩ := h
  cases heq
  exact ⟨rfl, hopen⟩

def delivering : CallPc → Bool
  | .deliver _ _ _ _ _ => true
  | _ => false

theorem not_holds {pc : CallPc} (h : delivering pc = false) (id : Nat) : ¬Holds pc id := by
  rintro ⟨drift, sub, rest, p, rfl, -⟩
  cases h

theorem not_posting {pc : CallPc} (h : delivering pc = false) (id : Nat) : ¬Posting pc id := by
  rintro ⟨drift, sub, rest, p, rfl, -⟩
  cases h

/-- A step of the call that says nothing to the outbox. -/
theorem CallerOk.next {db db' : Tables} {log : List Event} {fresh : Nat} {w w' : Caller}
    (h : CallerOk db log fresh w) (hdb : db'.outbox = db.outbox)
    (hinserted : Webhook.inserted w'.session.writes = Webhook.inserted w.session.writes)
    (hupdates : ∀ id u, .updateOutbox id u ∈ w'.session.writes ↔ .updateOutbox id u ∈ w.session.writes)
    (hlocks : w'.session.locks = w.session.locks) (hholds : ∀ id, Holds w.pc id → Holds w'.pc id)
    (hposting : ∀ id, Posting w'.pc id → Posting w.pc id) (hstart : starting w'.pc → starting w.pc)
    (hcommitted : ∀ drift id s todo, w'.pc = .deliver drift id s todo (.returned true) →
      Webhook.inserted w.session.writes = []) :
    CallerOk db' log (fresh + 1) w' where
  ids := by rw [hdb, hinserted]; exact h.ids
  id_lt id hid := by
    rw [hdb, hinserted] at hid
    exact (h.id_lt id hid).trans (Nat.lt_succ_self _)
  inserted row hr hd := hholds _ (h.inserted row (hinserted ▸ hr) hd)
  updates id u hu := by
    rw [hlocks]
    exact h.updates id u ((hupdates id u).mp hu)
  posting id hp := by
    rw [hinserted]
    exact h.posting id (hposting id hp)
  settled id hd hp := by
    simp only [hupdates]
    rw [Pending, hdb] at hp
    exact (h.settled id hd hp).imp_left (hholds id)
  start hs id u hu := h.start (hstart hs) id u ((hupdates id u).mp hu)
  committed drift id s todo hpc := hinserted ▸ hcommitted drift id s todo hpc

/-- A call that has not come to the subscriptions may drop its session. -/
theorem CallerOk.close {db : Tables} {log : List Event} {fresh fresh' : Nat} {w : Caller}
    (h : CallerOk db log fresh w) (hstart : starting w.pc) (hfrom : delivering w.pc = false)
    (hfresh : fresh ≤ fresh') {pc : CallPc} (hto : delivering pc = false) :
    CallerOk db log fresh' ⟨pc, .closed⟩ := by
  refine ⟨?_, fun id hid => ?_, fun _ hr => absurd hr List.not_mem_nil,
    fun _ _ hu => absurd hu List.not_mem_nil, fun id hp => absurd hp (not_posting hto id),
    fun id hd hp => ?_, fun _ _ _ => List.not_mem_nil, fun _ _ _ _ _ => rfl⟩
  · change (db.outbox.map OutboxRow.id ++ []).Nodup
    rw [List.append_nil]
    exact (List.nodup_append.mp h.ids).1
  · change id ∈ db.outbox.map OutboxRow.id ++ [] at hid
    rw [List.append_nil] at hid
    exact (h.id_lt id (List.mem_append_left _ hid)).trans_le hfresh
  · obtain hh | ⟨u, hu⟩ := h.settled id hd hp
    · exact absurd hh (not_holds hfrom id)
    · exact absurd hu (h.start hstart id u)

theorem Inv.setCaller (h : Inv s) {db : Tables} {log : List Event} {fresh : Nat} {w : Caller}
    {drifts : List Drift} (hkeep : ∀ i, Keeps s.db db s.log log (s.worker i))
    (hcaller : CallerOk db log fresh w) (hlt : ∀ id, Delivered log id → id < fresh)
    (hquiet : NoFurtherPost log) (honce : ∀ id, successes log id ≤ 1) :
    Inv { s with db, fresh, caller := w, log, drifts } :=
  ⟨fun i => (h.worker i).keep (hkeep i), hcaller, h.apart, hlt, hquiet, honce⟩

/-- A row of a batch is committed, and so is not one that the call is about to insert. -/
theorem Inv.batch_ne_inserted (h : Inv s) {i : ι} {row row' : OutboxRow}
    (hr : row ∈ (s.worker i).pc.batch) (hr' : row' ∈ inserted s.caller.session.writes) :
    row.id ≠ row'.id := by
  have hv := (visible_iff _ _).mp ((h.worker i).visible row hr)
  exact (List.nodup_append.mp h.caller.ids).2.2 _ hv _ (List.mem_map_of_mem hr')

/-- A step of the call that neither commits nor posts, and that leaves the outbox alone. -/
theorem Inv.nextCaller (h : Inv s) {db : Tables} {w : Caller} {drifts : List Drift}
    (hdb : db.outbox = s.db.outbox) (hcaller : CallerOk db s.log (s.fresh + 1) w) :
    Inv { s with db, fresh := s.fresh + 1, caller := w, drifts } := by
  refine h.setCaller (fun i => ⟨fun id hv => ?_, fun row _ hp => ?_, fun _ _ => id⟩) hcaller
    (fun id hd => (h.log_lt id hd).trans (Nat.lt_succ_self _)) h.quiet h.once
  · rw [Visible, hdb]
    exact hv
  · rw [Pending, hdb] at hp
    exact hp

theorem Inv.commitCaller (h : Inv s) {pc : CallPc} {drifts : List Drift}
    (hholds : ∀ id, Holds s.caller.pc id → Holds pc id) (hposting : ∀ id, ¬Posting pc id) :
    Inv { s with
      db := s.caller.session.view s.db, fresh := s.fresh + 1, caller := ⟨pc, .closed⟩, drifts } := by
  have hc := h.caller
  have hids := view_ids s.caller.session s.db
  refine h.setCaller (fun i => ⟨fun id hv => ?_, fun row hr hp => ?_, fun _ _ => id⟩)
    ⟨?_, ?_, fun _ hr => absurd hr List.not_mem_nil, fun _ _ hu => absurd hu List.not_mem_nil,
      fun id hp => absurd hp (hposting id), fun id hd hp => ?_, fun _ _ _ => List.not_mem_nil,
      fun _ _ _ _ _ => rfl⟩
    (fun id hd => (h.log_lt id hd).trans (Nat.lt_succ_self _)) h.quiet h.once
  · rw [visible_iff, hids]
    exact List.mem_append_left _ ((visible_iff _ _).mp hv)
  · obtain ⟨hp, -⟩ | ⟨u, hu, hstatus⟩ | ⟨row', hr', hid⟩ := pending_view hp
    · exact hp
    · exact absurd hstatus (hc.updates _ _ hu).1
    · exact absurd hid.symm (h.batch_ne_inserted hr hr')
  · change ((s.caller.session.view s.db).outbox.map OutboxRow.id ++ []).Nodup
    rw [hids, List.append_nil]
    exact hc.ids
  · intro id hid
    change id ∈ (s.caller.session.view s.db).outbox.map OutboxRow.id ++ [] at hid
    rw [hids, List.append_nil] at hid
    exact (hc.id_lt id hid).trans (Nat.lt_succ_self _)
  · refine .inl (hholds id ?_)
    obtain ⟨hp, hno⟩ | ⟨u, hu, hstatus⟩ | ⟨row, hr, rfl⟩ := pending_view hp
    · exact (hc.settled id hd hp).resolve_right fun ⟨u, hu⟩ => hno u hu
    · exact absurd hstatus (hc.updates _ _ hu).1
    · exact hc.inserted row hr hd

/-- The call's POST for its row. -/
theorem Inv.sendCaller (h : Inv s) {drift : Drift} {outboxId : Nat} {sub : Subscription}
    {rest : List Subscription} {attempt : Nat}
    (hpc : s.caller.pc = .deliver drift outboxId sub rest (.post attempt)) {drifts : List Drift} :
    Inv { s with
      fresh := s.fresh + 1
      caller := { s.caller with pc := .deliver drift outboxId sub rest (.awaiting attempt) }
      log := s.log ++ [.sent outboxId]
      drifts } := by
  have hc := h.caller
  have hnone : ∀ id, ¬Holds s.caller.pc id := by
    rw [hpc]
    exact fun id hh => Bool.false_ne_true hh.of_deliver.2
  have hdelivered : ∀ id', Delivered (s.log ++ [.sent outboxId]) id' → Delivered s.log id' :=
    fun id' => delivered_sent.mp
  obtain ⟨row, hr, hid⟩ := hc.posting outboxId (hpc ▸ ⟨drift, sub, rest, _, rfl, rfl⟩)
  have hnd : ¬Delivered s.log outboxId := fun hd => hnone _ (hc.inserted row hr (hid ▸ hd))
  have hok : CallerOk s.db s.log (s.fresh + 1)
      { s.caller with pc := .deliver drift outboxId sub rest (.awaiting attempt) } := by
    refine hc.next ?_ ?_ ?_ ?_ ?_ ?_ ?_ ?_
    · rfl
    · rfl
    · exact fun _ _ => Iff.rfl
    · rfl
    · exact fun id hh => absurd hh (hnone id)
    · intro id hp
      rw [hpc, hp.of_deliver.1]
      exact ⟨drift, sub, rest, _, rfl, rfl⟩
    · exact nofun
    · intro drift' id sub' rest' heq
      cases heq
  refine h.setCaller (fun i => ⟨fun _ => id, fun _ _ => id, fun row _ => hdelivered row.id⟩)
    (hok.keep rfl (fun id hd hp => ⟨hdelivered id hd, hp⟩) fun row _ => hdelivered row.id)
    (fun id hd => (h.log_lt id (hdelivered id hd)).trans (Nat.lt_succ_self _)) (h.quiet.sent hnd)
    fun id' => ?_
  rw [successes_sent]
  exact h.once id'

/-- The answer to the call's POST. -/
theorem Inv.respondCaller (h : Inv s) {drift : Drift} {outboxId : Nat} {sub : Subscription}
    {rest : List Subscription} {attempt : Nat}
    (hpc : s.caller.pc = .deliver drift outboxId sub rest (.awaiting attempt)) {outcome : Outcome}
    {pc : DeliverPc} (hout : DeliverPc.respond outcome (.awaiting attempt) = some pc) :
    Inv { s with
      caller := { s.caller with pc := .deliver drift outboxId sub rest pc }
      log := s.log ++ [.returned outboxId outcome] } := by
  have hc := h.caller
  have hnone : ∀ id, ¬Holds s.caller.pc id := by
    rw [hpc]
    exact fun id hh => Bool.false_ne_true hh.of_deliver.2
  obtain ⟨row, hr, hid⟩ := hc.posting outboxId (hpc ▸ ⟨drift, sub, rest, _, rfl, rfl⟩)
  have hnd : ¬Delivered s.log outboxId := fun hd => hnone _ (hc.inserted row hr (hid ▸ hd))
  simp only [DeliverPc.respond, Option.some.injEq] at hout
  have hwon : outcome.ok → won pc := by
    intro hok
    rw [← hout, if_pos hok]
    rfl
  have hopen : uncommitted pc := by
    rw [← hout]
    split <;> rfl
  refine h.setCaller (fun i => ⟨fun _ => id, fun _ _ => id, fun row' hr' hd => ?_⟩)
    ⟨hc.ids, hc.id_lt, fun row' hr' hd => ?_, hc.updates, fun id' hp => ?_, fun id' hd hp => ?_, ?_, ?_⟩
    (fun id' hd => ?_) (h.quiet.returned outcome)
    fun id' => successes_returned (h.once id') hnd outcome
  · obtain hd | ⟨hid', -⟩ := delivered_returned hd
    · exact hd
    · exact absurd (hid'.trans hid.symm) (h.batch_ne_inserted hr' hr)
  · obtain hd | ⟨hid', hok⟩ := delivered_returned hd
    · exact absurd (hc.inserted row' hr' hd) (hnone _)
    · exact ⟨drift, sub, rest, pc, by rw [hid'], hwon hok⟩
  · rw [hp.of_deliver.1]
    exact ⟨row, hr, hid⟩
  · obtain hd | ⟨hid', hok⟩ := delivered_returned hd
    · exact .inr ((hc.settled id' hd hp).resolve_left (hnone _))
    · exact .inl ⟨drift, sub, rest, pc, by rw [hid'], hwon hok⟩
  · exact nofun
  · intro drift' id' sub' rest' heq
    cases heq
    cases hopen
  · obtain hd | ⟨rfl, -⟩ := delivered_returned hd
    · exact h.log_lt id' hd
    · exact hc.id_lt _ (List.mem_append_right _ (List.mem_map.mpr ⟨row, hr, hid⟩))

end Caller

end SchemaPilot.DeliveryInvariant
