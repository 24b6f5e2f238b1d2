import SchemaPilot.DeadLetters

namespace SchemaPilot.DeadLetterCall

open Webhook Enqueue Runs DeliverySystem OutboxRows DeadLetters

/-- The rows that a session knows: those committed, and those it has inserted. -/
def rowsOf (db : Tables) (writes : List Write) : List Stub :=
  db.outbox.map stub ++ (inserted writes).map stub

/-- The row has its entry in the dead letters. -/
def Lettered (db : Tables) (queued : List Stub) (id : Nat) : Prop :=
  ∃ st ∈ queued, st.id = id ∧ ∃ e ∈ db.dlq, Key db.subscriptions e st

/-- What a call has written. -/
def CallWrite (db : Tables) (writes : List Write) : Write → Prop
  | .setRegistry _ | .insertAttempt _ => True
  | .insertOutbox row => row.status = .PENDING
  | .updateOutbox id u => u.status ≠ .PENDING ∧ (u.status = .FAILED → Lettered db (rowsOf db writes) id)
  | .upsertDlq e => ∃ row ∈ inserted writes, EntryFor db.subscriptions (stub row) e

/-- The subscriptions that a call has still to queue a row for: each another consumer, and none
that has a row about the event. -/
structure QueueOk (db : Tables) (fresh : Nat) (queued : List Stub) (drift : Drift)
    (todo : List Subscription) : Prop where
  event_lt : drift.event.eventId < fresh
  current : ∀ sub ∈ todo, Current db.subscriptions sub ∧ sub.active = true
  consumers : (todo.map Subscription.consumerId).Nodup
  apart : ∀ sub ∈ todo,
    (drift.event.eventId, some sub.consumerId) ∉ queued.map (letter db.subscriptions)

/-- What a call knows of the row that it delivers. -/
def DeliverOk (db : Tables) (writes : List Write) (st : Stub) : DeliverPc → Prop
  | .post attempt | .awaiting attempt | .failed attempt _ =>
    attempt = 1 ∧ ∃ row ∈ inserted writes, stub row = st
  | .dlq _ _ => ∃ row ∈ inserted writes, stub row = st
  | .commit ok => ok = false → st ∈ rowsOf db writes ∧
      ∃ e, .upsertDlq e ∈ writes ∧ Key db.subscriptions e st
  | .returned ok => ok = false → Lettered db (rowsOf db writes) st.id
  | .succeeded _ => True

def CallLocal (db : Tables) (fresh : Nat) (writes : List Write) : CallPc → Prop
  | .loop drift todo => QueueOk db fresh (rowsOf db writes) drift todo
  | .deliver drift outboxId sub todo p =>
    QueueOk db fresh (rowsOf db writes) drift todo ∧ Current db.subscriptions sub ∧
      DeliverOk db writes ⟨outboxId, sub.id, drift.event.eventId⟩ p
  | _ => True

structure CallerOk (db : Tables) (fresh : Nat) (w : Caller) : Prop where
  writes : ∀ x ∈ w.session.writes, CallWrite db w.session.writes x
  pc : CallLocal db fresh w.session.writes w.pc

/-- The subscriptions that a call holds, as it has read them. -/
def held : CallPc → List Subscription
  | .loop _ todo => todo
  | .deliver _ _ sub todo _ => sub :: todo
  | _ => []

/-- The subscriptions that a call is about to select for its event. -/
def selectedBy (subscriptions : List Subscription) : CallPc → List Subscription
  | .selectAffected new classification _ =>
    selectAffectedSubscriptions subscriptions new.endpointId new.version classification
  | _ => []

/-- What other processes leave to a call. -/
structure Keeps (db db' : Tables) (w : Caller) : Prop where
  rows : db'.outbox.map stub = db.outbox.map stub
  dlq : ∀ e ∈ db.dlq, ∃ e' ∈ db'.dlq, SameKey e' e
  letters : ∀ st ∈ rowsOf db w.session.writes, letter db'.subscriptions st = letter db.subscriptions st
  urls : ∀ row ∈ inserted w.session.writes, ∀ url, urlOf db.subscriptions row.subscriptionId = some url →
    urlOf db'.subscriptions row.subscriptionId = some url
  held : ∀ sub ∈ held w.pc, Current db.subscriptions sub → Current db'.subscriptions sub

section Call

variable {db db' : Tables} {fresh fresh' now clock : Nat} {locked : Nat → Bool} {session : Session}
  {writes : List Write} {w : Caller} {pc pc' : CallPc} {effect : Effect} {queued : List Stub}
  {inHand inHand' : Stub → Prop} {trace : List (Nat × String)} {st : Stub}

theorem rowsOf_concat (db : Tables) (writes : List Write) (x : Write) :
    rowsOf db (writes ++ [x]) = rowsOf db writes ++ (inserted [x]).map stub := by
  rw [rowsOf, rowsOf, inserted_concat, List.map_append, List.append_assoc]

theorem rowsOf_view (session : Session) (db : Tables) :
    rowsOf (session.view db) [] = rowsOf db session.writes :=
  (List.append_nil _).trans (view_map (fun _ _ => rfl) session db)

theorem mem_rowsOf_of_inserted {row : OutboxRow} (h : row ∈ inserted writes) :
    stub row ∈ rowsOf db writes :=
  List.mem_append_right _ (List.mem_map_of_mem h)

theorem mem_inserted_concat {row : OutboxRow} (h : row ∈ inserted writes) (x : Write) :
    row ∈ inserted (writes ++ [x]) := by
  rw [inserted_concat]
  exact List.mem_append_left _ h

theorem sublist_inserted {x : Write} (hnone : inserted [x] = []) :
    (inserted (writes ++ [x])).Sublist (inserted writes) := by
  rw [inserted_concat, hnone, List.append_nil]

theorem mem_rowsOf : st ∈ rowsOf db writes ↔
    (∃ row ∈ db.outbox, stub row = st) ∨ ∃ row ∈ inserted writes, stub row = st := by
  rw [rowsOf, List.mem_append, List.mem_map, List.mem_map]

theorem QueueOk.mono {drift : Drift} {todo todo' : List Subscription}
    (h : QueueOk db fresh queued drift todo) (hfresh : fresh ≤ fresh') (htodo : todo'.Sublist todo)
    {queued' : List Stub} (hqueued : queued'.map (letter db'.subscriptions) = queued.map (letter db.subscriptions))
    (hcurrent : ∀ sub ∈ todo', Current db.subscriptions sub → Current db'.subscriptions sub) :
    QueueOk db' fresh' queued' drift todo' where
  event_lt := h.event_lt.trans_le hfresh
  current sub hs := by
    obtain ⟨hc, hactive⟩ := h.current sub (htodo.subset hs)
    exact ⟨hcurrent sub hs hc, hactive⟩
  consumers := h.consumers.sublist (htodo.map _)
  apart sub hs := hqueued ▸ h.apart sub (htodo.subset hs)

theorem Lettered.mono {id : Nat} (h : Lettered db queued id)
    (hdlq : ∀ e ∈ db.dlq, ∃ e' ∈ db'.dlq, SameKey e' e)
    (hletters : ∀ st ∈ queued, letter db'.subscriptions st = letter db.subscriptions st)
    {queued' : List Stub} (hqueued : ∀ st ∈ queued, st ∈ queued') : Lettered db' queued' id := by
  obtain ⟨st, hst, hid, e, he, hkey⟩ := h
  obtain ⟨e', he', hsame⟩ := hdlq e he
  refine ⟨st, hqueued st hst, hid, e', he', ?_⟩
  rw [Key, hletters st hst]
  exact hkey.congr hsame

section Keep

variable (hk : Keeps db db' w)
include hk

theorem Keeps.rowsOf_eq : rowsOf db' w.session.writes = rowsOf db w.session.writes := by
  rw [rowsOf, rowsOf, hk.rows]

theorem Keeps.lettered {id : Nat} (h : Lettered db (rowsOf db w.session.writes) id) :
    Lettered db' (rowsOf db' w.session.writes) id :=
  h.mono hk.dlq hk.letters fun _ hst => hk.rowsOf_eq ▸ hst

theorem CallWrite.keep {x : Write} (h : CallWrite db w.session.writes x) :
    CallWrite db' w.session.writes x := by
  cases x with
  | setRegistry registry | insertAttempt attempt => trivial
  | insertOutbox row => exact h
  | updateOutbox id u => exact ⟨h.1, fun hstatus => hk.lettered (h.2 hstatus)⟩
  | upsertDlq e =>
    obtain ⟨row, hr, hkey, hurl⟩ := h
    refine ⟨row, hr, ?_, hk.urls row hr _ hurl⟩
    rw [Key, hk.letters _ (mem_rowsOf_of_inserted hr)]
    exact hkey

theorem DeliverOk.keep {p : DeliverPc} (h : DeliverOk db w.session.writes st p) :
    DeliverOk db' w.session.writes st p := by
  cases p with
  | post attempt | awaiting attempt | failed attempt reason | dlq attempt reason => exact h
  | succeeded attempt => trivial
  | commit ok =>
    intro hok
    obtain ⟨hst, e, he, hkey⟩ := h hok
    refine ⟨hk.rowsOf_eq ▸ hst, e, he, ?_⟩
    rw [Key, hk.letters st hst]
    exact hkey
  | returned ok => exact fun hok => hk.lettered (h hok)

theorem CallerOk.keep (h : CallerOk db fresh w) (hfresh : fresh ≤ fresh') :
    CallerOk db' fresh' w := by
  refine ⟨fun x hx => (h.writes x hx).keep hk, ?_⟩
  have hqueued : (rowsOf db' w.session.writes).map (letter db'.subscriptions) =
      (rowsOf db w.session.writes).map (letter db.subscriptions) := by
    rw [hk.rowsOf_eq]
    exact List.map_congr_left hk.letters
  have hl := h.pc
  have hheld := hk.held
  cases hpc : w.pc with
  | loop drift todo =>
    rw [hpc] at hl hheld
    exact QueueOk.mono hl hfresh (List.Sublist.refl _) hqueued hheld
  | deliver drift outboxId sub todo p =>
    rw [hpc] at hl hheld
    obtain ⟨hqueue, hcurrent, hdeliver⟩ := hl
    exact ⟨hqueue.mono hfresh (List.Sublist.refl _) hqueued
      fun sub' hs => hheld sub' (List.mem_cons_of_mem _ hs),
      hheld sub List.mem_cons_self hcurrent, hdeliver.keep hk⟩
  | idle | upsert call | classify new schema | selectAffected new cl diffs | count | commit => trivial

end Keep

/-- The writes so far stay what they were when another one comes. -/
theorem CallWrite.concat {x : Write} (h : CallWrite db writes x) (y : Write) :
    CallWrite db (writes ++ [y]) x := by
  cases x with
  | setRegistry registry | insertAttempt attempt => trivial
  | insertOutbox row => exact h
  | updateOutbox id u =>
    refine ⟨h.1, fun hstatus => (h.2 hstatus).mono (fun e he => ⟨e, he, rfl, rfl⟩) (fun _ _ => rfl) ?_⟩
    intro st hst
    rw [rowsOf_concat]
    exact List.mem_append_left _ hst
  | upsertDlq e =>
    obtain ⟨row, hr, hentry⟩ := h
    exact ⟨row, mem_inserted_concat hr y, hentry⟩

theorem callWrites_concat (h : ∀ x ∈ writes, CallWrite db writes x) {y : Write}
    (hy : CallWrite db (writes ++ [y]) y) : ∀ x ∈ writes ++ [y], CallWrite db (writes ++ [y]) x :=
  forall_mem_concat (fun x hx => (h x hx).concat y) hy

/-- A row that is pending after a call's commit was so before, or is one that it has queued. -/
theorem pending_commit (h : ∀ x ∈ session.writes, CallWrite db session.writes x) {row : OutboxRow}
    (hrow : row ∈ (session.view db).outbox) (hpending : row.status = .PENDING) :
    (∃ old ∈ db.outbox, old.id = row.id ∧ old.status = .PENDING) ∨
      ∃ new ∈ inserted session.writes, new.id = row.id := by
  obtain ⟨hold, -⟩ | ⟨u, hu, hstatus⟩ | ⟨new, hnew, hid, -⟩ := hasStatus_view ⟨row, hrow, rfl, hpending⟩
  · exact .inl hold
  · exact absurd hstatus (h _ hu).1
  · exact .inr ⟨new, hnew, hid⟩

/-- The rows that a call queues are new. -/
theorem insert_fresh {c : Config} {row : OutboxRow}
    (hstep : CallStep c db fresh now locked pc (.write (.insertOutbox row)) pc') :
    row.id = fresh := by
  cases hstep with
  | inline _ | queued _ => rfl
  | @deliver drift outboxId sub todo p p' effect hnext =>
    cases p with
    | succeeded attempt | failed attempt reason | dlq attempt reason | commit ok | post attempt
    | awaiting attempt | returned ok => cases hnext

theorem DeliverOk.answered {attempt : Nat} (h : DeliverOk db writes st (.awaiting attempt))
    (outcome : Outcome) :
    DeliverOk db writes st (DeliverPc.answered attempt outcome) := by
  rw [DeliverPc.answered]
  split
  · trivial
  · exact h

/-- A step that is no commit leaves the rows, the dead letters and the subscriptions alone. -/
theorem callerOk_run (hcommit : effect ≠ .commit)
    (h : CallerOk db fresh ⟨pc', (effect.run clock db session).2⟩) :
    CallerOk (effect.run clock db session).1 fresh ⟨pc', (effect.run clock db session).2⟩ := by
  obtain ⟨registry, hdb⟩ := @run_db session db clock effect hcommit
  refine h.keep ?_ le_rfl
  rw [hdb]
  exact ⟨rfl, fun e he => ⟨e, he, rfl, rfl⟩, fun _ _ => rfl, fun _ _ _ => id, fun _ _ => id⟩

/-- The selection: one subscription for each consumer, about a new event. -/
theorem queueOk_selected (hnodup : (db.subscriptions.map Subscription.id).Nodup)
    (hlt : ∀ st ∈ queued, st.eventId < fresh) {new : Registry.SchemaVersionRecord}
    {classification : Classifier.Compatibility} {diffs : List Classifier.DiffItem}
    (hone : ((selectedBy db.subscriptions (.selectAffected new classification diffs)).map
      Subscription.consumerId).Nodup) :
    QueueOk db (fresh + 1) queued (newDrift (session.view db) fresh new classification diffs)
      (newDrift (session.view db) fresh new classification diffs).affected := by
  have haffected : (newDrift (session.view db) fresh new classification diffs).affected =
      selectedBy db.subscriptions (.selectAffected new classification diffs) := by
    rw [newDrift, selectedBy, view_subscriptions]
  rw [haffected]
  refine ⟨Nat.lt_succ_self _, fun sub hs => ?_, hone, fun sub hs hmem => ?_⟩
  · obtain ⟨hmem, hsel⟩ := List.mem_filter.mp hs
    simp only [Bool.and_eq_true] at hsel
    exact ⟨current_of_mem hnodup hmem, hsel.1.1.2⟩
  · obtain ⟨st, hst, heq⟩ := List.mem_map.mp hmem
    have hevent : st.eventId = fresh := congrArg Prod.fst heq
    have := hlt st hst
    omega

/-- The row for the next subscription leaves the others without one. -/
theorem queueOk_insert {drift : Drift} {sub : Subscription} {todo : List Subscription}
    (h : QueueOk db fresh (rowsOf db writes) drift (sub :: todo)) :
    QueueOk db (fresh + 1) (rowsOf db (writes ++ [.insertOutbox (outboxRow drift fresh now sub)]))
      drift todo := by
  obtain ⟨hne, hnodup⟩ := List.nodup_cons.mp h.consumers
  refine ⟨h.event_lt.trans (Nat.lt_succ_self _), fun sub' hs => h.current sub' (List.mem_cons_of_mem _ hs),
    hnodup, fun sub' hs hmem => ?_⟩
  rw [rowsOf_concat, List.map_append] at hmem
  obtain hmem | hmem := List.mem_append.mp hmem
  · exact h.apart sub' (List.mem_cons_of_mem _ hs) hmem
  · have hletter := (Prod.mk.inj (List.mem_singleton.mp hmem)).2
    change some sub'.consumerId = consumerOf db.subscriptions sub.id at hletter
    rw [(h.current sub List.mem_cons_self).1.1] at hletter
    exact hne (List.mem_map.mpr ⟨sub', hs, Option.some.inj hletter⟩)

theorem rowsOf_write {x : Write} (hnone : inserted [x] = []) :
    rowsOf db (writes ++ [x]) = rowsOf db writes := by
  rw [rowsOf_concat, hnone, List.map_nil, List.append_nil]

/-- A statement that inserts no row. -/
theorem queueOk_write {drift : Drift} {todo : List Subscription} {x : Write}
    (hnone : inserted [x] = [])
    (h : QueueOk db fresh (rowsOf db writes) drift todo) :
    QueueOk db (fresh + 1) (rowsOf db (writes ++ [x])) drift todo := by
  rw [rowsOf_write hnone]
  exact h.mono (Nat.le_succ _) (List.Sublist.refl _) rfl fun _ _ => id

theorem callerOk_deliver {drift : Drift} {outboxId : Nat} {sub : Subscription}
    {todo : List Subscription}
    {p p' : DeliverPc} (h : CallerOk db fresh ⟨.deliver drift outboxId sub todo p, session⟩)
    (hnext : (Enqueue.delivery drift sub).next p = some (effect, p')) :
    CallerOk (effect.run clock db session).1 (fresh + 1)
      ⟨.deliver drift outboxId sub todo p', (effect.run clock db session).2⟩ := by
  obtain ⟨hqueue, hcurrent, hdeliver⟩ := h.pc
  cases p with
  | post attempt =>
    cases hnext
    have hqueue' := hqueue.mono (Nat.le_succ fresh) (List.Sublist.refl todo) rfl fun _ _ => id
    exact ⟨h.writes, hqueue', hcurrent, hdeliver⟩
  | awaiting attempt | returned ok => cases hnext
  | succeeded attempt =>
    cases hnext
    apply callerOk_run (fun heq => by cases heq)
    exact ⟨callWrites_concat h.writes trivial, queueOk_write rfl hqueue, hcurrent,
      fun hok => by cases hok⟩
  | failed attempt reason =>
    obtain ⟨rfl, row, hr, hstub⟩ := hdeliver
    cases hnext
    apply callerOk_run (fun heq => by cases heq)
    exact ⟨callWrites_concat h.writes trivial, queueOk_write rfl hqueue, hcurrent, row,
      mem_inserted_concat hr _, hstub⟩
  | dlq attempt reason =>
    obtain ⟨row, hr, hstub⟩ := hdeliver
    cases hnext
    have hentry : EntryFor db.subscriptions (stub row) ((Enqueue.delivery drift sub).dlqEntry reason attempt) := by
      rw [hstub]
      exact entryFor_dlqEntry rfl rfl hcurrent reason attempt
    apply callerOk_run (fun heq => by cases heq)
    refine ⟨callWrites_concat h.writes ⟨row, mem_inserted_concat hr _, hentry⟩,
      queueOk_write rfl hqueue, hcurrent,
      fun _ => ⟨?_, _, ?_, hstub ▸ hentry.1⟩⟩
    · exact hstub ▸ mem_rowsOf_of_inserted (mem_inserted_concat hr _)
    · exact List.mem_append_right _ (List.mem_singleton.mpr rfl)
  | commit ok =>
    cases hnext
    have hsubs := view_subscriptions session db
    refine ⟨List.forall_mem_nil _, ?_, ?_, fun hok => ?_⟩
    · change QueueOk (session.view db) (fresh + 1) (rowsOf (session.view db) []) drift todo
      rw [rowsOf_view]
      exact hqueue.mono (Nat.le_succ _) (List.Sublist.refl _) (by rw [hsubs]) fun _ _ hc => hsubs ▸ hc
    · exact hsubs ▸ hcurrent
    · obtain ⟨hst, e, he, hkey⟩ := hdeliver hok
      obtain ⟨e', he', hsame⟩ := view_dlq_keeps (.inr he)
      refine ⟨_, ?_, rfl, e', he', ?_⟩
      · change _ ∈ rowsOf (session.view db) []
        rw [rowsOf_view]
        exact hst
      · change Key (session.view db).subscriptions e' _
        rw [hsubs]
        exact hkey.congr hsame

theorem callerOk_step {c : Config} (hnodup : (db.subscriptions.map Subscription.id).Nodup)
    (hlt : ∀ st ∈ rowsOf db session.writes, st.eventId < fresh)
    (hone : ((selectedBy db.subscriptions pc).map Subscription.consumerId).Nodup)
    (h : CallerOk db fresh ⟨pc, session⟩)
    (hstep : CallStep c (session.view db) fresh now locked pc effect pc') :
    CallerOk (effect.run clock db session).1 (fresh + 1) ⟨pc', (effect.run clock db session).2⟩ := by
  cases hstep with
  | refused | unclassified =>
    exact ⟨List.forall_mem_nil _, trivial⟩
  | drift _ _ | noDrift _ _ | classified _ =>
    apply callerOk_run (fun heq => by cases heq)
    exact ⟨callWrites_concat h.writes trivial, trivial⟩
  | selected =>
    apply callerOk_run (fun heq => by cases heq)
    exact ⟨h.writes, queueOk_selected hnodup hlt hone⟩
  | done | count => exact ⟨h.writes, trivial⟩
  | @inline drift sub todo _ =>
    have hqueue : QueueOk db fresh (rowsOf db session.writes) drift (sub :: todo) := h.pc
    obtain ⟨hcurrent, hactive⟩ := hqueue.current sub List.mem_cons_self
    have hstart : (Enqueue.delivery drift sub).start = .post 1 := by
      rw [Delivery.start, Enqueue.delivery, hactive]
      rfl
    apply callerOk_run (fun heq => by cases heq)
    refine ⟨callWrites_concat h.writes rfl, queueOk_insert hqueue, hcurrent, ?_⟩
    rw [hstart]
    refine ⟨rfl, outboxRow drift fresh now sub, ?_, rfl⟩
    exact mem_inserted.mpr (List.mem_append_right _ (List.mem_singleton.mpr rfl))
  | queued _ =>
    apply callerOk_run (fun heq => by cases heq)
    exact ⟨callWrites_concat h.writes rfl, queueOk_insert h.pc⟩
  | deliver hnext => exact callerOk_deliver h hnext
  | @mark drift outboxId sub todo ok _ =>
    obtain ⟨hqueue, -, hdeliver⟩ := h.pc
    apply callerOk_run (fun heq => by cases heq)
    cases ok with
    | true =>
      exact ⟨callWrites_concat h.writes ⟨by decide, fun hstatus => by cases hstatus⟩,
        queueOk_write rfl hqueue⟩
    | false =>
      refine ⟨callWrites_concat h.writes ⟨by decide, fun _ => ?_⟩, queueOk_write rfl hqueue⟩
      rw [rowsOf_write rfl]
      exact hdeliver rfl
  | commit => exact ⟨List.forall_mem_nil _, trivial⟩

/-- A step that neither commits nor posts, and inserts no row. -/
theorem book_quiet (hb : Book db (rowsOf db session.writes) inHand trace fresh)
    (hhand : ∀ st ∈ rowsOf db session.writes, inHand' st → inHand st) (hcommit : effect ≠ .commit)
    (hinserted : (inserted (effect.run clock db session).2.writes).Sublist (inserted session.writes)) :
    Book (effect.run clock db session).1
      (rowsOf (effect.run clock db session).1 (effect.run clock db session).2.writes) inHand'
      (trace ++ []) (fresh + 1) := by
  obtain ⟨registry, hdb⟩ := @run_db session db clock effect hcommit
  have hrows : (rowsOf db (effect.run clock db session).2.writes).Sublist (rowsOf db session.writes) :=
    (hinserted.map stub).append_left _
  rw [hdb, List.append_nil]
  exact hb.keep hrows (fun row hr => mem_rowsOf.mpr (.inl ⟨row, hr, rfl⟩))
    (fun st hst => hhand st (hrows.subset hst)) (Nat.le_succ _)

theorem book_insert {drift : Drift} {sub : Subscription} {todo : List Subscription}
    (hb : Book db (rowsOf db session.writes) inHand trace fresh)
    (hqueue : QueueOk db fresh (rowsOf db session.writes) drift (sub :: todo))
    (hhand : ∀ st ∈ rowsOf db session.writes, inHand' st → inHand st) :
    Book db (rowsOf db (session.writes ++ [.insertOutbox (outboxRow drift fresh now sub)])) inHand'
      (trace ++ []) (fresh + 1) := by
  have hconsumer := (hqueue.current sub List.mem_cons_self).1.1
  have hletter : letter db.subscriptions (stub (outboxRow drift fresh now sub)) =
      (drift.event.eventId, some sub.consumerId) := congrArg (Prod.mk drift.event.eventId) hconsumer
  rw [rowsOf_concat, List.append_nil]
  apply hb.insert
  · rfl
  · exact hqueue.event_lt
  · exact Option.isSome_iff_exists.mpr ⟨_, hconsumer⟩
  · rw [hletter]
    exact hqueue.apart sub List.mem_cons_self
  · exact hhand

/-- The commit of a call: what has failed has its entry by then, or before. -/
theorem book_commitCall (hb : Book db (rowsOf db session.writes) inHand trace fresh)
    (h : ∀ x ∈ session.writes, CallWrite db session.writes x)
    (hin : ∀ row ∈ inserted session.writes, inHand (stub row))
    (hhand : ∀ st ∈ rowsOf db session.writes, inHand' st → inHand st) :
    Book (session.view db) (rowsOf (session.view db) []) inHand' (trace ++ []) (fresh + 1) := by
  rw [rowsOf_view, List.append_nil]
  have hcommitted : ∀ row ∈ (session.view db).outbox, stub row ∈ rowsOf db session.writes :=
    fun row hrow => mem_rowsOf.mpr (exists_stub_view.mp ⟨row, hrow, rfl⟩)
  refine Book.keep (hb.commit hcommitted (fun e he => ?_) (fun id u hu hstatus st hst hid => ?_)
    (fun row hr hstatus => ?_) hhand) (List.Sublist.refl _) hcommitted (fun _ _ => id) (Nat.le_succ _)
  · obtain ⟨row, hr, hkey, hurl⟩ := h _ he
    obtain ⟨row', hr', hstub⟩ := exists_stub_view.mpr (.inr ⟨row, hr, rfl⟩)
    have hsub : row'.subscriptionId = row.subscriptionId := congrArg Stub.subscriptionId hstub
    refine ⟨row', hr', ?_, ?_, ?_⟩
    · exact hstub ▸ hin row hr
    · exact hstub ▸ hkey
    · exact hsub ▸ hurl
  · obtain ⟨st', hst', hid', e, he, hkey⟩ := (h _ hu).2 hstatus
    obtain rfl : st = st' := hb.eq_of_id hst hst' (hid.trans hid'.symm)
    exact ⟨e, .inl he, hkey⟩
  · have hpending : row.status = .PENDING := h _ (mem_inserted.mp hr)
    rw [hpending] at hstatus
    cases hstatus

theorem book_deliver {drift : Drift} {outboxId : Nat} {sub : Subscription}
    {todo : List Subscription}
    {p p' : DeliverPc} (hb : Book db (rowsOf db session.writes) inHand trace fresh)
    (h : CallerOk db fresh ⟨.deliver drift outboxId sub todo p, session⟩)
    (hin : ∀ row ∈ inserted session.writes, inHand (stub row))
    (hhand : ∀ st ∈ rowsOf db session.writes, inHand' st → inHand st)
    (hnext : (Enqueue.delivery drift sub).next p = some (effect, p')) :
    Book (effect.run clock db session).1
      (rowsOf (effect.run clock db session).1 (effect.run clock db session).2.writes) inHand'
      (trace ++ postedByCall (.deliver drift outboxId sub todo p)) (fresh + 1) := by
  cases p with
  | post attempt =>
    obtain ⟨-, hcurrent, -, row, hr, hstub⟩ := h.pc
    cases hnext
    have hposted : postedByCall (.deliver drift outboxId sub todo (.post attempt)) =
        [((stub row).id, sub.targetUrl)] := by rw [hstub, postedByCall]
    have hurl : urlOf db.subscriptions (stub row).subscriptionId = some sub.targetUrl := by
      rw [hstub]
      exact hcurrent.2
    rw [hposted]
    exact Book.keep (hb.post (mem_rowsOf_of_inserted hr) (hin row hr) hurl) (List.Sublist.refl _)
      hb.committed hhand (Nat.le_succ _)
  | awaiting attempt | returned ok => cases hnext
  | succeeded attempt | failed attempt reason | dlq attempt reason =>
    cases hnext
    exact book_quiet hb hhand (fun heq => by cases heq) (sublist_inserted rfl)
  | commit ok =>
    cases hnext
    exact book_commitCall hb h.writes hin hhand

theorem book_call {c : Config} (hb : Book db (rowsOf db session.writes) inHand trace fresh)
    (h : CallerOk db fresh ⟨pc, session⟩) (hin : ∀ row ∈ inserted session.writes, inHand (stub row))
    (hhand : ∀ st ∈ rowsOf db session.writes, inHand' st → inHand st)
    (hstep : CallStep c (session.view db) fresh now locked pc effect pc') :
    Book (effect.run clock db session).1
      (rowsOf (effect.run clock db session).1 (effect.run clock db session).2.writes) inHand'
      (trace ++ postedByCall pc) (fresh + 1) := by
  cases hstep with
  | refused | unclassified => exact book_quiet hb hhand (fun heq => by cases heq) (List.nil_sublist _)
  | selected | done | count => exact book_quiet hb hhand (fun heq => by cases heq) (List.Sublist.refl _)
  | drift _ _ | noDrift _ _ | classified _ | mark _ =>
    exact book_quiet hb hhand (fun heq => by cases heq) (sublist_inserted rfl)
  | inline _ | queued _ => exact book_insert hb h.pc hhand
  | deliver hnext => exact book_deliver hb h hin hhand hnext
  | commit => exact book_commitCall hb h.writes hin hhand

end Call

end SchemaPilot.DeadLetterCall
