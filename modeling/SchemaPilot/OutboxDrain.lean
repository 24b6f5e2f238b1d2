import SchemaPilot.DeliverySteps
import SchemaPilot.Liveness
import SchemaPilot.OutboxLifecycle
import Mathlib.Algebra.GroupWithZero.Nat
import Mathlib.Algebra.Order.BigOperators.Group.List

namespace SchemaPilot.OutboxDrain

open Webhook OutboxWorker Enqueue Runs Liveness DeliverySystem DeliverySteps

variable {ι : Type} [Fintype ι] [DecidableEq ι] {c : Config} {s s' : State ι} {i : ι}

section Ids

/-- Every row of the outbox has an id of its own, and the workers add none. -/
structure OwnIds (s : State ι) : Prop where
  nodup : (s.db.outbox.map OutboxRow.id ++ (inserted s.caller.session.writes).map OutboxRow.id).Nodup
  drawn : ∀ id ∈ s.db.outbox.map OutboxRow.id ++ (inserted s.caller.session.writes).map OutboxRow.id, id < s.fresh
  worker : ∀ i, inserted (s.worker i).session.writes = []

omit [Fintype ι] [DecidableEq ι] in
theorem OwnIds.congr (h : OwnIds s)
    (houtbox : s'.db.outbox.map OutboxRow.id = s.db.outbox.map OutboxRow.id)
    (hcaller : inserted s'.caller.session.writes = inserted s.caller.session.writes)
    (hfresh : s.fresh ≤ s'.fresh) (hworker : ∀ i, inserted (s'.worker i).session.writes = []) :
    OwnIds s' := by
  refine ⟨?_, fun id hid => ?_, hworker⟩
  · rw [houtbox, hcaller]
    exact h.nodup
  · rw [houtbox, hcaller] at hid
    exact (h.drawn id hid).trans_le hfresh

omit [Fintype ι] [DecidableEq ι] in
/-- The rows of a transaction that is given up are gone. -/
theorem OwnIds.drop (h : OwnIds s) (houtbox : s'.db.outbox = s.db.outbox)
    (hcaller : inserted s'.caller.session.writes = []) (hfresh : s.fresh ≤ s'.fresh)
    (hworker : s'.worker = s.worker) : OwnIds s' := by
  refine ⟨?_, fun id hid => ?_, fun i => hworker ▸ h.worker i⟩
  · rw [houtbox, hcaller, List.map_nil, List.append_nil]
    exact (List.nodup_append.mp h.nodup).1
  · rw [houtbox, hcaller, List.map_nil, List.append_nil] at hid
    exact (h.drawn id (List.mem_append_left _ hid)).trans_le hfresh

omit [Fintype ι] in
theorem OwnIds.setWorker (h : OwnIds s) (i : ι) {w : Worker} (hw : inserted w.session.writes = []) :
    ∀ j, inserted (Function.update s.worker i w j).session.writes = [] := by
  intro j
  by_cases hj : j = i
  · subst hj
    rwa [Function.update_self]
  · rw [Function.update_of_ne hj]
    exact h.worker j

theorem inserted_run {session : Session} (clock : Nat) (db : Tables) {effect : Effect}
    (h : inserted session.writes = []) (hwrite : ∀ x, effect = .write x → inserted [x] = []) :
    inserted (effect.run clock db session).2.writes = [] := by
  cases effect with
  | write x =>
    simp only [Effect.run, inserted_concat, h, hwrite x rfl, List.append_nil]
  | read | selectForUpdate | send => exact h
  | commit | close => rfl

theorem worker_write {db : Tables} {now batchSize : Nat} {locked : Nat → Bool} {pc pc' : WorkerPc}
    {effect : Effect}
    (h : WorkerStep db now batchSize locked pc effect pc') (x : Write) (hx : effect = .write x) :
    inserted [x] = [] := by
  cases h with
  | deliver hnext =>
    subst hx
    have hquiet := DeliveryInvariant.deliver_write hnext
    cases x with
    | insertOutbox | updateOutbox | setRegistry => exact hquiet.elim
    | insertAttempt | upsertDlq => rfl
  | poll | done | claimed | missing | found | commitItem | count => cases hx
  | claim | failMissing | delivered | exhausted | retry | upsertDlq =>
    cases hx
    rfl

/-- A call inserts no row but one with the id it has drawn. -/
theorem caller_write {db : Tables} {fresh now : Nat} {locked : Nat → Bool} {pc pc' : CallPc}
    {effect : Effect}
    (h : CallStep c db fresh now locked pc effect pc') (x : Write) (hx : effect = .write x) :
    inserted [x] = [] ∨ (inserted [x]).map OutboxRow.id = [fresh] := by
  cases h with
  | deliver hnext =>
    subst hx
    have hquiet := DeliveryInvariant.deliver_write hnext
    cases x with
    | insertOutbox | updateOutbox | setRegistry => exact hquiet.elim
    | insertAttempt | upsertDlq => exact .inl rfl
  | refused | unclassified | selected | done | count | commit => cases hx
  | drift | noDrift | classified | mark =>
    cases hx
    exact .inl rfl
  | inline | queued =>
    cases hx
    exact .inr rfl

omit [DecidableEq ι] in
theorem OwnIds.callerStep (h : OwnIds s) {effect : Effect} {pc : CallPc}
    (hstep : CallStep c (s.caller.session.view s.db) s.fresh (s.caller.session.now s.clock) (lockedForCaller s)
      s.caller.pc effect pc) {log : List Event} {drifts : List Drift} :
    OwnIds { s with
      db := (effect.run s.clock s.db s.caller.session).1
      fresh := s.fresh + 1
      caller := ⟨pc, (effect.run s.clock s.db s.caller.session).2⟩
      log
      drifts } := by
  cases effect with
  | read | selectForUpdate | send => exact h.congr rfl rfl (Nat.le_succ _) h.worker
  | close => exact h.drop rfl rfl (Nat.le_succ _) rfl
  | commit =>
    have hview := view_ids s.caller.session s.db
    refine ⟨?_, fun id hid => ?_, h.worker⟩
    · simp only [Effect.run, hview, Session.closed, inserted, List.filterMap_nil, List.map_nil, List.append_nil]
      exact h.nodup
    · simp only [Effect.run, hview, Session.closed, inserted, List.filterMap_nil, List.map_nil,
        List.append_nil] at hid
      exact (h.drawn id hid).trans (Nat.lt_succ_self _)
  | write x =>
    have houtbox : (Effect.run s.clock s.db s.caller.session (.write x)).1.outbox = s.db.outbox :=
      run_outbox (by simp)
    obtain hnone | hone := caller_write hstep x rfl
    · refine h.congr ?_ ?_ (Nat.le_succ _) h.worker
      · exact congrArg _ houtbox
      · simp only [Effect.run, inserted_concat, hnone, List.append_nil]
    · have hids : (inserted (Effect.run s.clock s.db s.caller.session (.write x)).2.writes).map OutboxRow.id =
          (inserted s.caller.session.writes).map OutboxRow.id ++ [s.fresh] := by
        simp only [Effect.run, inserted_concat, List.map_append, hone]
      refine ⟨?_, fun id hid => ?_, h.worker⟩
      · dsimp only
        rw [houtbox, hids, ← List.append_assoc, List.nodup_append]
        refine ⟨h.nodup, List.nodup_singleton _, fun a ha b hb heq => ?_⟩
        obtain rfl := List.mem_singleton.mp hb
        exact absurd (h.drawn a ha) (heq ▸ Nat.lt_irrefl _)
      · dsimp only at hid
        rw [houtbox, hids, ← List.append_assoc] at hid
        obtain hold | hnew := List.mem_append.mp hid
        · exact (h.drawn id hold).trans (Nat.lt_succ_self _)
        · rw [List.mem_singleton.mp hnew]
          exact Nat.lt_succ_self _

theorem ownIds_reachable (h : Reachable (step c) always init s) : OwnIds s := by
  apply h.invariant (I := OwnIds)
  · exact ⟨List.nodup_nil, List.forall_mem_nil _, fun _ => rfl⟩
  · rintro s a s' hs - hstep
    cases step_cases hstep with
    | @worker i effect pc hnext =>
      have hrun := inserted_run s.clock s.db (hs.worker i) (worker_write hnext)
      refine hs.congr ?_ rfl le_rfl (hs.setWorker i hrun)
      by_cases hcommit : effect = .commit
      · subst hcommit
        have hview := view_ids (s.worker i).session s.db
        rw [hs.worker i, List.map_nil, List.append_nil] at hview
        exact hview
      · exact congrArg _ (run_outbox hcommit)
    | @workerResponse i => exact hs.congr rfl rfl le_rfl (hs.setWorker i (hs.worker i))
    | @workerFailure i => exact hs.congr rfl rfl le_rfl (hs.setWorker i rfl)
    | request => exact hs.drop rfl rfl le_rfl rfl
    | caller hnext => exact hs.callerStep hnext
    | callerResponse => exact hs.congr rfl rfl le_rfl hs.worker
    | callerFailure => exact hs.drop rfl rfl le_rfl rfl
    | putSubscription | tick => exact hs.congr rfl rfl le_rfl hs.worker

theorem nodup_ids (h : Reachable (step c) always init s) : (s.db.outbox.map OutboxRow.id).Nodup :=
  (List.nodup_append.mp (ownIds_reachable h).nodup).1

/-- A worker at its poll has no transaction open. -/
def AtRest (w : Worker) : Prop := w.pc = .poll → w.session.writes = []

omit [Fintype ι] in
theorem atRest_update {f : ι → Worker} (h : ∀ i, AtRest (f i)) (i : ι) {w : Worker}
    (hw : AtRest w) :
    ∀ j, AtRest (Function.update f i w j) := by
  intro j
  by_cases hj : j = i
  · subst hj
    rwa [Function.update_self]
  · rw [Function.update_of_ne hj]
    exact h j

theorem close_of_poll {db : Tables} {now batchSize : Nat} {locked : Nat → Bool} {pc : WorkerPc}
    {effect : Effect}
    (h : WorkerStep db now batchSize locked pc effect .poll) : effect = .close := by
  cases h with
  | count => rfl

theorem atRest_reachable (h : Reachable (step c) always init s) : ∀ i, AtRest (s.worker i) := by
  apply h.invariant (I := fun s => ∀ i, AtRest (s.worker i))
  · exact fun _ _ => rfl
  · rintro s a s' hs - hstep
    cases step_cases hstep with
    | @worker i effect pc hnext =>
      refine atRest_update hs i fun hpoll => ?_
      change pc = .poll at hpoll
      subst hpoll
      rw [close_of_poll hnext]
      rfl
    | workerResponse => exact atRest_update hs _ nofun
    | workerFailure => exact atRest_update hs _ fun _ => rfl
    | request | caller | callerResponse | callerFailure | putSubscription | tick => exact hs

end Ids

section Alone

/-- A worker on its own: time goes on, and then its POST is answered or it takes its next step. -/
def alone (c : Config) (i : ι) (s : State ι) (turn : Nat × Outcome) : Option (State ι) :=
  let s := { s with clock := s.clock + turn.1 + 1 }
  step c s (.workerResponse i turn.2) <|> step c s (.worker i)

/-- Where the worker stands, what it has written, and that no other process keeps a row locked. -/
structure Stands (i : ι) (db : Tables) (writes : List Write) (pc : WorkerPc) (s : State ι) : Prop where
  db : s.db = db
  pc : (s.worker i).pc = pc
  writes : (s.worker i).session.writes = writes
  free : lockedFor s i = fun _ => false

variable {db : Tables} {writes : List Write} {pc pc' : WorkerPc} {effect : Effect} {P : State ι → Prop}

theorem lockedFor_congr (hworker : ∀ j, j ≠ i → s'.worker j = s.worker j)
    (hcaller : s'.caller = s.caller) :
    lockedFor s' i = lockedFor s i := by
  funext id
  simp only [lockedFor, hcaller]
  congr 2
  apply propext
  apply exists_congr
  intro j
  apply and_congr_right
  intro hj
  rw [hworker j hj]

theorem respond_none {db : Tables} {now batchSize : Nat} {locked : Nat → Bool}
    (h : OutboxWorker.next db now batchSize locked pc = some (effect, pc')) (outcome : Outcome) :
    pc.respond outcome = none := by
  cases pc with
  | deliver item todo sub p =>
    cases p with
    | awaiting attempt => cases h
    | _ => rfl
  | _ => rfl

theorem stepWorker_of_next (h : nextWorker c s i = some (effect, pc)) :
    stepWorker c s i = some (afterWorker s i effect pc) := by
  rw [nextWorker] at h
  rw [stepWorker, h]
  rfl

omit [Fintype ι] in
/-- When a transaction began and what it has locked does not show in what it makes of the tables. -/
theorem run_session (clock clock' : Nat) (db : Tables) (session session' : Session)
    (effect : Effect)
    (h : session.writes = session'.writes) :
    (effect.run clock db session).1 = (effect.run clock' db session').1 ∧
      (effect.run clock db session).2.writes = (effect.run clock' db session').2.writes := by
  cases effect with
  | write w => exact ⟨rfl, congrArg (· ++ [w]) h⟩
  | commit => exact ⟨congrArg (List.foldl Write.apply db) h, rfl⟩
  | read | selectForUpdate | send => exact ⟨rfl, h⟩
  | close => exact ⟨rfl, rfl⟩

omit [Fintype ι] in
theorem Stands.later [Fintype ι] (h : Stands i db writes pc s) (clock : Nat) :
    Stands i db writes pc { s with clock } :=
  ⟨h.db, h.pc, h.writes, h.free⟩

theorem Stands.after (h : Stands i db writes pc s) (effect : Effect) (pc' : WorkerPc) :
    Stands i (effect.run 0 db ⟨none, writes, []⟩).1 (effect.run 0 db ⟨none, writes, []⟩).2.writes pc'
      (afterWorker s i effect pc') := by
  obtain ⟨hdb, hwrites⟩ := run_session s.clock 0 db (s.worker i).session ⟨none, writes, []⟩ effect h.writes
  have hself : (afterWorker s i effect pc').worker i =
      ⟨pc', (effect.run s.clock s.db (s.worker i).session).2⟩ := Function.update_self ..
  refine ⟨?_, ?_, ?_, ?_⟩
  · rw [← hdb, ← h.db]
    rfl
  · rw [hself]
  · rw [hself, ← hwrites, h.db]
  · rw [← h.free]
    exact lockedFor_congr (fun j hj => Function.update_of_ne hj _ _) rfl

/-- The step of the worker, at whatever time it comes. -/
theorem Stands.next_at (h : Stands i db writes pc s) {effect : Nat → Effect} {pc' : Nat → WorkerPc}
    (hnext : ∀ now, s.clock < now → OutboxWorker.next (writes.foldl Write.apply db) now c.batchSize
      (fun _ => false) pc = some (effect now, pc' now))
    (hthen : ∀ t, s.clock < t.clock →
      Stands i ((effect t.clock).run 0 db ⟨none, writes, []⟩).1
        ((effect t.clock).run 0 db ⟨none, writes, []⟩).2.writes (pc' t.clock) t → Inevitable
    (alone c i) P t) :
    Inevitable (alone c i) P s := by
  apply Inevitable.of_step
  rintro ⟨wait, outcome⟩
  have hlater : s.clock < s.clock + wait + 1 := by omega
  have hs := h.later (s.clock + wait + 1)
  have hnext := hnext _ hlater
  have hrespond : step c { s with clock := s.clock + wait + 1 } (.workerResponse i outcome) = none := by
    simp only [step, h.pc, respond_none hnext]
    cases pc.processing <;> rfl
  have hview : (s.worker i).session.view s.db = writes.foldl Write.apply db := by rw [Session.view, h.writes, h.db]
  have hworker : nextWorker c { s with clock := s.clock + wait + 1 } i =
      some (effect (s.clock + wait + 1), pc' (s.clock + wait + 1)) := by
    rw [nextWorker, hs.free, hs.pc, ← hnext, ← hview]
  refine ⟨afterWorker { s with clock := s.clock + wait + 1 } i (effect (s.clock + wait + 1))
    (pc' (s.clock + wait + 1)), ?_, hthen _ ?_ ?_⟩
  · rw [alone, hrespond]
    exact stepWorker_of_next hworker
  · exact hlater
  · exact hs.after _ _

theorem Stands.next (h : Stands i db writes pc s)
    (hnext : ∀ now, OutboxWorker.next (writes.foldl Write.apply db) now c.batchSize (fun _ => false) pc =
      some (effect, pc'))
    (hthen : ∀ t, Stands i (effect.run 0 db ⟨none, writes, []⟩).1 (effect.run 0 db ⟨none, writes, []⟩).2.writes pc' t →
      Inevitable (alone c i) P t) : Inevitable (alone c i) P s :=
  h.next_at (fun now _ => hnext now) fun t _ => hthen t

/-- The answer to the POST. -/
theorem Stands.respond {item : OutboxRow} {todo : List OutboxRow} {sub : Subscription}
    {attempt : Nat}
    (h : Stands i db writes (.deliver item todo sub (.awaiting attempt)) s)
    (hthen : ∀ outcome t, Stands i db writes (.deliver item todo sub (DeliverPc.answered attempt outcome)) t →
      Inevitable (alone c i) P t) : Inevitable (alone c i) P s := by
  apply Inevitable.of_step
  rintro ⟨wait, outcome⟩
  have hs := h.later (s.clock + wait + 1)
  refine ⟨_, ?_, hthen outcome { s.setWorker i ⟨.deliver item todo sub (DeliverPc.answered attempt outcome),
      (s.worker i).session⟩ with
    clock := s.clock + wait + 1
    log := s.log ++ [.returned item.id outcome] } ?_⟩
  · rw [alone]
    simp only [step, h.pc]
    rfl
  · have hself : Function.update s.worker i ⟨.deliver item todo sub (DeliverPc.answered attempt outcome),
        (s.worker i).session⟩ i = _ := Function.update_self ..
    refine ⟨h.db, ?_, ?_, ?_⟩
    · exact congrArg Worker.pc hself
    · exact (congrArg (fun w => w.session.writes) hself).trans h.writes
    · rw [← h.free]
      exact lockedFor_congr (fun j hj => Function.update_of_ne hj _ _) rfl

end Alone

section Item

def touched (item : OutboxRow) (u : OutboxUpdate) (outbox : List OutboxRow) : List OutboxRow :=
  outbox.map (fun row => if row.id = item.id then u.apply row else row)

/-- How the processing of a row may end: it is over, or one attempt more has been made. -/
def Ends (item : OutboxRow) (u : OutboxUpdate) : Prop :=
  u.status = .DELIVERED ∨ u.status = .FAILED ∨
    u.status = .PENDING ∧ u.attempts = (fun _ => item.attempts + 1) ∧ item.attempts + 1 < item.maxAttempts

/-- The outbox before and after the processing of a row. -/
def Settled (item : OutboxRow) (db db' : Tables) : Prop :=
  ∃ u, Ends item u ∧ db'.outbox = touched item u (touched item { status := .DELIVERING } db.outbox)

variable {db db' : Tables} {item : OutboxRow} {todo : List OutboxRow} {sub : Subscription} {P : State ι → Prop}

theorem commit_item {writes : List Write} (h : Stands i db writes (.commitItem item todo) s)
    (hthen : ∀ t, Stands i (writes.foldl Write.apply db) [] (.loop todo) t → Inevitable (alone c i) P t) :
    Inevitable (alone c i) P s :=
  h.next (fun _ => rfl) hthen

theorem ends_of_returned {ok : Bool} (h : Stands i db' [] (.deliver item todo sub (.returned ok)) s)
    (houtbox : db'.outbox = touched item { status := .DELIVERING } db.outbox)
    (hthen : ∀ db' t, Settled item db db' → Stands i db' [] (.loop todo) t → Inevitable (alone c i) P t) :
    Inevitable (alone c i) P s := by
  cases ok with
  | true =>
    refine h.next (fun _ => rfl) fun t₁ h₁ => commit_item h₁ fun t₂ => hthen _ t₂ ?_
    exact ⟨_, .inl rfl, congrArg (touched item _) houtbox⟩
  | false =>
    by_cases hmax : item.maxAttempts ≤ item.attempts + 1
    · have hnext : ∀ now, OutboxWorker.next db' now c.batchSize (fun _ => false)
          (.deliver item todo sub (.returned false)) =
            some (.write (.updateOutbox item.id { status := .FAILED, attempts := fun _ => item.attempts + 1 }),
              .upsertDlq item todo sub) := by
        intro now
        rw [OutboxWorker.next, finish_exhausted hmax]
        rfl
      refine h.next hnext fun t₁ h₁ => h₁.next (fun _ => rfl) fun t₂ h₂ => commit_item h₂ fun t₃ => hthen _ t₃ ?_
      exact ⟨_, .inr (.inl rfl), congrArg (touched item _) houtbox⟩
    · have hless : item.attempts + 1 < item.maxAttempts := Nat.lt_of_not_le hmax
      have hnext : ∀ now, s.clock < now → OutboxWorker.next db' now c.batchSize (fun _ => false)
          (.deliver item todo sub (.returned false)) =
            some (.write (.updateOutbox item.id
              { status := .PENDING, attempts := fun _ => item.attempts + 1,
                nextRetryAt := some (now + backoffSeconds (item.attempts + 1)) }), .commitItem item todo) := by
        intro now _
        rw [OutboxWorker.next, finish_retry hless]
        rfl
      refine h.next_at hnext fun t₁ _ h₁ => commit_item h₁ fun t₂ => hthen _ t₂ ?_
      exact ⟨_, .inr (.inr ⟨rfl, rfl, hless⟩), congrArg (touched item _) houtbox⟩

theorem returned_of_delivery (h : Stands i db [] (.deliver item todo sub (delivery item sub).start) s)
    (hthen : ∀ ok db' t, Stands i db' [] (.deliver item todo sub (.returned ok)) t → db'.outbox = db.outbox →
      Inevitable (alone c i) P t) : Inevitable (alone c i) P s := by
  by_cases hactive : sub.active = true
  · have hstart : (delivery item sub).start = .post 1 := by
      rw [Delivery.start, if_pos]
      exact Bool.and_eq_true_iff.mpr ⟨hactive, rfl⟩
    rw [hstart] at h
    refine h.next (fun _ => rfl) fun t₁ h₁ => h₁.respond fun outcome t₂ h₂ => ?_
    rw [DeliverPc.answered] at h₂
    split at h₂
    · refine h₂.next (fun _ => rfl) fun t₃ h₃ => h₃.next (fun _ => rfl) fun t₄ h₄ => hthen true _ t₄ h₄ rfl
    · refine h₂.next (fun _ => rfl) fun t₃ h₃ => h₃.next (fun _ => rfl) fun t₄ h₄ => hthen false _ t₄ h₄ rfl
  · have hstart : (delivery item sub).start = .returned false := by
      rw [Delivery.start, if_neg]
      intro hand
      exact hactive (Bool.and_eq_true_iff.mp hand).1
    rw [hstart] at h
    exact hthen false db s h rfl

omit [Fintype ι] [DecidableEq ι] in
theorem next_missing {now batchSize : Nat} {locked : Nat → Bool}
    (h : db.subscriptions.find? (fun s => s.id = item.subscriptionId) = none) :
    OutboxWorker.next db now batchSize locked (.selectSubscription item todo) =
      some (.read, .failMissing item todo) := by
  rw [OutboxWorker.next, h]

omit [Fintype ι] [DecidableEq ι] in
theorem next_found {now batchSize : Nat} {locked : Nat → Bool}
    (h : db.subscriptions.find? (fun s => s.id = item.subscriptionId) = some sub) :
    OutboxWorker.next db now batchSize locked (.selectSubscription item todo) =
      some (.read, .deliver item todo sub (delivery item sub).start) := by
  rw [OutboxWorker.next, h]

/-- The worker comes to the end of a row, whatever becomes of it. -/
theorem settles (h : Stands i db [] (.loop (item :: todo)) s)
    (hthen : ∀ db' t, Settled item db db' → Stands i db' [] (.loop todo) t → Inevitable (alone c i) P t) :
    Inevitable (alone c i) P s := by
  refine h.next (fun _ => rfl) fun t₁ h₁ => h₁.next (fun _ => rfl) fun t₂ h₂ => ?_
  cases hfind : db.subscriptions.find? (fun s => s.id = item.subscriptionId) with
  | none =>
    refine h₂.next (fun _ => next_missing hfind) fun t₃ h₃ => h₃.next (fun _ => rfl) fun t₄ h₄ => ?_
    exact commit_item h₄ fun t₅ h₅ => hthen _ t₅ ⟨_, .inr (.inl rfl), rfl⟩ h₅
  | some sub =>
    refine h₂.next (fun _ => next_found hfind) fun t₃ h₃ => returned_of_delivery h₃ fun ok db' t₄ h₄ houtbox => ?_
    exact ends_of_returned h₄ houtbox hthen

end Item

section Load

variable {db db' : Tables} {item new row : OutboxRow} {outbox outbox' : List OutboxRow}

/-- What time may bring to a row: one that waits is done with, or waits again. -/
structure Onward (row row' : OutboxRow) : Prop where
  id : row'.id = row.id
  kept : row.status ≠ .PENDING → row' = row
  status : row.status = .PENDING → row'.status ≠ .DELIVERING

theorem Onward.refl (row : OutboxRow) : Onward row row :=
  ⟨rfl, fun _ => rfl, fun h => by rw [h]; exact nofun⟩

theorem Onward.trans {row row' row'' : OutboxRow} (h : Onward row row') (h' : Onward row' row'') :
    Onward row row'' := by
  refine ⟨h'.id.trans h.id, fun hs => ?_, fun hs => ?_⟩
  · obtain rfl := h.kept hs
    exact h'.kept hs
  · by_cases hs' : row'.status = .PENDING
    · exact h'.status hs'
    · rw [h'.kept hs']
      exact h.status hs

def AllOnward (outbox outbox' : List OutboxRow) : Prop := List.Forall₂ Onward outbox outbox'

theorem AllOnward.refl (outbox : List OutboxRow) : AllOnward outbox outbox :=
  List.forall₂_same.mpr fun row _ => Onward.refl row

theorem AllOnward.trans {outbox'' : List OutboxRow} (h : AllOnward outbox outbox')
    (h' : AllOnward outbox' outbox'') :
    AllOnward outbox outbox'' := by
  induction h generalizing outbox'' with
  | nil => exact h'
  | cons hrow _ ih =>
    cases h' with
    | cons hrow' hrest => exact .cons (hrow.trans hrow') (ih hrest)

theorem AllOnward.ids (h : AllOnward outbox outbox') :
    outbox'.map OutboxRow.id = outbox.map OutboxRow.id := by
  induction h with
  | nil => rfl
  | cons hrow _ ih => rw [List.map_cons, List.map_cons, hrow.id, ih]

/-- How many attempts are left to a row, and the end of the last one. -/
def weight (row : OutboxRow) :
    Nat := if row.status = .PENDING then row.maxAttempts - row.attempts + 1 else 0

def load (outbox : List OutboxRow) : Nat := (outbox.map weight).sum

/-- How long the rows have to wait. -/
def delay (clock : Nat) (row : OutboxRow) :
    Nat := if row.status = .PENDING then row.nextRetryAt - clock else 0

def wait (clock : Nat) (outbox : List OutboxRow) : Nat := (outbox.map (delay clock)).sum

def replaced (item new : OutboxRow) (outbox : List OutboxRow) : List OutboxRow :=
  outbox.map (fun row => if row.id = item.id then new else row)

/-- A row that is processed is replaced by one with less before it. -/
theorem Settled.replaced (h : Settled item db db') (hn : (db.outbox.map OutboxRow.id).Nodup)
    (hm : item ∈ db.outbox) (hstatus : item.status = .PENDING) :
    ∃ new, Onward item new ∧ weight new < weight item ∧ db'.outbox = replaced item new db.outbox := by
  obtain ⟨u, hends, houtbox⟩ := h
  refine ⟨u.apply (OutboxLifecycle.claimed item), ⟨rfl, fun hne => absurd hstatus hne, fun _ => ?_⟩, ?_, ?_⟩
  · change u.status ≠ .DELIVERING
    obtain hu | hu | ⟨hu, -⟩ := hends <;> rw [hu] <;> exact nofun
  · have hitem : weight item = item.maxAttempts - item.attempts + 1 := if_pos hstatus
    have hnew : weight (u.apply (OutboxLifecycle.claimed item)) =
        if u.status = .PENDING then item.maxAttempts - u.attempts item.attempts + 1 else 0 := rfl
    rw [hitem, hnew]
    obtain hu | hu | ⟨hu, hattempts, hmax⟩ := hends
    · rw [if_neg (by rw [hu]; exact nofun)]
      exact Nat.succ_pos _
    · rw [if_neg (by rw [hu]; exact nofun)]
      exact Nat.succ_pos _
    · rw [if_pos hu, hattempts]
      dsimp only
      omega
  · rw [houtbox, touched, touched, OutboxDrain.replaced, List.map_map]
    apply List.map_congr_left
    intro row hr
    rw [Function.comp_apply]
    by_cases hid : row.id = item.id
    · obtain rfl := List.inj_on_of_nodup_map hn hr hm hid
      rw [if_pos rfl, if_pos rfl]
      exact if_pos rfl
    · rw [if_neg hid, if_neg hid, if_neg hid]

theorem replaced_onward (hn : (outbox.map OutboxRow.id).Nodup) (hm : item ∈ outbox)
    (hnew : Onward item new) :
    AllOnward outbox (replaced item new outbox) := by
  rw [AllOnward, replaced, List.forall₂_map_right_iff, List.forall₂_same]
  intro row hr
  by_cases hid : row.id = item.id
  · obtain rfl := List.inj_on_of_nodup_map hn hr hm hid
    rw [if_pos rfl]
    exact hnew
  · rw [if_neg hid]
    exact Onward.refl row

theorem load_replaced (hn : (outbox.map OutboxRow.id).Nodup) (hm : item ∈ outbox)
    (hless : weight new < weight item) :
    load (replaced item new outbox) < load outbox := by
  rw [load, replaced, List.map_map]
  apply List.sum_lt_sum
  · intro row hr
    rw [Function.comp_apply]
    by_cases hid : row.id = item.id
    · obtain rfl := List.inj_on_of_nodup_map hn hr hm hid
      rw [if_pos rfl]
      exact hless.le
    · rw [if_neg hid]
  · refine ⟨item, hm, ?_⟩
    rw [Function.comp_apply, if_pos rfl]
    exact hless

theorem mem_replaced (hm : row ∈ outbox) (hid : row.id ≠ item.id) :
    row ∈ replaced item new outbox :=
  List.mem_map.mpr ⟨row, hm, if_neg hid⟩

/-- While no row is due, waiting brings every row nearer. -/
theorem wait_lt {clock clock' : Nat} (hlater : clock < clock')
    (hfuture : ∀ row ∈ outbox, row.status = .PENDING → clock < row.nextRetryAt)
    (hsome : ∃ row ∈ outbox, row.status = .PENDING) : wait clock' outbox < wait clock outbox := by
  have hterm : ∀ row ∈ outbox, row.status = .PENDING → delay clock' row < delay clock row := by
    intro row hr hs
    have hnext := hfuture row hr hs
    rw [delay, delay, if_pos hs, if_pos hs]
    omega
  apply List.sum_lt_sum
  · intro row hr
    by_cases hs : row.status = .PENDING
    · exact (hterm row hr hs).le
    · rw [delay, delay, if_neg hs, if_neg hs]
  · obtain ⟨row, hr, hs⟩ := hsome
    exact ⟨row, hr, hterm row hr hs⟩

theorem selectDue_eq_nil {now batchSize : Nat} (hbatch : 0 < batchSize)
    (h : selectDue outbox now batchSize (fun _ => false) = []) :
    ∀ row ∈ outbox, row.status = .PENDING → now < row.nextRetryAt := by
  intro row hr hs
  rw [selectDue, List.take_eq_nil_iff] at h
  obtain hzero | hnil := h
  · omega
  · have hmem := (List.perm_insertionSort (fun a b : OutboxRow => a.createdAt ≤ b.createdAt)
      (outbox.filter (isDue now fun _ => false))).mem_iff (a := row)
    rw [hnil] at hmem
    by_contra hdue
    refine absurd (hmem.mpr (List.mem_filter.mpr ⟨hr, ?_⟩)) List.not_mem_nil
    simp only [isDue, hs, decide_true, Bool.true_and, Bool.not_false, Bool.and_true, decide_eq_true_eq]
    omega

end Load

section Drain

variable {db : Tables} {P : State ι → Prop}

/-- The worker comes to the end of its batch, and to the next poll. -/
theorem batch_settles {todo : List OutboxRow} (h : Stands i db [] (.loop todo) s)
    (hn : (db.outbox.map OutboxRow.id).Nodup) (hbatch : (todo.map OutboxRow.id).Nodup)
    (hmem : ∀ item ∈ todo, item ∈ db.outbox ∧ item.status = .PENDING)
    (hthen : ∀ db' t, AllOnward db.outbox db'.outbox → load db'.outbox + todo.length ≤ load db.outbox →
      Stands i db' [] .poll t → Inevitable (alone c i) P t) : Inevitable (alone c i) P s := by
  induction todo generalizing db s with
  | nil =>
    refine h.next (fun _ => rfl) fun t₁ h₁ => h₁.next (fun _ => rfl) fun t₂ => ?_
    exact hthen db t₂ (AllOnward.refl _) le_rfl
  | cons item todo ih =>
    refine settles h fun db₁ t₁ hsettled h₁ => ?_
    obtain ⟨hm, hstatus⟩ := hmem item List.mem_cons_self
    obtain ⟨new, hnew, hless, houtbox⟩ := hsettled.replaced hn hm hstatus
    have honward : AllOnward db.outbox db₁.outbox := houtbox ▸ replaced_onward hn hm hnew
    have hload : load db₁.outbox < load db.outbox := houtbox ▸ load_replaced hn hm hless
    have hids := List.nodup_cons.mp hbatch
    refine ih h₁ (honward.ids ▸ hn) hids.2 (fun item' hitem' => ?_) fun db₂ t₂ honward' hload' => ?_
    · obtain ⟨hm', hstatus'⟩ := hmem item' (List.mem_cons_of_mem _ hitem')
      refine ⟨houtbox ▸ mem_replaced hm' fun heq => hids.1 ?_, hstatus'⟩
      exact heq ▸ List.mem_map_of_mem hitem'
    · apply hthen db₂ t₂ (honward.trans honward')
      rw [List.length_cons]
      omega

/-- A poll that finds no row. -/
theorem empty_batch (h : Stands i db [] (.loop []) s)
    (hthen : ∀ t, s.clock < t.clock → Stands i db [] .poll t → Inevitable (alone c i) P t) :
    Inevitable (alone c i) P s :=
  h.next_at (fun _ _ => rfl) fun _ hc₁ h₁ => h₁.next_at (fun _ _ => rfl) fun t₂ hc₂ => hthen t₂ (hc₁.trans hc₂)

/-- A poll brings the rows that wait nearer to their end. -/
theorem poll_round (hsize : 0 < c.batchSize) (h : Stands i db [] .poll s)
    (hn : (db.outbox.map OutboxRow.id).Nodup)
    (hsome : ∃ row ∈ db.outbox, row.status = .PENDING)
    (hthen : ∀ db' t, AllOnward db.outbox db'.outbox →
      Prod.Lex (· < ·) (· < ·) (load db'.outbox, wait t.clock db'.outbox)
    (load db.outbox, wait s.clock db.outbox) →
      Stands i db' [] .poll t → Inevitable (alone c i) P t) : Inevitable (alone c i) P s := by
  refine h.next_at (fun _ _ => rfl) fun t₁ hc₁ h₁ => ?_
  cases hdue : selectDue db.outbox t₁.clock c.batchSize (fun _ => false) with
  | nil =>
    have hfuture := selectDue_eq_nil hsize hdue
    have h₁ : Stands i db [] (.loop []) t₁ := hdue ▸ h₁
    refine empty_batch h₁ fun t₂ hc₂ => hthen db t₂ (AllOnward.refl _) (.right _ ?_)
    exact wait_lt (hc₁.trans hc₂) (fun row hr hs => hc₁.trans (hfuture row hr hs)) hsome
  | cons item todo =>
    have hrows : ∀ row ∈ selectDue db.outbox t₁.clock c.batchSize (fun _ => false),
        row ∈ db.outbox ∧ row.status = .PENDING := fun row hr => ⟨(mem_selectDue hr).1, (mem_selectDue hr).2.1⟩
    refine batch_settles h₁ hn (nodup_selectDue hn) hrows fun db' t honward hload => hthen db' t honward (.left _ _ ?_)
    have hpos : 0 < (selectDue db.outbox t₁.clock c.batchSize (fun _ => false)).length := by
      rw [hdue]
      exact Nat.succ_pos _
    exact Nat.lt_of_lt_of_le (Nat.lt_add_of_pos_right hpos) hload

/-- The end of a row that was waiting; another row stays as it is. -/
def Drained (row row' : OutboxRow) : Prop :=
  if row.status = .PENDING then row'.id = row.id ∧ (row'.status = .DELIVERED ∨ row'.status = .FAILED)
  else row' = row

theorem Onward.drained {row row' : OutboxRow} (h : Onward row row')
    (hdone : row'.status ≠ .PENDING) :
    Drained row row' := by
  rw [Drained]
  split
  · next hs =>
    refine ⟨h.id, ?_⟩
    have hstatus := h.status hs
    cases hs' : row'.status with
    | PENDING => exact absurd hs' hdone
    | DELIVERING => exact absurd hs' hstatus
    | FAILED => exact .inr rfl
    | DELIVERED => exact .inl rfl
  · next hs => exact h.kept hs

theorem AllOnward.drained {outbox outbox' : List OutboxRow} (h : AllOnward outbox outbox')
    (hdone : ¬∃ row ∈ outbox', row.status = .PENDING) : List.Forall₂ Drained outbox outbox' := by
  induction h with
  | nil => exact .nil
  | cons hrow _ ih =>
    refine .cons (hrow.drained fun hs => hdone ⟨_, List.mem_cons_self, hs⟩) (ih ?_)
    rintro ⟨row, hr, hs⟩
    exact hdone ⟨row, List.mem_cons_of_mem _ hr, hs⟩

/-- A worker that is left alone brings every waiting row to its end, from any state, whatever the
consumers answer and however long things take. -/
theorem outbox_drains (c : Config) (hsize : 0 < c.batchSize) (s : State ι)
    (h : Reachable (step c) always init s)
    (i : ι) (hidle : (s.worker i).pc = .poll) (hfree : ∀ id, lockedFor s i id = false)
    (turns : Nat → Nat × Outcome) :
    ∃ n t, run (alone c i) always s ((List.range n).map turns) = some t ∧ (t.worker i).pc = .poll ∧
      List.Forall₂ Drained s.db.outbox t.db.outbox := by
  have hstart : Stands i s.db [] .poll s := ⟨rfl, hidle, atRest_reachable h i hidle, funext hfree⟩
  apply Inevitable.exists_run
  apply Inevitable.of_wf (WellFounded.prod_lex Nat.lt_wfRel.wf Nat.lt_wfRel.wf)
    (fun t => (load t.db.outbox, wait t.clock t.db.outbox))
    (I := fun t => Stands i t.db [] .poll t ∧ AllOnward s.db.outbox t.db.outbox)
  · rintro t ⟨hstands, honward⟩
    by_cases hsome : ∃ row ∈ t.db.outbox, row.status = .PENDING
    · refine poll_round hsize hstands (honward.ids ▸ nodup_ids h) hsome fun db' u honward' hless hu => .here (.inr ?_)
      obtain rfl := hu.db
      exact ⟨⟨hu, honward.trans honward'⟩, hless⟩
    · exact .here (.inl ⟨hstands.pc, honward.drained hsome⟩)
  · exact ⟨hstart, AllOnward.refl _⟩

/-- A row is queued, and the consumer answers every POST with 500. -/
theorem outbox_drains_refused :
    ∃ s : State Unit, s.db.outbox.map OutboxRow.status = [.PENDING] ∧ ∃ n t,
      run (alone (sampleConfig 50 false) ()) always s ((List.range n).map fun _ => (0, .response 500)) = some t ∧
        t.db.outbox.map OutboxRow.status ∈ [[Status.DELIVERED], [Status.FAILED]] := by
  have hrun : (run (step (sampleConfig 50 false)) always (init : State Unit)
      (driftWith [7] ++ List.replicate 7 .caller)).map (fun s => (s.db.outbox.map OutboxRow.status,
        decide ((s.worker ()).pc = .poll), s.caller.session.locks)) = some ([.PENDING], true, []) := by decide +kernel
  obtain ⟨s, hs, hrest⟩ := Option.map_eq_some_iff.mp hrun
  simp only [Prod.mk.injEq, decide_eq_true_eq] at hrest
  obtain ⟨hpending, hidle, hlocks⟩ := hrest
  have hfree : ∀ id, lockedFor s () id = false := by
    intro id
    simp [lockedFor, hlocks]
  obtain ⟨n, t, ht, -, hdrained⟩ := outbox_drains (sampleConfig 50 false) (by decide) s
    (reachable_run _ _ .start hs) () hidle hfree fun _ => (0, .response 500)
  refine ⟨s, hpending, n, t, ht, ?_⟩
  obtain ⟨row, houtbox, hstatus⟩ := List.map_eq_singleton_iff.mp hpending
  rw [houtbox, List.forall₂_cons_left_iff] at hdrained
  obtain ⟨row', rest, hrow, hrest, houtbox'⟩ := hdrained
  rw [List.forall₂_nil_left_iff] at hrest
  rw [Drained, if_pos hstatus] at hrow
  rw [houtbox', hrest, List.map_singleton]
  obtain ⟨-, hend | hend⟩ := hrow <;> rw [hend] <;> decide

end Drain

end SchemaPilot.OutboxDrain
