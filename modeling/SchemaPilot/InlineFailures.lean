import SchemaPilot.DeadLetters

namespace SchemaPilot.InlineFailures

open Webhook OutboxWorker Enqueue Runs DeliverySystem OutboxRows

/-- The row that a call marks as failed, when its own delivery of it has failed. -/
def failedInline : CallPc → List Nat
  | .deliver _ outboxId _ _ (.returned false) => [outboxId]
  | _ => []

/-- A subscription with the id exists. -/
def Subscribed (subscriptions : List Subscription) (id : Nat) :
    Prop := (consumerOf subscriptions id).isSome

/-- A failed row has used up its attempts, or its inline delivery, one attempt, has failed. -/
def Spent (trace : List Nat) (row : OutboxRow) : Prop :=
  row.status = .FAILED → 1 ≤ row.attempts ∧ (row.maxAttempts ≤ row.attempts ∨ row.id ∈ trace)

structure RowOk (subscriptions : List Subscription) (trace : List Nat) (row : OutboxRow) : Prop where
  spent : Spent trace row
  max : row.maxAttempts = 5
  subscribed : Subscribed subscriptions row.subscriptionId

def WriteOk (subscriptions : List Subscription) (trace : List Nat) : Write → Prop
  | .insertOutbox row => RowOk subscriptions trace row
  | .updateOutbox id u => u.status = .FAILED → ∀ n, 1 ≤ u.attempts n ∧ (5 ≤ u.attempts n ∨ id ∈ trace)
  | .setRegistry _ | .insertAttempt _ | .upsertDlq _ => True

section Writes

variable {subscriptions subscriptions' : List Subscription} {trace trace' : List Nat} {row : OutboxRow}

theorem RowOk.mono (h : RowOk subscriptions trace row)
    (hsubs : ∀ id, Subscribed subscriptions id → Subscribed subscriptions' id)
    (htrace : trace ⊆ trace') :
    RowOk subscriptions' trace' row :=
  ⟨fun hf => ⟨(h.spent hf).1, (h.spent hf).2.imp_right (@htrace _)⟩, h.max, hsubs _ h.subscribed⟩

theorem WriteOk.mono {w : Write} (h : WriteOk subscriptions trace w)
    (hsubs : ∀ id, Subscribed subscriptions id → Subscribed subscriptions' id)
    (htrace : trace ⊆ trace') :
    WriteOk subscriptions' trace' w := by
  cases w with
  | insertOutbox row => exact RowOk.mono h hsubs htrace
  | updateOutbox id u => exact fun hf n => ⟨(h hf n).1, (h hf n).2.imp_right (@htrace _)⟩
  | setRegistry registry | insertAttempt attempt | upsertDlq entry => trivial

theorem rows_apply {db : Tables} {w : Write} (h : ∀ row ∈ db.outbox, RowOk subscriptions trace row)
    (hw : WriteOk subscriptions trace w) :
    ∀ row ∈ (w.apply db).outbox, RowOk subscriptions trace row := by
  cases w with
  | insertOutbox row => exact forall_mem_concat h hw
  | updateOutbox id u =>
    intro row hrow
    obtain ⟨old, hold, rfl⟩ := List.mem_map.mp hrow
    have hr := h old hold
    split
    · next hid =>
      refine ⟨fun hf => ?_, hr.max, hr.subscribed⟩
      obtain ⟨hone, hspent⟩ := hw hf old.attempts
      have hmax : old.maxAttempts = 5 := hr.max
      exact ⟨hone, hspent.imp (fun h5 => hmax ▸ h5) fun hmem => hid ▸ hmem⟩
    · exact hr
  | setRegistry registry | insertAttempt attempt | upsertDlq entry => exact h

/-- The rows of a view are as good as those there and the writes. -/
theorem rows_view {db : Tables} {session : Session}
    (h : ∀ row ∈ db.outbox, RowOk subscriptions trace row)
    (hw : ∀ w ∈ session.writes, WriteOk subscriptions trace w) :
    ∀ row ∈ (session.view db).outbox, RowOk subscriptions trace row := by
  obtain ⟨startedAt, writes, locks⟩ := session
  rw [Session.view]
  dsimp only at hw ⊢
  induction writes using List.reverseRecOn with
  | nil => exact h
  | append_singleton writes w ih =>
    rw [List.foldl_concat]
    obtain ⟨hwrites, hlast⟩ := List.forall_mem_append.mp hw
    exact rows_apply (ih hwrites) (hlast w (List.mem_singleton.mpr rfl))

/-- Only a commit writes to the outbox. -/
theorem rows_run {db : Tables} {session : Session}
    (h : ∀ row ∈ db.outbox, RowOk subscriptions trace row)
    (hw : ∀ w ∈ session.writes, WriteOk subscriptions trace w) (clock : Nat) (effect : Effect) :
    ∀ row ∈ (effect.run clock db session).1.outbox, RowOk subscriptions trace row := by
  by_cases hcommit : effect = .commit
  · subst hcommit
    exact rows_view h hw
  · rw [run_outbox hcommit]
    exact h

theorem subscribed_putSubscription {id : Nat} (h : Subscribed subscriptions id)
    (new : Subscription) :
    Subscribed (putSubscription subscriptions new) id := by
  obtain ⟨consumer, hc⟩ := Option.isSome_iff_exists.mp h
  exact Option.isSome_iff_exists.mpr ⟨consumer, consumerOf_putSubscription hc new⟩

theorem deliver_writeOk {d : Delivery} {pc pc' : DeliverPc} {x : Write}
    (h : d.next pc = some (.write x, pc')) : WriteOk subscriptions trace x := by
  cases pc <;> cases h <;> trivial

end Writes

/-- The rows that a worker has in hand; it has not missed a subscription. -/
structure WorkerOk (subscriptions : List Subscription) (trace : List Nat) (w : Worker) : Prop where
  writes : ∀ x ∈ w.session.writes, WriteOk subscriptions trace x
  batch : ∀ item ∈ w.pc.batch, item.maxAttempts = 5 ∧ Subscribed subscriptions item.subscriptionId
  found : ∀ item todo, w.pc ≠ .failMissing item todo

/-- The subscriptions that a call has still to queue a row for. -/
def queue : CallPc → List Subscription
  | .loop _ todo | .deliver _ _ _ todo _ => todo
  | _ => []

structure CallerOk (subscriptions : List Subscription) (trace : List Nat) (w : Caller) : Prop where
  writes : ∀ x ∈ w.session.writes, WriteOk subscriptions trace x
  queue : ∀ sub ∈ queue w.pc, Subscribed subscriptions sub.id

section Steps

variable {db : Tables} {trace : List Nat} {now n clock fresh : Nat} {locked : Nat → Bool} {effect : Effect}

theorem workerOk_step {w : Worker} {pc : WorkerPc}
    (hrows : ∀ row ∈ db.outbox, RowOk db.subscriptions trace row)
    (h : WorkerOk db.subscriptions trace w)
    (hstep : WorkerStep (w.session.view db) now n locked w.pc effect pc) :
    WorkerOk db.subscriptions trace ⟨pc, (effect.run clock db w.session).2⟩ := by
  obtain ⟨pc₀, session⟩ := w
  change WorkerStep (session.view db) now n locked pc₀ effect pc at hstep
  obtain ⟨hwrites, hbatch, hfound⟩ := h
  dsimp only at hwrites hbatch hfound
  cases hstep with
  | poll =>
    refine ⟨hwrites, fun item hitem => ?_, fun _ _ => WorkerPc.noConfusion⟩
    have hr := rows_view hrows hwrites item (mem_selectDue hitem).1
    exact ⟨hr.max, hr.subscribed⟩
  | done => exact ⟨hwrites, hbatch, fun _ _ => WorkerPc.noConfusion⟩
  | claim _ => exact ⟨forall_mem_concat hwrites Status.noConfusion, hbatch, fun _ _ => WorkerPc.noConfusion⟩
  | claimed => exact ⟨List.forall_mem_nil _, hbatch, fun _ _ => WorkerPc.noConfusion⟩
  | @missing item todo hfind =>
    obtain ⟨-, hsub⟩ := hbatch item List.mem_cons_self
    rw [view_subscriptions] at hfind
    rw [Subscribed, consumerOf, hfind] at hsub
    cases hsub
  | found _ => exact ⟨hwrites, hbatch, fun _ _ => WorkerPc.noConfusion⟩
  | failMissing _ => exact absurd rfl (hfound _ _)
  | deliver hnext =>
    refine ⟨forall_run_writes hwrites fun x heq => ?_, hbatch, fun _ _ => WorkerPc.noConfusion⟩
    subst heq
    exact deliver_writeOk hnext
  | delivered _ | retry _ _ => exact ⟨forall_mem_concat hwrites Status.noConfusion, hbatch, fun _ _ => WorkerPc.noConfusion⟩
  | @exhausted item todo sub _ hmax =>
    obtain ⟨hfive, -⟩ := hbatch item List.mem_cons_self
    have hspent : 5 ≤ item.attempts + 1 := hfive ▸ hmax
    refine ⟨forall_mem_concat hwrites fun _ _ => ⟨Nat.succ_pos _, .inl hspent⟩, hbatch, fun _ _ => WorkerPc.noConfusion⟩
  | upsertDlq => exact ⟨forall_mem_concat hwrites trivial, hbatch, fun _ _ => WorkerPc.noConfusion⟩
  | commitItem =>
    exact ⟨List.forall_mem_nil _, fun item hitem => hbatch item (List.mem_cons_of_mem _ hitem), fun _ _ => WorkerPc.noConfusion⟩
  | count => exact ⟨List.forall_mem_nil _, List.forall_mem_nil _, fun _ _ => WorkerPc.noConfusion⟩

theorem callerOk_step {c : Config} {w : Caller} {pc : CallPc}
    (h : CallerOk db.subscriptions trace w)
    (hstep : CallStep c (w.session.view db) fresh now locked w.pc effect pc) :
    CallerOk db.subscriptions (trace ++ failedInline w.pc) ⟨pc, (effect.run clock db w.session).2⟩ := by
  obtain ⟨pc₀, session⟩ := w
  change CallStep c (session.view db) fresh now locked pc₀ effect pc at hstep
  obtain ⟨hwrites, hqueue⟩ := h
  dsimp only at hwrites hqueue ⊢
  have hwrites : ∀ x ∈ session.writes, WriteOk db.subscriptions (trace ++ failedInline pc₀) x :=
    fun x hx => (hwrites x hx).mono (fun _ hid => hid) (List.subset_append_left _ _)
  have hinsert : ∀ {drift : Drift} {sub : Subscription}, Subscribed db.subscriptions sub.id →
      WriteOk db.subscriptions (trace ++ failedInline pc₀) (.insertOutbox (outboxRow drift fresh now sub)) :=
    fun hsub => ⟨nofun, rfl, hsub⟩
  cases hstep with
  | refused | unclassified | commit => exact ⟨List.forall_mem_nil _, List.forall_mem_nil _⟩
  | drift _ _ | noDrift _ _ | classified _ => exact ⟨forall_mem_concat hwrites trivial, List.forall_mem_nil _⟩
  | selected =>
    refine ⟨hwrites, fun sub hs => ?_⟩
    have hmem := List.mem_of_mem_filter hs
    rw [view_subscriptions] at hmem
    exact consumerOf_isSome hmem
  | done | count => exact ⟨hwrites, List.forall_mem_nil _⟩
  | inline _ | queued _ =>
    obtain ⟨hsub, htodo⟩ := List.forall_mem_cons.mp hqueue
    exact ⟨forall_mem_concat hwrites (hinsert hsub), htodo⟩
  | deliver hnext =>
    refine ⟨forall_run_writes hwrites fun x heq => ?_, hqueue⟩
    subst heq
    exact deliver_writeOk hnext
  | @mark drift outboxId sub todo ok _ =>
    refine ⟨forall_mem_concat hwrites fun hf n => ?_, hqueue⟩
    cases ok with
    | true => cases hf
    | false => exact ⟨Nat.succ_pos _, .inr (List.mem_append_right _ (List.mem_singleton.mpr rfl))⟩

end Steps

section System

open DeadLetters (run_subscriptions)
open DeliveryInvariant (setWorker_worker)

variable {ι : Type}

def marks (s : State ι) : Action ι → List Nat
  | .caller => failedInline s.caller.pc
  | _ => []

structure Inv (p : State ι × List Nat) : Prop where
  rows : ∀ row ∈ p.1.db.outbox, RowOk p.1.db.subscriptions p.2 row
  worker : ∀ i, WorkerOk p.1.db.subscriptions p.2 (p.1.worker i)
  caller : CallerOk p.1.db.subscriptions p.2 p.1.caller

theorem inv_init : Inv ((init, []) : State ι × List Nat) where
  rows := List.forall_mem_nil _
  worker _ := ⟨List.forall_mem_nil _, List.forall_mem_nil _, nofun⟩
  caller := ⟨List.forall_mem_nil _, List.forall_mem_nil _⟩

variable {s : State ι} {trace trace' : List Nat} {subscriptions' : List Subscription}

theorem WorkerOk.mono {subscriptions : List Subscription} {w : Worker}
    (h : WorkerOk subscriptions trace w)
    (hsubs : ∀ id, Subscribed subscriptions id → Subscribed subscriptions' id)
    (htrace : trace ⊆ trace') :
    WorkerOk subscriptions' trace' w :=
  ⟨fun x hx => (h.writes x hx).mono hsubs htrace,
    fun item hitem => ⟨(h.batch item hitem).1, hsubs _ (h.batch item hitem).2⟩, h.found⟩

variable [DecidableEq ι]

theorem Inv.setWorker (h : Inv (s, trace)) {i : ι} {w : Worker}
    (hw : WorkerOk s.db.subscriptions trace w)
    (log : List DeliverySystem.Event) : Inv ({ s.setWorker i w with log }, trace) := by
  refine ⟨h.rows, fun j => ?_, h.caller⟩
  change WorkerOk _ _ ((s.setWorker i w).worker j)
  rw [setWorker_worker]
  split
  · exact hw
  · exact h.worker j

theorem inv_worker (h : Inv (s, trace)) {i : ι} {now n : Nat} {locked : Nat → Bool}
    {effect : Effect}
    {pc : WorkerPc}
    (hstep : WorkerStep ((s.worker i).session.view s.db) now n locked (s.worker i).pc effect pc)
    (log : List DeliverySystem.Event) :
    Inv ({ s.setWorker i ⟨pc, (effect.run s.clock s.db (s.worker i).session).2⟩ with
      db := (effect.run s.clock s.db (s.worker i).session).1, log }, trace) := by
  have hsubs := @run_subscriptions s.db (s.worker i).session s.clock effect
  refine ⟨?_, fun j => ?_, ?_⟩
  · change ∀ row ∈ _, RowOk (effect.run s.clock s.db (s.worker i).session).1.subscriptions trace row
    rw [hsubs]
    exact rows_run h.rows (h.worker i).writes s.clock effect
  · change WorkerOk (effect.run s.clock s.db (s.worker i).session).1.subscriptions trace
      ((s.setWorker i _).worker j)
    rw [hsubs, setWorker_worker]
    split
    · exact workerOk_step h.rows (h.worker i) hstep
    · exact h.worker j
  · change CallerOk (effect.run s.clock s.db (s.worker i).session).1.subscriptions trace s.caller
    rw [hsubs]
    exact h.caller

omit [DecidableEq ι] in
theorem inv_caller (h : Inv (s, trace)) {c : Config} {now : Nat} {locked : Nat → Bool}
    {effect : Effect}
    {pc : CallPc}
    (hstep : CallStep c (s.caller.session.view s.db) s.fresh now locked s.caller.pc effect pc)
    (log : List DeliverySystem.Event) (drifts : List Drift) :
    Inv ({ s with
      db := (effect.run s.clock s.db s.caller.session).1
      fresh := s.fresh + 1
      caller := ⟨pc, (effect.run s.clock s.db s.caller.session).2⟩
      log, drifts }, trace ++ failedInline s.caller.pc) := by
  have hsubs := @run_subscriptions s.db s.caller.session s.clock effect
  have htrace : trace ⊆ trace ++ failedInline s.caller.pc := List.subset_append_left _ _
  refine ⟨?_, fun j => ?_, ?_⟩
  · change ∀ row ∈ _, RowOk (effect.run s.clock s.db s.caller.session).1.subscriptions _ row
    rw [hsubs]
    intro row hrow
    exact (rows_run h.rows h.caller.writes s.clock effect row hrow).mono (fun _ hid => hid) htrace
  · change WorkerOk (effect.run s.clock s.db s.caller.session).1.subscriptions _ (s.worker j)
    rw [hsubs]
    exact (h.worker j).mono (fun _ hid => hid) htrace
  · change CallerOk (effect.run s.clock s.db s.caller.session).1.subscriptions _ _
    rw [hsubs]
    exact callerOk_step h.caller hstep

variable [Fintype ι] {c : Config}

theorem inv_step {p p' : State ι × List Nat} {a : Action ι} (h : Inv p)
    (hs : traced (step c) marks p a = some p') : Inv p' := by
  obtain ⟨s, trace⟩ := p
  obtain ⟨s', hstep, rfl⟩ := Option.map_eq_some_iff.mp hs
  have hstep : step c s a = some s' := hstep
  have hquiet : Inv (s', trace) → Inv (s', trace ++ []) := by
    rw [List.append_nil]
    exact id
  cases step_cases hstep with
  | worker hw => exact hquiet (inv_worker h hw _)
  | caller hw => exact inv_caller h hw _ _
  | @workerResponse i outcome item todo sub attempt hpc =>
    have hw := h.worker i
    have hok : WorkerOk s.db.subscriptions trace
        ⟨.deliver item todo sub (DeliverPc.answered attempt outcome), (s.worker i).session⟩ := by
      refine ⟨hw.writes, ?_, nofun⟩
      have hbatch := hw.batch
      rw [hpc] at hbatch
      exact hbatch
    exact hquiet (h.setWorker hok _)
  | @workerFailure i =>
    exact hquiet (h.setWorker (w := ⟨.poll, .closed⟩)
      ⟨List.forall_mem_nil _, List.forall_mem_nil _, nofun⟩ s.log)
  | request _ | callerFailure =>
    exact hquiet ⟨h.rows, h.worker, List.forall_mem_nil _, List.forall_mem_nil _⟩
  | callerResponse hpc =>
    refine hquiet ⟨h.rows, h.worker, h.caller.writes, ?_⟩
    have hqueue := h.caller.queue
    rw [hpc] at hqueue
    exact hqueue
  | @putSubscription sub =>
    have hsubs : ∀ id, Subscribed s.db.subscriptions id →
        Subscribed (putSubscription s.db.subscriptions sub) id :=
      fun id hid => subscribed_putSubscription hid sub
    have htrace : trace ⊆ trace := List.Subset.refl _
    exact hquiet ⟨fun row hrow => (h.rows row hrow).mono hsubs htrace, fun i => (h.worker i).mono hsubs htrace,
      fun x hx => (h.caller.writes x hx).mono hsubs htrace, fun sub hs => hsubs _ (h.caller.queue sub hs)⟩
  | tick => exact hquiet ⟨h.rows, h.worker, h.caller⟩

/-- A failed row has used up its attempts, unless its inline delivery has failed, which counts as one
attempt. -/
theorem failed_rows_spent (c : Config) (p : State ι × List Nat)
    (h : Reachable (traced (step c) marks) always (init, []) p) (row : OutboxRow)
    (hrow : row ∈ p.1.db.outbox) (hfailed : row.status = .FAILED) :
    1 ≤ row.attempts ∧ (row.maxAttempts ≤ row.attempts ∨ row.id ∈ p.2) := by
  have hinv : Inv p := h.invariant inv_init fun _ _ _ hi _ hs => inv_step hi hs
  exact (hinv.rows row hrow).spent hfailed

end System

/-- One subscription, whose inline delivery is answered with 500, and polls after that. -/
def failingRun : List (Action Unit) :=
  List.flatten [driftWith [7], List.replicate 5 .caller, [.callerResponse (.response 500)],
    List.replicate 7 .caller, List.replicate 3 (.worker ()), List.replicate 64 .tick,
    List.replicate 3 (.worker ())]

theorem failed_rows_spent_inline :
    ∃ p, run (traced (step (sampleConfig 50 true)) marks) always ((init, []) : State Unit × _) failingRun =
      some p ∧ ∃ row ∈ p.1.db.outbox, row.status = .FAILED ∧ 1 ≤ row.attempts ∧ row.id ∈ p.2 := by
  have hrun : (run (traced (step (sampleConfig 50 true)) marks) always
      ((init, []) : State Unit × _) failingRun).map
      (fun p => (p.1.db.outbox.map (fun row => (row.id, row.status, row.attempts, row.maxAttempts)), p.2)) =
      some ([(5, .FAILED, 1, 5)], [5]) := by decide +kernel
  obtain ⟨p, hp, hresult⟩ := Option.map_eq_some_iff.mp hrun
  simp only [Prod.mk.injEq, List.map_eq_singleton_iff] at hresult
  obtain ⟨⟨row, houtbox, -, hfailed, hattempts, hmax⟩, -⟩ := hresult
  have hrow : row ∈ p.1.db.outbox := by
    rw [houtbox]
    exact List.mem_singleton.mpr rfl
  obtain ⟨hone, hspent⟩ := failed_rows_spent _ p (reachable_run _ _ .start hp) row hrow hfailed
  refine ⟨p, hp, row, hrow, hfailed, hone, hspent.resolve_left ?_⟩
  rw [hattempts, hmax]
  decide

/-- In this run the row of a failed inline delivery has four attempts left, and polls pass it by. -/
theorem inline_failure_attempts_left :
    ∃ p, run (traced (step (sampleConfig 50 true)) marks) always ((init, []) : State Unit × _) failingRun =
      some p ∧ p.1.db.outbox.map (fun row => (row.status, row.attempts, row.maxAttempts)) = [(.FAILED, 1, 5)] ∧
        p.1.log = [.sent 5, .returned 5 (.response 500)] := by
  have hrun : (run (traced (step (sampleConfig 50 true)) marks) always
      ((init, []) : State Unit × _) failingRun).map
      (fun p => (p.1.db.outbox.map (fun row => (row.status, row.attempts, row.maxAttempts)), p.1.log)) =
      some ([(.FAILED, 1, 5)], [.sent 5, .returned 5 (.response 500)]) := by decide +kernel
  obtain ⟨p, hp, hresult⟩ := Option.map_eq_some_iff.mp hrun
  exact ⟨p, hp, Prod.mk.inj hresult⟩

end SchemaPilot.InlineFailures
