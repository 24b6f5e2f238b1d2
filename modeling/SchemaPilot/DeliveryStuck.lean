import SchemaPilot.DeliveryInvariant

namespace SchemaPilot.DeliveryStuck

open Webhook OutboxWorker Enqueue Runs DeliverySystem DeliveryInvariant

/-- A write that makes no row `DELIVERING`. -/
def NoClaim : Write → Prop
  | .insertOutbox row => row.status ≠ .DELIVERING
  | .updateOutbox _ u => u.status ≠ .DELIVERING
  | .setRegistry _ | .insertAttempt _ | .upsertDlq _ => True

theorem NoClaim.of_quiet {x : Write} (h : Quiet x) : NoClaim x := by
  cases x with
  | insertAttempt _ | upsertDlq _ => trivial
  | setRegistry _ | insertOutbox _ | updateOutbox _ _ => exact h.elim

theorem delivering_view {session : Session} {db : Tables} {id : Nat}
    (h : ∀ x ∈ session.writes, NoClaim x) (hv : HasStatus .DELIVERING (session.view db) id) :
    HasStatus .DELIVERING db id ∧ ∀ u, .updateOutbox id u ∉ session.writes := by
  obtain hold | ⟨u, hu, hstatus⟩ | ⟨row, hr, -, hstatus⟩ := hasStatus_view hv
  · exact hold
  · exact absurd hstatus (h _ hu)
  · exact absurd hstatus (h _ (mem_inserted.mp hr))

/-- What a worker has written, by the statement it executes next. -/
def WorkerWrites (w : Worker) : Prop :=
  match w.pc with
  | .commitClaim item _ => ∀ x ∈ w.session.writes, NoClaim x ∨ ∃ u, x = .updateOutbox item.id u
  | .upsertDlq item _ _ | .commitItem item _ =>
    (∀ x ∈ w.session.writes, NoClaim x) ∧ ∃ u, .updateOutbox item.id u ∈ w.session.writes
  | _ => ∀ x ∈ w.session.writes, NoClaim x

theorem workerWrites_step {db db' : Tables} {now n clock : Nat} {locked : Nat → Bool} {w : Worker}
    {effect : Effect} {pc : WorkerPc} (h : WorkerWrites w)
    (hstep : WorkerStep db now n locked w.pc effect pc) :
    WorkerWrites ⟨pc, (effect.run clock db' w.session).2⟩ := by
  obtain ⟨pc₀, session⟩ := w
  change WorkerStep db now n locked pc₀ effect pc at hstep
  cases hstep with
  | poll | done | missing _ | found _ | count =>
    exact forall_run_writes h fun _ heq => by cases heq
  | claim _ =>
    intro x hx
    obtain hx | hx := mem_run_writes hx
    · exact .inl (h x hx)
    · cases hx
      exact .inr ⟨_, rfl⟩
  | claimed | commitItem => exact fun _ hx => absurd hx List.not_mem_nil
  | deliver hnext =>
    refine forall_run_writes h fun x heq => ?_
    subst heq
    exact .of_quiet (deliver_write hnext)
  | failMissing _ | delivered _ | exhausted _ _ | retry _ _ =>
    refine ⟨forall_run_writes h fun x heq => ?_, _, List.mem_append_right _ (List.mem_singleton.mpr rfl)⟩
    cases heq
    exact nofun
  | upsertDlq =>
    obtain ⟨h, u, hu⟩ := h
    refine ⟨forall_run_writes h fun x heq => ?_, u, List.mem_append_left _ hu⟩
    cases heq
    trivial

theorem call_write {c : Config} {db : Tables} {fresh now : Nat} {locked : Nat → Bool}
    {pc pc' : CallPc} {x : Write} (h : CallStep c db fresh now locked pc (.write x) pc') :
    NoClaim x := by
  cases h with
  | drift _ _ | noDrift _ _ | classified _ => trivial
  | inline _ | queued _ => exact nofun
  | deliver hnext => exact .of_quiet (deliver_write hnext)
  | @mark _ _ _ _ ok _ =>
    change (if ok then Status.DELIVERED else .FAILED) ≠ .DELIVERING
    split <;> exact nofun

/-- Until it commits, a worker goes on with the row that it is processing. -/
theorem processing_step {db : Tables} {now n : Nat} {locked : Nat → Bool} {pc pc' : WorkerPc}
    {effect : Effect} (h : WorkerStep db now n locked pc effect pc') {item : OutboxRow}
    (hitem : item ∈ pc.processing) : item ∈ pc'.processing ∨ ∃ todo, pc = .commitItem item todo := by
  cases h with
  | poll | done | claim _ | count => cases hitem
  | commitItem =>
    cases hitem
    exact .inr ⟨_, rfl⟩
  | claimed | missing _ | found _ | failMissing _ | deliver _ | delivered _ | exhausted _ _
  | retry _ _ | upsertDlq => exact .inl hitem

section

variable {ι : Type} {c : Config} {s : State ι}

/-- A worker is processing the row. -/
def Covered (s : State ι) (id : Nat) : Prop :=
  ∃ i, ∃ item ∈ (s.worker i).pc.processing, item.id = id

structure Inv (s : State ι) : Prop where
  covered : ∀ id, HasStatus .DELIVERING s.db id → Covered s id
  worker : ∀ i, WorkerWrites (s.worker i)
  caller : ∀ x ∈ s.caller.session.writes, NoClaim x

theorem inv_init : Inv (init : State ι) := by
  refine ⟨fun id h => ?_, fun i x hx => absurd hx List.not_mem_nil, fun x hx => absurd hx List.not_mem_nil⟩
  obtain ⟨row, hr, -⟩ := h
  cases hr

variable [DecidableEq ι] {i : ι}

theorem Covered.setWorker {w : Worker} {id : Nat} (h : Covered s id)
    (hkeep : ∀ item ∈ (s.worker i).pc.processing, item.id = id → item ∈ w.pc.processing) :
    Covered (s.setWorker i w) id := by
  obtain ⟨j, item, hitem, hid⟩ := h
  refine ⟨j, item, ?_, hid⟩
  rw [setWorker_worker]
  split
  · next hji => exact hkeep item (hji ▸ hitem) hid
  · exact hitem

theorem workerWrites_setWorker (h : ∀ j, WorkerWrites (s.worker j)) {w : Worker} (hw : WorkerWrites w)
    (j : ι) : WorkerWrites ((s.setWorker i w).worker j) := by
  rw [setWorker_worker]
  split
  · exact hw
  · exact h j

/-- No failure stops a worker while the row that it is processing is committed as `DELIVERING`. -/
def Uninterrupted (s : State ι) : Action ι → Prop
  | .workerFailure i => ∀ item ∈ (s.worker i).pc.processing, ¬HasStatus .DELIVERING s.db item.id
  | _ => True

instance (s : State ι) (a : Action ι) : Decidable (Uninterrupted s a) :=
  match a with
  | .workerFailure i => inferInstanceAs (Decidable (∀ item ∈ (s.worker i).pc.processing,
      ¬∃ row ∈ s.db.outbox, row.id = item.id ∧ row.status = .DELIVERING))
  | .worker _ | .workerResponse _ _ | .request _ | .caller | .callerResponse _ | .callerFailure
  | .putSubscription _ | .tick => isTrue trivial

/-- The row that a worker has claimed is its own, and the row that it is done with has left
`DELIVERING`. -/
theorem covered_commit (h : Inv s) {db : Tables} {now n : Nat} {locked : Nat → Bool} {pc pc' : WorkerPc}
    (hpc : (s.worker i).pc = pc) (hstep : WorkerStep db now n locked pc .commit pc')
    {session : Session} {id : Nat}
    (hv : HasStatus .DELIVERING ((s.worker i).session.view s.db) id) :
    Covered (s.setWorker i ⟨pc', session⟩) id := by
  have hw := h.worker i
  rw [WorkerWrites] at hw
  cases hstep with
  | @claimed item todo =>
    simp only [hpc] at hw
    by_cases hid : item.id = id
    · refine ⟨i, item, ?_, hid⟩
      rw [setWorker_worker, if_pos rfl]
      rfl
    · have hold : HasStatus .DELIVERING s.db id := by
        obtain ⟨hold, -⟩ | ⟨u, hu, hstatus⟩ | ⟨row, hr, -, hstatus⟩ := hasStatus_view hv
        · exact hold
        · obtain hno | ⟨u', heq⟩ := hw _ hu
          · exact absurd hstatus hno
          · cases heq
            exact absurd rfl hid
        · obtain hno | ⟨u', heq⟩ := hw _ (mem_inserted.mp hr)
          · exact absurd hstatus hno
          · cases heq
      refine (h.covered id hold).setWorker fun item' hitem _ => ?_
      rw [hpc] at hitem
      exact hitem
  | deliver hnext =>
    simp only [hpc] at hw
    refine (h.covered id (delivering_view hw hv).1).setWorker fun item hitem _ => ?_
    rw [hpc] at hitem
    exact hitem
  | @commitItem item todo =>
    simp only [hpc] at hw
    obtain ⟨hold, hno⟩ := delivering_view hw.1 hv
    refine (h.covered id hold).setWorker fun item' hitem hid => ?_
    rw [hpc] at hitem
    cases hitem
    obtain ⟨u, hu⟩ := hw.2
    exact absurd (hid ▸ hu) (hno u)

theorem inv_worker (h : Inv s) {db : Tables} {now n : Nat} {locked : Nat → Bool} {effect : Effect}
    {pc : WorkerPc} (hstep : WorkerStep db now n locked (s.worker i).pc effect pc) {log : List Event} :
    Inv { s.setWorker i ⟨pc, (effect.run s.clock s.db (s.worker i).session).2⟩ with
      db := (effect.run s.clock s.db (s.worker i).session).1
      log } := by
  refine ⟨fun id hv => ?_, workerWrites_setWorker h.worker (workerWrites_step (h.worker i) hstep), h.caller⟩
  by_cases hcommit : effect = .commit
  · subst hcommit
    exact covered_commit h rfl hstep hv
  · rw [HasStatus, run_outbox hcommit] at hv
    refine (h.covered id hv).setWorker fun item hitem _ => ?_
    obtain hitem | ⟨todo, hpc⟩ := processing_step hstep hitem
    · exact hitem
    · rw [hpc] at hstep
      cases hstep
      exact absurd rfl hcommit

variable [Fintype ι]

omit [DecidableEq ι] in
theorem inv_caller (h : Inv s) {pc : CallPc} {effect : Effect} {fresh : Nat} {log : List Event}
    {drifts : List Drift}
    (hstep : CallStep c (s.caller.session.view s.db) s.fresh (s.caller.session.now s.clock)
      (lockedForCaller s) s.caller.pc effect pc) :
    Inv { s with
      db := (effect.run s.clock s.db s.caller.session).1
      fresh
      caller := ⟨pc, (effect.run s.clock s.db s.caller.session).2⟩
      log
      drifts } := by
  refine ⟨fun id hv => ?_, h.worker, forall_run_writes h.caller fun x heq => ?_⟩
  · apply h.covered
    by_cases hcommit : effect = .commit
    · subst hcommit
      exact (delivering_view h.caller hv).1
    · rw [HasStatus, run_outbox hcommit] at hv
      exact hv
  · subst heq
    exact call_write hstep

theorem inv_step {a : Action ι} {s' : State ι} (h : Inv s) (hok : Uninterrupted s a)
    (hs : step c s a = some s') : Inv s' := by
  cases step_cases hs with
  | worker hstep => exact inv_worker h hstep
  | @workerResponse i outcome item todo sub attempt hpc =>
    have hw := h.worker i
    rw [WorkerWrites] at hw
    simp only [hpc] at hw
    refine ⟨fun id hv => ?_, workerWrites_setWorker h.worker hw, h.caller⟩
    refine (h.covered id hv).setWorker fun item' hitem _ => ?_
    rw [hpc] at hitem
    exact hitem
  | @workerFailure i =>
    refine ⟨fun id hv => ?_, workerWrites_setWorker h.worker fun x hx => absurd hx List.not_mem_nil,
      h.caller⟩
    refine (h.covered id hv).setWorker fun item hitem hid => ?_
    exact absurd (hid ▸ hv) (hok item hitem)
  | request _ | callerFailure =>
    exact ⟨h.covered, h.worker, fun x hx => absurd hx List.not_mem_nil⟩
  | caller hstep => exact inv_caller h hstep
  | callerResponse _ | putSubscription | tick => exact ⟨h.covered, h.worker, h.caller⟩

/-- As long as no failure comes between the commit of `DELIVERING` and the end of a row's
processing, a row that no worker is processing waits or is settled. -/
theorem settled_unless_processing (c : Config) (s : State ι)
    (h : Reachable (step c) Uninterrupted init s) (row : OutboxRow) (hrow : row ∈ s.db.outbox)
    (hfree : ∀ i, ∀ item ∈ (s.worker i).pc.processing, item.id ≠ row.id) :
    row.status = .PENDING ∨ row.status = .DELIVERED ∨ row.status = .FAILED := by
  have hinv : Inv s := h.invariant inv_init fun _ _ _ hi hok hs => inv_step hi hok hs
  cases hstatus : row.status with
  | PENDING => exact .inl rfl
  | DELIVERED => exact .inr (.inl rfl)
  | FAILED => exact .inr (.inr rfl)
  | DELIVERING =>
    obtain ⟨i, item, hitem, hid⟩ := hinv.covered row.id ⟨row, hrow, rfl, hstatus⟩
    exact absurd hid (hfree i item hitem)

end

/-- A failure before the commit of `DELIVERING`, and a second poll that delivers the row. -/
theorem settled_unless_processing_second_poll :
    let acts : List (Action Unit) := List.flatten [driftWith [7], List.replicate 7 .caller,
      [.worker (), .worker (), .workerFailure ()], List.replicate 5 (.worker ()),
      [.workerResponse () (.response 200)], List.replicate 4 (.worker ())]
    ∃ s : State Unit, run (step (sampleConfig 50 false)) Uninterrupted init acts = some s ∧
      ∃ row ∈ s.db.outbox, successes s.log row.id = 1 ∧
        (row.status = .PENDING ∨ row.status = .DELIVERED ∨ row.status = .FAILED) := by
  intro acts
  have hrun : (run (step (sampleConfig 50 false)) Uninterrupted (init : State Unit) acts).map
      (fun s => (s.db.outbox.map OutboxRow.id, (s.worker ()).pc, successes s.log 5)) =
      some ([5], .loop [], 1) := by decide +kernel
  obtain ⟨s, hs, hp⟩ := Option.map_eq_some_iff.mp hrun
  simp only [Prod.mk.injEq] at hp
  obtain ⟨hids, hpc, hlog⟩ := hp
  obtain ⟨row, hrow, hid⟩ := List.mem_map.mp (hids ▸ List.mem_singleton.mpr rfl : 5 ∈ s.db.outbox.map OutboxRow.id)
  refine ⟨s, hs, row, hrow, hid ▸ hlog, ?_⟩
  apply settled_unless_processing _ s (reachable_run _ _ .start hs) row hrow
  intro i item hitem
  rw [hpc] at hitem
  cases hitem

/-- A failure after the commit of `DELIVERING`. -/
theorem claimed_row_stuck :
    let acts : List (Action Unit) := List.flatten [driftWith [7], List.replicate 7 .caller,
      List.replicate 3 (.worker ()), [.workerFailure ()]]
    ∃ s : State Unit, run (step (sampleConfig 50 false)) always init acts = some s ∧
      ∃ row ∈ s.db.outbox, (∀ i, ∀ item ∈ (s.worker i).pc.processing, item.id ≠ row.id) ∧
        row.status = .DELIVERING ∧ successes s.log row.id = 0 := by
  intro acts
  have hrun : (run (step (sampleConfig 50 false)) always (init : State Unit) acts).map
      (fun s => (s.db.outbox.map OutboxRow.status, (s.worker ()).pc, s.log)) =
      some ([.DELIVERING], .poll, []) := by decide +kernel
  obtain ⟨s, hs, hp⟩ := Option.map_eq_some_iff.mp hrun
  simp only [Prod.mk.injEq] at hp
  obtain ⟨hstatus, hpc, hlog⟩ := hp
  obtain ⟨row, hrow, hd⟩ := List.mem_map.mp
    (hstatus ▸ List.mem_singleton.mpr rfl : Status.DELIVERING ∈ s.db.outbox.map OutboxRow.status)
  refine ⟨s, hs, row, hrow, fun i item hitem => ?_, hd, ?_⟩
  · rw [hpc] at hitem
    cases hitem
  · rw [hlog]
    rfl

end SchemaPilot.DeliveryStuck
