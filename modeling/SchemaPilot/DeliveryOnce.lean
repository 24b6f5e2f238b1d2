import SchemaPilot.DeliverySteps

namespace SchemaPilot.DeliveryOnce

open Webhook OutboxWorker Enqueue Runs DeliverySystem DeliveryInvariant DeliverySteps

section

variable {ι : Type} [Fintype ι] [DecidableEq ι]

/-- No poll fetches a row that another worker has fetched and is not done with. -/
def BatchesApart (c : Config) (s : State ι) : Action ι → Prop
  | .worker i => (s.worker i).pc = .poll →
    ∀ row ∈ selectDue s.db.outbox s.clock c.batchSize (lockedFor s i),
      ∀ j, j ≠ i → ∀ row' ∈ (s.worker j).pc.batch, row.id ≠ row'.id
  | .callerFailure => False
  | _ => True

/-- No poll fetches a row whose inline delivery was answered with 2xx and is still to be marked. -/
def MarksFirst (c : Config) (s : State ι) : Action ι → Prop
  | .worker i => (s.worker i).pc = .poll →
    ∀ row ∈ selectDue s.db.outbox s.clock c.batchSize (lockedFor s i),
      unmarked s.caller.pc ≠ some row.id
  | .callerFailure => False
  | _ => True

instance (c : Config) (s : State ι) (a : Action ι) : Decidable (BatchesApart c s a) :=
  match a with
  | .worker i => inferInstanceAs (Decidable ((s.worker i).pc = .poll →
      ∀ row ∈ selectDue s.db.outbox s.clock c.batchSize (lockedFor s i),
        ∀ j, j ≠ i → ∀ row' ∈ (s.worker j).pc.batch, row.id ≠ row'.id))
  | .callerFailure => isFalse id
  | .workerResponse _ _ | .workerFailure _ | .request _ | .caller | .callerResponse _
  | .putSubscription _ | .tick => isTrue trivial

instance (c : Config) (s : State ι) (a : Action ι) : Decidable (MarksFirst c s a) :=
  match a with
  | .worker i => inferInstanceAs (Decidable ((s.worker i).pc = .poll →
      ∀ row ∈ selectDue s.db.outbox s.clock c.batchSize (lockedFor s i),
        unmarked s.caller.pc ≠ some row.id))
  | .callerFailure => isFalse id
  | .workerResponse _ _ | .workerFailure _ | .request _ | .caller | .callerResponse _
  | .putSubscription _ | .tick => isTrue trivial

variable {c : Config} {s : State ι}

/-- Without inline delivery the call never delivers. -/
theorem step_not_delivering (hinline : c.inlineDelivery = false) {db : Tables} {fresh now : Nat}
    {locked : Nat → Bool} {pc pc' : CallPc} {effect : Effect} (h : delivering pc = false)
    (hstep : CallStep c db fresh now locked pc effect pc') : delivering pc' = false := by
  cases hstep with
  | inline honline =>
    rw [hinline] at honline
    cases honline
  | deliver _ | mark _ => cases h
  | _ => rfl

theorem not_delivering_step (hinline : c.inlineDelivery = false) {a : Action ι} {s' : State ι}
    (h : delivering s.caller.pc = false) (hs : step c s a = some s') :
    delivering s'.caller.pc = false := by
  cases step_cases hs with
  | caller hstep => exact step_not_delivering hinline h hstep
  | callerResponse hpc =>
    rw [hpc] at h
    cases h
  | request _ | callerFailure => rfl
  | worker _ | workerResponse _ | workerFailure | putSubscription | tick => exact h

/-- Workers whose batches stay apart process no row together, and none of them posts a row
again that one of them has delivered. -/
theorem batches_apart_delivered_once (c : Config) (hinline : c.inlineDelivery = false) (s : State ι)
    (h : Reachable (step c) (BatchesApart c) init s) :
    (∀ i j row row', (s.worker i).pc.processing = some row →
        (s.worker j).pc.processing = some row' → row.id = row'.id → i = j) ∧
      NoFurtherPost s.log := by
  have hallowed : Reachable (step c) (Allowed c) init s := by
    refine h.restrict_of_invariant (I := fun s => delivering s.caller.pc = false) rfl
      (fun s a s' hi _ hs => not_delivering_step hinline hi hs) fun s a s' hi hok _ => ?_
    cases a with
    | worker i =>
      refine fun hpc row hr => ⟨hok hpc row hr, fun heq => ?_⟩
      cases hpc' : s.caller.pc with
      | deliver _ _ _ _ _ =>
        rw [hpc'] at hi
        cases hi
      | _ =>
        rw [hpc'] at heq
        cases heq
    | callerFailure => exact hok
    | _ => trivial
  have hinv : Inv s := hallowed.invariant inv_init fun _ _ _ hi hok hs => inv_step hi hok hs
  refine ⟨fun i j row row' hi hj hid => ?_, hinv.quiet⟩
  by_contra hne
  exact hinv.apart i j hne row (mem_batch_of_processing hi) row' (mem_batch_of_processing hj) hid

end

/-- Two workers that fetch one row each. -/
theorem batches_apart_delivered_once_two_workers :
    let c := sampleConfig 1 false
    let acts : List (Action (Fin 2)) := List.flatten [driftWith [7, 8], List.replicate 8 .caller,
      [.worker 0, .worker 0, .worker 0, .worker 1, .worker 1, .worker 1, .worker 0, .worker 1,
        .worker 0, .worker 1, .workerResponse 1 (.response 204), .workerResponse 0 (.response 200)]]
    ∃ s : State (Fin 2), run (step c) (BatchesApart c) init acts = some s ∧
      s.log.length = 4 ∧ NoFurtherPost s.log := by
  intro c acts
  have hlen : (run (step c) (BatchesApart c) init acts).map (fun s => s.log.length) = some 4 := by
    decide +kernel
  obtain ⟨s, hs, hl⟩ := Option.map_eq_some_iff.mp hlen
  exact ⟨s, hs, hl, (batches_apart_delivered_once c rfl s (reachable_run _ _ .start hs)).2⟩

/-- The first commit inside its loop releases the rest of a worker's batch to the others. -/
theorem two_workers_post_twice :
    let acts : List (Action (Fin 2)) := List.flatten [driftWith [7, 8], List.replicate 8 .caller,
      [.worker 0, .worker 0, .worker 0, .worker 1, .worker 0, .worker 0,
        .workerResponse 0 (.response 200), .worker 0, .worker 0, .worker 0, .worker 0, .worker 1,
        .worker 1, .worker 0, .worker 0, .worker 1, .worker 1, .workerResponse 1 (.response 200),
        .worker 0, .worker 0]]
    ∃ s : State (Fin 2), run (step (sampleConfig 50 false)) always init acts = some s ∧
      (∃ row row', (s.worker 0).pc.processing = some row ∧ (s.worker 1).pc.processing = some row' ∧
        row.id = row'.id) ∧
      ¬NoFurtherPost s.log := by
  intro acts
  have hrun : (run (step (sampleConfig 50 false)) always (init : State (Fin 2)) acts).map
      (fun s => ((s.worker 0).pc.processing.map OutboxRow.id,
        (s.worker 1).pc.processing.map OutboxRow.id, decide (NoFurtherPost s.log))) =
      some (some 6, some 6, false) := by decide +kernel
  obtain ⟨s, hs, hp⟩ := Option.map_eq_some_iff.mp hrun
  simp only [Prod.mk.injEq, Option.map_eq_some_iff, decide_eq_false_iff_not] at hp
  obtain ⟨⟨row, h0, hid⟩, ⟨row', h1, hid'⟩, hlog⟩ := hp
  exact ⟨s, hs, ⟨row, row', h0, h1, hid.trans hid'.symm⟩, hlog⟩

/-- One worker beside inline deliveries that are marked before it polls. -/
theorem marked_first_delivered_once (c : Config) (s : State Unit)
    (h : Reachable (step c) (MarksFirst c) init s) (row : Nat) : successes s.log row ≤ 1 := by
  have hallowed : Reachable (step c) (Allowed c) init s := by
    refine h.restrict fun s a s' hok _ => ?_
    cases a with
    | worker i =>
      exact fun hpc row hr => ⟨fun j hji => absurd (Subsingleton.elim j i) hji, hok hpc row hr⟩
    | callerFailure => exact hok
    | _ => trivial
  have hinv : Inv s := hallowed.invariant inv_init fun _ _ _ hi hok hs => inv_step hi hok hs
  exact hinv.once row

/-- A poll between the UPDATE that marks the row and its commit. -/
theorem marked_first_delivered_once_locked :
    let c := sampleConfig 50 true
    let acts : List (Action Unit) := List.flatten [driftWith [7], List.replicate 5 .caller,
      [.callerResponse (.response 200)], List.replicate 3 .caller, List.replicate 3 (.worker ()),
      List.replicate 3 .caller, List.replicate 2 (.worker ())]
    ∃ s : State Unit, run (step c) (MarksFirst c) init acts = some s ∧
      s.log = [.sent 5, .returned 5 (.response 200)] ∧ successes s.log 5 ≤ 1 := by
  intro c acts
  have hlog : (run (step c) (MarksFirst c) init acts).map (fun s => s.log) =
      some [.sent 5, .returned 5 (.response 200)] := by decide +kernel
  obtain ⟨s, hs, hl⟩ := Option.map_eq_some_iff.mp hlog
  exact ⟨s, hs, hl, marked_first_delivered_once c s (reachable_run _ _ .start hs) 5⟩

/-- A poll between the commit of the inline delivery and the UPDATE that marks the row. -/
theorem delivered_inline_and_by_worker :
    let acts : List (Action Unit) := List.flatten [driftWith [7], List.replicate 5 .caller,
      [.callerResponse (.response 200)], List.replicate 2 .caller, List.replicate 5 (.worker ()),
      [.workerResponse () (.response 200)]]
    ∃ s : State Unit, run (step (sampleConfig 50 true)) always init acts = some s ∧
      successes s.log 5 = 2 := by
  intro acts
  have hlog : (run (step (sampleConfig 50 true)) always (init : State Unit) acts).map
      (fun s => successes s.log 5) = some 2 := by decide +kernel
  obtain ⟨s, hs, hl⟩ := Option.map_eq_some_iff.mp hlog
  exact ⟨s, hs, hl⟩

end SchemaPilot.DeliveryOnce
