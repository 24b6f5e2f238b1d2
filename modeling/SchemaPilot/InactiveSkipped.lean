import SchemaPilot.DeliverySteps

namespace SchemaPilot.InactiveSkipped

open Webhook OutboxWorker Enqueue Runs DeliverySystem DeliverySteps

/-- What the processing of outbox rows leaves behind: that a row was processed, and whether its
subscription was active then, and that it caused a POST, an attempts row or a DLQ entry. -/
inductive Mark where
  | processed (row : Nat) (active : Bool)
  | caused (row : Nat)
  deriving DecidableEq

def isActive (db : Tables) (subscriptionId : Nat) : Bool :=
  (db.subscriptions.find? (fun s => s.id = subscriptionId)).any Subscription.active

/-- A POST, an attempts row or a DLQ entry. -/
def leavesTrace : Effect → Bool
  | .send | .write (.insertAttempt _) | .write (.upsertDlq _) => true
  | _ => false

def caused (effect : Effect) (row : Option Nat) : List Mark :=
  if leavesTrace effect then row.toList.map .caused else []

/-- A worker processes a row with the subscription that it reads. -/
def processedByWorker (db : Tables) : WorkerPc → List Mark
  | .selectSubscription item _ => [.processed item.id (isActive db item.subscriptionId)]
  | _ => []

/-- A call processes a row when it starts to deliver it. -/
def processedByCall (db : Tables) : CallPc → CallPc → List Mark
  | .loop _ _, .deliver _ outboxId sub _ _ => [.processed outboxId (isActive db sub.id)]
  | _, _ => []

section

variable {ι : Type} [Fintype ι] [DecidableEq ι]

def marks (c : Config) (s : State ι) : Action ι → List Mark
  | .worker i =>
    match nextWorker c s i with
    | some (effect, _) =>
      processedByWorker s.db (s.worker i).pc ++
        caused effect ((s.worker i).pc.processing.map OutboxRow.id)
    | none => []
  | .caller =>
    match nextCaller c s with
    | some (effect, pc) =>
      processedByCall s.db s.caller.pc pc ++ caused effect (CallPc.outboxId s.caller.pc)
    | none => []
  | _ => []

/-- The row whose attempts a worker finds used up, with an inactive subscription. -/
def exhaustedInactive : WorkerPc → Option OutboxRow
  | .deliver item _ sub (.returned false) =>
    if sub.active = false ∧ item.maxAttempts ≤ item.attempts + 1 then some item else none
  | _ => none

def nextSubscription : CallPc → Option Subscription
  | .loop _ (sub :: _) => some sub
  | _ => none

/-- No worker uses up the attempts of a row that was never processed while its subscription was
active, and no inline delivery starts for a subscription that is inactive by then. -/
def SkipsInactive (c : Config) (p : State ι × List Mark) : Action ι → Prop
  | .worker i => ∀ item ∈ exhaustedInactive (p.1.worker i).pc, .processed item.id true ∈ p.2
  | .caller => c.inlineDelivery = true →
    ∀ sub ∈ nextSubscription p.1.caller.pc, isActive p.1.db sub.id = true
  | _ => True

instance (c : Config) (p : State ι × List Mark) (a : Action ι) : Decidable (SkipsInactive c p a) :=
  match a with
  | .worker i => inferInstanceAs (Decidable (∀ item ∈ exhaustedInactive (p.1.worker i).pc,
      .processed item.id true ∈ p.2))
  | .caller => inferInstanceAs (Decidable (c.inlineDelivery = true →
      ∀ sub ∈ nextSubscription p.1.caller.pc, isActive p.1.db sub.id = true))
  | .workerResponse _ _ | .workerFailure _ | .request _ | .callerResponse _ | .callerFailure
  | .putSubscription _ | .tick => isTrue trivial

/-- What a worker has seen of the subscription by the time it delivers. -/
def WorkerOk (trace : List Mark) : WorkerPc → Prop
  | .deliver item _ sub pc =>
    (sub.active = true → .processed item.id true ∈ trace) ∧ (sub.active = false → pc = .returned false)
  | .upsertDlq item _ _ => .processed item.id true ∈ trace
  | _ => True

theorem WorkerOk.mono {trace more : List Mark} {pc : WorkerPc} (h : WorkerOk trace pc) :
    WorkerOk (trace ++ more) pc := by
  cases pc with
  | deliver item todo sub pc => exact ⟨fun hactive => List.mem_append_left _ (h.1 hactive), h.2⟩
  | upsertDlq item todo sub => exact List.mem_append_left _ h
  | _ => trivial

structure Inv (p : State ι × List Mark) : Prop where
  worker : ∀ i, WorkerOk p.2 (p.1.worker i).pc
  caller : ∀ row ∈ CallPc.outboxId p.1.caller.pc, .processed row true ∈ p.2
  caused : ∀ row, .caused row ∈ p.2 → .processed row true ∈ p.2

omit [Fintype ι] [DecidableEq ι] in
theorem inv_init : Inv ((init, []) : State ι × List Mark) := by
  refine ⟨fun i => trivial, fun row hr => ?_, fun row hr => absurd hr List.not_mem_nil⟩
  cases hr

theorem mem_caused {effect : Effect} {rows : Option Nat} {row : Nat}
    (h : .caused row ∈ caused effect rows) : leavesTrace effect = true ∧ row ∈ rows := by
  rw [InactiveSkipped.caused] at h
  split at h
  · next htrace =>
    obtain ⟨row', hr, heq⟩ := List.mem_map.mp h
    cases heq
    exact ⟨htrace, Option.mem_toList.mp hr⟩
  · cases h

theorem start_inactive {d : Delivery} (h : d.subscription.active = false) :
    d.start = .returned false := by
  rw [Delivery.start, h]
  rfl

/-- A worker's step, with what it marks: a POST or a row of a table is caused for a row that
was processed while its subscription was active. -/
theorem worker_marks {db : Tables} {now n : Nat} {locked : Nat → Bool} {pc pc' : WorkerPc}
    {effect : Effect} {trace : List Mark} (h : WorkerOk trace pc)
    (hstep : WorkerStep db now n locked pc effect pc')
    (hok : ∀ item ∈ exhaustedInactive pc, .processed item.id true ∈ trace) :
    WorkerOk (trace ++ processedByWorker db pc) pc' ∧
      (leavesTrace effect = true → ∀ item ∈ pc.processing, .processed item.id true ∈ trace) := by
  cases hstep with
  | @found item todo sub hfind =>
    refine ⟨⟨fun hactive => ?_, fun hinactive => start_inactive hinactive⟩, nofun⟩
    apply List.mem_append_right
    rw [processedByWorker, isActive, hfind, Option.any_some, hactive]
    exact List.mem_singleton.mpr rfl
  | @deliver item todo sub pc pc' effect hnext =>
    cases hactive : sub.active with
    | true =>
      have hprocessed := h.1 hactive
      refine ⟨⟨fun _ => List.mem_append_left _ hprocessed, fun hinactive => ?_⟩, fun _ item' hitem => ?_⟩
      · rw [hactive] at hinactive
        cases hinactive
      · cases hitem
        exact hprocessed
    | false =>
      rw [h.2 hactive] at hnext
      cases hnext
  | @exhausted item todo sub _ hmax =>
    refine ⟨List.mem_append_left _ ?_, nofun⟩
    cases hactive : sub.active with
    | true => exact h.1 hactive
    | false =>
      apply hok item
      rw [exhaustedInactive, if_pos ⟨hactive, hmax⟩]
      rfl
  | upsertDlq =>
    refine ⟨trivial, fun _ item' hitem => ?_⟩
    cases hitem
    exact h
  | poll | done | claim _ | claimed | missing _ | failMissing _ | delivered _ | retry _ _ | commitItem
  | count => exact ⟨trivial, nofun⟩

theorem call_marks {c : Config} {db : Tables} {fresh now : Nat} {locked : Nat → Bool} {pc pc' : CallPc}
    {effect : Effect} {trace : List Mark}
    (h : ∀ row ∈ CallPc.outboxId pc, .processed row true ∈ trace)
    (hstep : CallStep c db fresh now locked pc effect pc')
    (hok : c.inlineDelivery = true → ∀ sub ∈ nextSubscription pc, isActive db sub.id = true) :
    ∀ row ∈ CallPc.outboxId pc', .processed row true ∈ trace ++ processedByCall db pc pc' := by
  cases hstep with
  | @inline drift sub todo hinline =>
    intro row hr
    cases hr
    apply List.mem_append_right
    rw [processedByCall, hok hinline sub rfl]
    exact List.mem_singleton.mpr rfl
  | deliver hnext => exact fun row hr => List.mem_append_left _ (h row hr)
  | refused | drift _ _ | noDrift _ _ | unclassified | classified _ | selected | done | queued _ | mark _
  | count | commit =>
    intro row hr
    cases hr

theorem isActive_view (session : Session) (db : Tables) (id : Nat) :
    isActive (session.view db) id = isActive db id := by
  rw [isActive, isActive, view_subscriptions]

variable {c : Config} {s s' : State ι} {trace : List Mark}

/-- What a step marks keeps the invariant of the rows that caused something. -/
theorem caused_append (h : ∀ row, .caused row ∈ trace → .processed row true ∈ trace)
    {processed : List Mark} (hprocessed : ∀ row, .caused row ∉ processed) {effect : Effect}
    {rows : Option Nat} (hnew : leavesTrace effect = true → ∀ row ∈ rows, .processed row true ∈ trace)
    (row : Nat) (hr : .caused row ∈ trace ++ (processed ++ caused effect rows)) :
    .processed row true ∈ trace ++ (processed ++ caused effect rows) := by
  apply List.mem_append_left
  obtain hr | hr := List.mem_append.mp hr
  · exact h row hr
  · obtain hr | hr := List.mem_append.mp hr
    · exact absurd hr (hprocessed row)
    · obtain ⟨htrace, hr⟩ := mem_caused hr
      exact hnew htrace row hr

theorem not_caused_worker (db : Tables) (pc : WorkerPc) (row : Nat) :
    .caused row ∉ processedByWorker db pc := by
  unfold processedByWorker
  split
  · exact fun hm => by cases List.mem_singleton.mp hm
  · exact List.not_mem_nil

theorem not_caused_call (db : Tables) (pc pc' : CallPc) (row : Nat) :
    .caused row ∉ processedByCall db pc pc' := by
  unfold processedByCall
  split
  · exact fun hm => by cases List.mem_singleton.mp hm
  · exact List.not_mem_nil

theorem inv_worker (h : Inv (s, trace)) {i : ι}
    (hok : ∀ item ∈ exhaustedInactive (s.worker i).pc, .processed item.id true ∈ trace)
    (hs : stepWorker c s i = some s') : Inv (s', trace ++ marks c s (.worker i)) := by
  obtain ⟨effect, pc, hnext⟩ := exists_nextWorker hs
  have hmarks : marks c s (.worker i) = processedByWorker s.db (s.worker i).pc ++
      caused effect ((s.worker i).pc.processing.map OutboxRow.id) := by
    simp only [marks, hnext]
  obtain ⟨hpc, hnew⟩ := worker_marks (h.worker i) (OutboxWorker.next_cases hnext) hok
  have hview : processedByWorker ((s.worker i).session.view s.db) (s.worker i).pc =
      processedByWorker s.db (s.worker i).pc := by
    unfold processedByWorker
    split
    · rw [isActive_view]
    · rfl
  rw [hmarks, stepWorker_eq hnext hs]
  refine ⟨fun j => ?_, fun row hr => List.mem_append_left _ (h.caller row hr),
    caused_append h.caused (not_caused_worker _ _) fun htrace row hr => ?_⟩
  · change WorkerOk _ ((s.setWorker i _).worker j).pc
    rw [DeliveryInvariant.setWorker_worker]
    split
    · rw [← List.append_assoc, ← hview]
      exact hpc.mono
    · exact (h.worker j).mono
  · obtain ⟨item, hitem, rfl⟩ := Option.map_eq_some_iff.mp hr
    exact hnew htrace item hitem

theorem inv_caller (h : Inv (s, trace))
    (hok : c.inlineDelivery = true →
      ∀ sub ∈ nextSubscription s.caller.pc, isActive s.db sub.id = true)
    (hs : stepCaller c s = some s') : Inv (s', trace ++ marks c s .caller) := by
  obtain ⟨effect, pc, hnext⟩ := exists_nextCaller hs
  have hmarks : marks c s .caller = processedByCall s.db s.caller.pc pc ++
      caused effect (CallPc.outboxId s.caller.pc) := by
    simp only [marks, hnext]
  have hview : processedByCall (s.caller.session.view s.db) s.caller.pc pc =
      processedByCall s.db s.caller.pc pc := by
    unfold processedByCall
    split
    · rw [isActive_view]
    · rfl
  have hpc := call_marks h.caller (Enqueue.next_cases hnext) (by simpa only [isActive_view] using hok)
  rw [hmarks, stepCaller_eq hnext hs]
  refine ⟨fun j => (h.worker j).mono, fun row hr => ?_,
    caused_append h.caused (not_caused_call _ _ _) fun _ row hr => h.caller row hr⟩
  rw [← List.append_assoc, ← hview]
  exact List.mem_append_left _ (hpc row hr)

theorem inv_step {p p' : State ι × List Mark} {a : Action ι} (h : Inv p) (hok : SkipsInactive c p a)
    (hs : traced (step c) (marks c) p a = some p') : Inv p' := by
  obtain ⟨s, trace⟩ := p
  obtain ⟨s', hstep, rfl⟩ := Option.map_eq_some_iff.mp hs
  change step c s a = some s' at hstep
  have hcases := step_cases hstep
  cases a with
  | worker i => exact inv_worker h hok hstep
  | caller => exact inv_caller h hok hstep
  | workerResponse i outcome =>
    cases hcases with
    | @workerResponse _ _ item todo sub attempt hpc =>
      have hi := h.worker i
      rw [hpc] at hi
      change Inv (_, trace ++ [])
      rw [List.append_nil]
      refine ⟨fun j => ?_, h.caller, h.caused⟩
      change WorkerOk _ ((s.setWorker i _).worker j).pc
      rw [DeliveryInvariant.setWorker_worker]
      split
      · exact ⟨hi.1, fun hinactive => absurd (hi.2 hinactive) nofun⟩
      · exact h.worker j
  | workerFailure i =>
    cases hcases
    change Inv (_, trace ++ [])
    rw [List.append_nil]
    refine ⟨fun j => ?_, h.caller, h.caused⟩
    change WorkerOk _ ((s.setWorker i _).worker j).pc
    rw [DeliveryInvariant.setWorker_worker]
    split
    · trivial
    · exact h.worker j
  | request call | callerFailure =>
    cases hcases
    change Inv (_, trace ++ [])
    rw [List.append_nil]
    refine ⟨h.worker, fun row hr => ?_, h.caused⟩
    cases hr
  | callerResponse outcome =>
    cases hcases with
    | callerResponse hpc =>
      change Inv (_, trace ++ [])
      rw [List.append_nil]
      refine ⟨h.worker, fun row hr => h.caller row ?_, h.caused⟩
      rw [hpc]
      exact hr
  | putSubscription sub | tick =>
    cases hcases
    change Inv (_, trace ++ [])
    rw [List.append_nil]
    exact ⟨h.worker, h.caller, h.caused⟩

/-- A row whose subscription was inactive each time it was processed causes no POST, no
attempts row and no DLQ entry. -/
theorem inactive_rows_skipped (c : Config) (p : State ι × List Mark)
    (h : Reachable (traced (step c) (marks c)) (SkipsInactive c) (init, []) p) (row : Nat)
    (hinactive : .processed row true ∉ p.2) : .caused row ∉ p.2 := by
  have hinv : Inv p := h.invariant inv_init fun _ _ _ hi hok hs => inv_step hi hok hs
  exact fun hr => hinactive (hinv.caused row hr)

end

def deactivate (id : Nat) : Action Unit := .putSubscription { sampleSubscription id with active := false }

/-- A poll that finds the subscription inactive: the row waits for the next one. -/
theorem inactive_rows_skipped_one_poll :
    let c := sampleConfig 50 false
    let acts : List (Action Unit) := List.flatten [driftWith [7], List.replicate 7 .caller,
      [deactivate 7], List.replicate 8 (.worker ())]
    ∃ p : State Unit × List Mark,
      run (traced (step c) (marks c)) (SkipsInactive c) (init, []) acts = some p ∧
        p.2 = [.processed 5 false] ∧ .caused 5 ∉ p.2 := by
  intro c acts
  have hrun : (run (traced (step c) (marks c)) (SkipsInactive c) (init, []) acts).map Prod.snd =
      some [.processed 5 false] := by decide +kernel
  obtain ⟨p, hp, htrace⟩ := Option.map_eq_some_iff.mp hrun
  refine ⟨p, hp, htrace, ?_⟩
  apply inactive_rows_skipped c p (reachable_run _ _ .start hp)
  rw [htrace]
  decide

/-- Five polls that find the subscription inactive count as failed attempts. -/
theorem inactive_row_exhausted :
    let c := sampleConfig 50 false
    let acts : List (Action Unit) := List.flatten [driftWith [7], List.replicate 7 .caller,
      [deactivate 7], List.replicate 8 (.worker ()), List.replicate 2 .tick,
      List.replicate 8 (.worker ()), List.replicate 4 .tick, List.replicate 8 (.worker ()),
      List.replicate 8 .tick, List.replicate 8 (.worker ()), List.replicate 16 .tick,
      List.replicate 7 (.worker ())]
    ∃ p : State Unit × List Mark,
      run (traced (step c) (marks c)) always (init, []) acts = some p ∧ .processed 5 true ∉ p.2 ∧
        .caused 5 ∈ p.2 ∧ p.1.log = [] ∧
        p.1.db.dlq.map DlqEntry.failureReason = ["outbox max attempts exhausted"] := by
  intro c acts
  have hrun : (run (traced (step c) (marks c)) always (init, []) acts).map
      (fun p => (p.2, p.1.log, p.1.db.dlq.map DlqEntry.failureReason)) =
      some (List.replicate 5 (.processed 5 false) ++ [.caused 5], [],
        ["outbox max attempts exhausted"]) := by decide +kernel
  obtain ⟨p, hp, hresult⟩ := Option.map_eq_some_iff.mp hrun
  simp only [Prod.mk.injEq] at hresult
  obtain ⟨htrace, hlog, hdlq⟩ := hresult
  refine ⟨p, hp, ?_, ?_, hlog, hdlq⟩
  · rw [htrace]
    decide
  · rw [htrace]
    decide

end SchemaPilot.InactiveSkipped
