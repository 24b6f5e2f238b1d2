import SchemaPilot.Conservation
import SchemaPilot.DeliveryInvariant

namespace SchemaPilot.DeliveryLedger

open Webhook OutboxWorker Enqueue Runs DeliverySystem Conservation

/-- The POST was answered, with 2xx or not. -/
def isAnswer (ok : Bool) : Event → Bool
  | .returned _ outcome => outcome.ok = ok
  | .sent _ => false

def answers (ok : Bool) (log : List Event) : Nat := log.countP (isAnswer ok)

def recorded (ok : Bool) (db : Tables) : Nat := db.attempts.countP (fun a => a.success = ok)

def isRecord (ok : Bool) : Write → Bool
  | .insertAttempt a => a.success = ok
  | _ => false

/-- The records that an effect makes. -/
def records (ok : Bool) : Effect → Nat
  | .write w => if isRecord ok w then 1 else 0
  | _ => 0

def unsaved (ok : Bool) (session : Session) : Nat := session.writes.countP (isRecord ok)

/-- An answer that is yet to be recorded. -/
def owed (ok : Bool) : DeliverPc → Nat
  | .succeeded _ => if ok then 1 else 0
  | .failed _ _ => if ok then 0 else 1
  | _ => 0

def workerHolds (ok : Bool) (w : Worker) : Nat :=
  unsaved ok w.session +
    match w.pc with
    | .deliver _ _ _ pc => owed ok pc
    | _ => 0

def callerHolds (ok : Bool) (w : Caller) : Nat :=
  unsaved ok w.session +
    match w.pc with
    | .deliver _ _ _ _ pc => owed ok pc
    | _ => 0

@[simp] theorem workerHolds_deliver (ok : Bool) (item : OutboxRow) (todo : List OutboxRow) (sub : Subscription)
    (pc : DeliverPc) (session : Session) :
    workerHolds ok ⟨.deliver item todo sub pc, session⟩ = unsaved ok session + owed ok pc := rfl

@[simp] theorem callerHolds_deliver (ok : Bool) (drift : Drift) (outboxId : Nat) (sub : Subscription)
    (todo : List Subscription) (pc : DeliverPc) (session : Session) :
    callerHolds ok ⟨.deliver drift outboxId sub todo pc, session⟩ = unsaved ok session + owed ok pc := rfl

section Effects

variable {ok : Bool} {session : Session} {db : Tables}

theorem recorded_view (ok : Bool) (session : Session) (db : Tables) :
    recorded ok (session.view db) = recorded ok db + unsaved ok session := by
  rw [Session.view, unsaved]
  induction session.writes using List.reverseRecOn with
  | nil => rfl
  | append_singleton writes w ih =>
    rw [List.foldl_concat, List.countP_append, List.countP_singleton, ← Nat.add_assoc, ← ih]
    cases w with
    | insertAttempt a =>
      simp only [recorded, Write.apply, List.countP_append, List.countP_singleton, isRecord]
      rfl
    | setRegistry | insertOutbox | updateOutbox | upsertDlq => rfl

/-- What an effect does to the records of its session, saved or not. -/
theorem run_records (clock : Nat) (ok : Bool) (db : Tables) (session : Session) (effect : Effect)
    (hclose : effect = .close → unsaved ok session = 0) :
    recorded ok (effect.run clock db session).1 + unsaved ok (effect.run clock db session).2 =
      recorded ok db + unsaved ok session + records ok effect := by
  cases effect with
  | read | selectForUpdate | send => rfl
  | commit => exact recorded_view ok session db
  | close =>
    rw [hclose rfl]
    rfl
  | write w =>
    have hdb : recorded ok (reserveIds db w) = recorded ok db := by cases w <;> rfl
    simp only [Effect.run, unsaved, records, List.countP_append, List.countP_singleton, hdb]
    omega

/-- Each statement of a delivery records what it owes. -/
theorem owed_next {d : Delivery} {pc pc' : DeliverPc} {effect : Effect} (ok : Bool)
    (h : d.next pc = some (effect, pc')) :
    owed ok pc = owed ok pc' + records ok effect ∧ effect ≠ .close := by
  cases pc with
  | awaiting | returned => cases h
  | post | dlq | commit =>
    cases h
    exact ⟨rfl, nofun⟩
  | succeeded attempt =>
    cases h
    cases ok <;> exact ⟨rfl, nofun⟩
  | failed attempt reason =>
    obtain ⟨rfl, rfl⟩ := Prod.mk.inj (Option.some.inj h)
    refine ⟨?_, nofun⟩
    have hnext : owed ok (if attempt = d.maxAttempts then
        if d.persistDlq then .dlq attempt reason else .commit false else .post (attempt + 1)) = 0 := by
      split_ifs <;> rfl
    rw [hnext]
    cases ok <;> rfl

theorem owed_start (ok : Bool) (d : Delivery) : owed ok d.start = 0 := by
  rw [Delivery.start]
  split <;> rfl

end Effects

section Steps

variable {c : Config} {db : Tables} {clock now fresh batchSize : Nat} {locked : Nat → Bool} {ok : Bool}

/-- Between the items of a batch a worker has recorded nothing that is not saved. -/
def WorkerQuiet (ok : Bool) (w : Worker) : Prop :=
  match w.pc with
  | .poll | .loop _ | .count => unsaved ok w.session = 0
  | _ => True

theorem WorkerQuiet.holds_eq_zero {w : Worker} (h : WorkerQuiet ok w) (hpc : w.pc.processing = none) :
    workerHolds ok w = 0 := by
  obtain ⟨pc, session⟩ := w
  cases pc with
  | poll | loop | count => exact h
  | commitClaim | selectSubscription | failMissing | deliver | upsertDlq | commitItem => cases hpc

def CallerQuiet (ok : Bool) (w : Caller) : Prop :=
  match w.pc with
  | .idle | .upsert _ | .classify _ _ => unsaved ok w.session = 0
  | _ => True

theorem unsaved_quiet {session : Session} {w : Write} (h : isRecord ok w = false) :
    unsaved ok { session with writes := session.writes ++ [w] } = unsaved ok session := by
  simp [unsaved, h]

theorem worker_step {w : Worker} {effect : Effect} {pc : WorkerPc} (hquiet : WorkerQuiet ok w)
    (h : WorkerStep (w.session.view db) clock batchSize locked w.pc effect pc) :
    recorded ok (effect.run clock db w.session).1 + workerHolds ok ⟨pc, (effect.run clock db w.session).2⟩ =
        recorded ok db + workerHolds ok w ∧
      WorkerQuiet ok ⟨pc, (effect.run clock db w.session).2⟩ := by
  obtain ⟨pc₀, session⟩ := w
  dsimp only at h ⊢
  have hrun := run_records clock ok db session effect
  cases h with
  | count =>
    have hnone : unsaved ok session = 0 := hquiet
    exact ⟨hrun fun _ => hnone, rfl⟩
  | deliver hnext =>
    obtain ⟨howed, hne⟩ := owed_next ok hnext
    have hrun := hrun fun heq => absurd heq hne
    refine ⟨?_, trivial⟩
    simp only [workerHolds_deliver]
    omega
  | found =>
    refine ⟨?_, trivial⟩
    have hrun := hrun nofun
    simp only [workerHolds_deliver, owed_start]
    exact hrun
  | poll => exact ⟨hrun nofun, hquiet⟩
  | done => exact ⟨hrun nofun, hquiet⟩
  | commitItem => exact ⟨hrun nofun, rfl⟩
  | claim | claimed | missing | failMissing | delivered | exhausted | retry | upsertDlq => exact ⟨hrun nofun, trivial⟩

theorem caller_step {w : Caller} {effect : Effect} {pc : CallPc} (hquiet : CallerQuiet ok w)
    (h : CallStep c (w.session.view db) fresh now locked w.pc effect pc) :
    recorded ok (effect.run clock db w.session).1 + callerHolds ok ⟨pc, (effect.run clock db w.session).2⟩ =
        recorded ok db + callerHolds ok w ∧
      CallerQuiet ok ⟨pc, (effect.run clock db w.session).2⟩ := by
  obtain ⟨pc₀, session⟩ := w
  dsimp only at h ⊢
  have hrun := run_records clock ok db session effect
  cases h with
  | refused | unclassified =>
    have hnone : unsaved ok session = 0 := hquiet
    exact ⟨hrun fun _ => hnone, rfl⟩
  | deliver hnext =>
    obtain ⟨howed, hne⟩ := owed_next ok hnext
    have hrun := hrun fun heq => absurd heq hne
    refine ⟨?_, trivial⟩
    simp only [callerHolds_deliver]
    omega
  | inline =>
    refine ⟨?_, trivial⟩
    have hrun := hrun nofun
    simp only [callerHolds_deliver, owed_start]
    exact hrun
  | drift =>
    have hnone : unsaved ok session = 0 := hquiet
    exact ⟨hrun nofun, (unsaved_quiet rfl).trans hnone⟩
  | commit => exact ⟨hrun nofun, rfl⟩
  | noDrift | classified | selected | done | queued | mark | count => exact ⟨hrun nofun, trivial⟩

end Steps

section Runs

variable {ι : Type} [Fintype ι] [DecidableEq ι] {c : Config} {s s' : State ι} {ok : Bool}

/-- The answers that are recorded, or that a process has yet to record or to save. -/
def total (ok : Bool) (s : State ι) : Nat :=
  recorded ok s.db + ∑ i, workerHolds ok (s.worker i) + callerHolds ok s.caller

structure AllQuiet (ok : Bool) (s : State ι) : Prop where
  worker : ∀ i, WorkerQuiet ok (s.worker i)
  caller : CallerQuiet ok s.caller

def isCrash : Action ι → Bool
  | .workerFailure _ | .callerFailure => true
  | _ => false

def NoCrash (_ : State ι) (a : Action ι) : Prop := isCrash a = false

instance (s : State ι) (a : Action ι) : Decidable (NoCrash s a) := inferInstanceAs (Decidable (isCrash a = false))

theorem answers_sent (ok : Bool) (log : List Event) (effect : Effect) (row : Option Nat) :
    answers ok (log ++ sentRow effect row) = answers ok log := by
  have hnone : (sentRow effect row).countP (isAnswer ok) = 0 := by
    rw [List.countP_eq_zero]
    intro e he
    cases effect with
    | send =>
      obtain ⟨id, -, rfl⟩ := List.mem_map.mp he
      exact Bool.false_ne_true
    | _ => cases he
  rw [answers, List.countP_append, hnone, Nat.add_zero, answers]

theorem answers_returned (ok : Bool) (log : List Event) (row : Nat) (outcome : Outcome) :
    answers ok (log ++ [.returned row outcome]) = answers ok log + if outcome.ok = ok then 1 else 0 := by
  rw [answers, List.countP_append, List.countP_singleton, answers]
  simp only [isAnswer, decide_eq_true_eq]

theorem owed_answered (ok : Bool) (attempt : Nat) (outcome : Outcome) :
    owed ok (DeliverPc.answered attempt outcome) = if outcome.ok = ok then 1 else 0 := by
  rw [DeliverPc.answered]
  cases outcome.ok <;> cases ok <;> rfl

omit [Fintype ι] in
theorem AllQuiet.setWorker (h : AllQuiet ok s) (i : ι) {w : Worker} (hw : WorkerQuiet ok w) :
    ∀ j, WorkerQuiet ok (Function.update s.worker i w j) := by
  intro j
  by_cases hj : j = i
  · subst hj
    rwa [Function.update_self]
  · rw [Function.update_of_ne hj]
    exact h.worker j

/-- A step makes up for every answer, unless a process stops and what it holds is lost. -/
theorem total_step {a : Action ι} (h : AllQuiet ok s) (hs : step c s a = some s') :
    AllQuiet ok s' ∧
      (total ok s' + answers ok s.log = total ok s + answers ok s'.log ∨
        isCrash a = true ∧ total ok s' ≤ total ok s ∧ s'.log = s.log) := by
  cases step_cases hs with
  | @worker i effect pc hstep =>
    obtain ⟨hsum, hquiet⟩ := worker_step (h.worker i) hstep
    refine ⟨⟨h.setWorker i hquiet, h.caller⟩, .inl ?_⟩
    have hupdate := sum_update (workerHolds ok) s.worker i ⟨pc, (effect.run s.clock s.db (s.worker i).session).2⟩
    simp only [total, State.setWorker, answers_sent]
    omega
  | @workerResponse i outcome item todo sub attempt hpc =>
    refine ⟨⟨h.setWorker i trivial, h.caller⟩, .inl ?_⟩
    have hupdate := sum_update (workerHolds ok) s.worker i
      ⟨.deliver item todo sub (DeliverPc.answered attempt outcome), (s.worker i).session⟩
    have hold : workerHolds ok (s.worker i) = unsaved ok (s.worker i).session := by rw [workerHolds, hpc]; rfl
    have hnew : workerHolds ok ⟨.deliver item todo sub (DeliverPc.answered attempt outcome), (s.worker i).session⟩ =
        unsaved ok (s.worker i).session + if outcome.ok = ok then 1 else 0 := by
      rw [workerHolds_deliver, owed_answered]
    rw [hold, hnew] at hupdate
    simp only [total, State.setWorker, answers_returned]
    omega
  | @workerFailure i =>
    refine ⟨⟨h.setWorker i rfl, h.caller⟩, .inr ⟨rfl, ?_, rfl⟩⟩
    have hupdate := sum_update (workerHolds ok) s.worker i ⟨.poll, .closed⟩
    have hnone : workerHolds ok ⟨.poll, .closed⟩ = 0 := rfl
    simp only [total, State.setWorker]
    omega
  | @request call hpc =>
    refine ⟨⟨h.worker, rfl⟩, .inl ?_⟩
    have hquiet := h.caller
    rw [CallerQuiet, hpc] at hquiet
    have hold : callerHolds ok s.caller = 0 := by
      rw [callerHolds, hquiet, hpc]
      rfl
    have hnew : callerHolds ok ⟨.upsert call, .closed⟩ = 0 := rfl
    simp only [total, hold, hnew]
  | @caller effect pc hstep =>
    obtain ⟨hsum, hquiet⟩ := caller_step h.caller hstep
    refine ⟨⟨h.worker, hquiet⟩, .inl ?_⟩
    simp only [total, answers_sent]
    omega
  | @callerResponse outcome drift outboxId sub todo attempt hpc =>
    refine ⟨⟨h.worker, trivial⟩, .inl ?_⟩
    have hold : callerHolds ok s.caller = unsaved ok s.caller.session := by rw [callerHolds, hpc]; rfl
    have hnew : callerHolds ok ⟨.deliver drift outboxId sub todo (DeliverPc.answered attempt outcome),
        s.caller.session⟩ = unsaved ok s.caller.session + if outcome.ok = ok then 1 else 0 := by
      rw [callerHolds_deliver, owed_answered]
    simp only [total, answers_returned, hold, hnew]
    omega
  | callerFailure =>
    refine ⟨⟨h.worker, rfl⟩, .inr ⟨rfl, ?_, rfl⟩⟩
    have hnew : callerHolds ok ⟨.idle, .closed⟩ = 0 := rfl
    simp only [total, hnew]
    omega
  | putSubscription => exact ⟨⟨h.worker, h.caller⟩, .inl rfl⟩
  | tick => exact ⟨⟨h.worker, h.caller⟩, .inl rfl⟩

omit [DecidableEq ι] in
theorem total_init (ok : Bool) : AllQuiet ok (init : State ι) ∧ total ok (init : State ι) = 0 := by
  refine ⟨⟨fun _ => rfl, rfl⟩, ?_⟩
  rw [total]
  simp [init, recorded, Tables.empty, workerHolds, callerHolds, unsaved, Session.closed]

theorem total_le (ok : Bool) (h : Reachable (step c) always init s) :
    AllQuiet ok s ∧ total ok s ≤ answers ok s.log := by
  apply h.invariant (I := fun s => AllQuiet ok s ∧ total ok s ≤ answers ok s.log)
  · obtain ⟨hquiet, hzero⟩ := total_init (ι := ι) ok
    exact ⟨hquiet, hzero.trans_le (Nat.zero_le _)⟩
  · rintro s a s' ⟨hquiet, hle⟩ - hs
    obtain ⟨hquiet', heq | ⟨-, hless, hlog⟩⟩ := total_step hquiet hs
    · exact ⟨hquiet', by omega⟩
    · exact ⟨hquiet', hlog.symm ▸ hless.trans hle⟩

theorem total_eq (ok : Bool) (h : Reachable (step c) NoCrash init s) :
    AllQuiet ok s ∧ total ok s = answers ok s.log := by
  apply h.invariant (I := fun s => AllQuiet ok s ∧ total ok s = answers ok s.log)
  · exact total_init ok
  · rintro s a s' ⟨hquiet, heq⟩ hok hs
    obtain ⟨hquiet', hstep | ⟨hcrash, -⟩⟩ := total_step hquiet hs
    · exact ⟨hquiet', by omega⟩
    · cases (show isCrash a = false from hok).symm.trans hcrash

/-- Whatever the workers and the inline deliveries do, at most as many attempts are recorded as
successful as POSTs were answered with 2xx, and as failed as POSTs were answered otherwise; when no
process has stopped, no worker has a row at hand and no call is served, exactly as many. -/
theorem attempts_are_answers (c : Config) (s : State ι) (ok : Bool) :
    (Reachable (step c) always init s → recorded ok s.db ≤ answers ok s.log) ∧
      (Reachable (step c) NoCrash init s → (∀ i, (s.worker i).pc.processing = none) →
        s.caller.pc = .idle → recorded ok s.db = answers ok s.log) := by
  refine ⟨fun h => ?_, fun h hworkers hcaller => ?_⟩
  · have hle := (total_le ok h).2
    rw [total] at hle
    omega
  · obtain ⟨hquiet, heq⟩ := total_eq ok h
    have hnone : ∀ i, workerHolds ok (s.worker i) = 0 :=
      fun i => (hquiet.worker i).holds_eq_zero (hworkers i)
    have hidle := hquiet.caller
    rw [CallerQuiet, hcaller] at hidle
    rw [← heq, total, callerHolds, hidle, hcaller, Finset.sum_eq_zero fun i _ => hnone i]
    rfl

/-- An inline delivery is answered with 200. -/
theorem attempts_are_answers_inline :
    ∃ s : State Unit, Reachable (step (sampleConfig 50 true)) NoCrash init s ∧
      recorded true s.db = 1 ∧ answers true s.log = 1 := by
  have hrun : (run (step (sampleConfig 50 true)) NoCrash (init : State Unit)
      (driftWith [7] ++ List.replicate 5 .caller ++ [.callerResponse (.response 200)] ++
        List.replicate 6 .caller)).map (fun s => (decide ((s.worker ()).pc.processing = none),
          (step (sampleConfig 50 true) s (.request firstCall)).isSome, recorded true s.db)) =
      some (true, true, 1) := by decide +kernel
  obtain ⟨s, hs, hrest⟩ := Option.map_eq_some_iff.mp hrun
  simp only [Prod.mk.injEq, decide_eq_true_eq] at hrest
  obtain ⟨hworker, hcaller, hrecorded⟩ := hrest
  have hreach := reachable_run (step (sampleConfig 50 true)) NoCrash .start hs
  have hidle : s.caller.pc = .idle := by
    obtain ⟨s', hs'⟩ := Option.isSome_iff_exists.mp hcaller
    cases step_cases hs' with
    | request hpc => exact hpc
  refine ⟨s, hreach, hrecorded, ?_⟩
  exact ((attempts_are_answers _ s true).2 hreach (fun _ => hworker) hidle).symm.trans hrecorded

end Runs

end SchemaPilot.DeliveryLedger
