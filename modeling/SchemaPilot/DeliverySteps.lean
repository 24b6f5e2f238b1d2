import SchemaPilot.DeliveryInvariant

namespace SchemaPilot.DeliverySteps

open Webhook OutboxWorker Enqueue Runs DeliverySystem DeliveryInvariant

variable {ι : Type} {c : Config} {s s' : State ι} {effect : Effect}

section Worker

variable [DecidableEq ι] {i : ι} {pc pc' : WorkerPc}

/-- The state after a step of a worker. -/
def afterWorker (s : State ι) (i : ι) (effect : Effect) (pc : WorkerPc) : State ι :=
  { s.setWorker i ⟨pc, (effect.run s.clock s.db (s.worker i).session).2⟩ with
    db := (effect.run s.clock s.db (s.worker i).session).1
    log := s.log ++ sentRow effect ((s.worker i).pc.processing.map OutboxRow.id) }

/-- A step that neither commits nor posts. -/
theorem afterWorker_quiet (pc : WorkerPc) (hdb : (effect.run s.clock s.db (s.worker i).session).1 = s.db)
    (hlog : ∀ row, sentRow effect row = []) :
    afterWorker s i effect pc = s.setWorker i ⟨pc, (effect.run s.clock s.db (s.worker i).session).2⟩ := by
  rw [afterWorker, hdb, hlog, List.append_nil]
  rfl

/-- Such a step with the same batch. -/
theorem inv_stay (h : Inv s) (hpc : (s.worker i).pc = pc)
    (hdb : (effect.run s.clock s.db (s.worker i).session).1 = s.db)
    (hlog : ∀ row, sentRow effect row = []) (hbatch : pc'.batch = pc.batch) (htodo : todo pc' = todo pc)
    (hstate : WorkerLocal s.db s.log ⟨pc', (effect.run s.clock s.db (s.worker i).session).2⟩) :
    Inv (afterWorker s i effect pc') := by
  rw [afterWorker_quiet pc' hdb hlog]
  exact h.stay (hbatch.trans (congrArg _ hpc.symm)) (htodo.trans (congrArg _ hpc.symm)) hstate

theorem inv_commit (h : Inv s) (hpc : (s.worker i).pc = pc) {item : OutboxRow}
    (hitem : pc.processing = some item) (hbatch : pc'.batch.Sublist pc.batch)
    (htodo : ∀ row ∈ todo pc', row ∈ todo pc)
    (hstate : WorkerLocal ((s.worker i).session.view s.db) s.log ⟨pc', .closed⟩) :
    Inv (afterWorker s i .commit pc') := by
  have hw := h.worker i
  obtain rfl := hpc
  have hids : ((s.worker i).session.view s.db).outbox.map OutboxRow.id =
      s.db.outbox.map OutboxRow.id := (hw.writes hitem).view_ids
  have hlog : sentRow .commit ((s.worker i).pc.processing.map OutboxRow.id) = [] := rfl
  rw [afterWorker, hlog, List.append_nil]
  refine h.commitWorker hitem ⟨fun row hr => ?_, hw.nodup.sublist (hbatch.map _),
    fun row hr => hw.undelivered row (htodo row hr), hstate⟩ fun _ hr => hbatch.subset hr
  rw [visible_iff, hids, ← visible_iff]
  exact hw.visible row (hbatch.subset hr)

/-- The UPDATE of the row after statements that leave the outbox alone. -/
theorem writes_update {log : List Event} {item : OutboxRow} {writes : List Write} {u : OutboxUpdate}
    (hquiet : ∀ x ∈ writes, Quiet x) (hu : u.status = .PENDING → ¬Delivered log item.id) :
    Writes log item (writes ++ [.updateOutbox item.id u]) :=
  forall_mem_concat (fun x hx => .inl (hquiet x hx)) (.inr ⟨u, rfl, hu⟩)

theorem inv_deliver (h : Inv s) {item : OutboxRow} {rest : List OutboxRow} {sub : Subscription}
    {p p' : DeliverPc} (hpc : (s.worker i).pc = .deliver item rest sub p)
    (hnext : (delivery item sub).next p = some (effect, p')) :
    Inv (afterWorker s i effect (.deliver item rest sub p')) := by
  have hw := h.worker i
  have hl := hw.state
  rw [WorkerLocal] at hl
  simp only [hpc] at hl
  obtain ⟨hquiet, hp, hnd⟩ := hl
  cases p with
  | post attempt =>
    cases hnext
    rw [afterWorker, hpc]
    exact h.sendWorker (hw.next (by rw [hpc]; exact List.Sublist.refl _)
      (fun _ hr => by rw [hpc]; exact hr) ⟨hquiet, hp, hnd⟩) (fun _ hr => by rw [hpc]; exact hr) (hnd rfl)
  | awaiting attempt | returned ok => cases hnext
  | succeeded attempt =>
    cases hnext
    exact inv_stay h hpc rfl (fun _ => rfl) rfl rfl
      ⟨forall_mem_concat hquiet trivial, hp, fun hwon => absurd hwon.symm Bool.false_ne_true⟩
  | failed attempt reason | dlq attempt reason =>
    cases hnext
    exact inv_stay h hpc rfl (fun _ => rfl) rfl rfl ⟨forall_mem_concat hquiet trivial, hp, fun _ => hnd rfl⟩
  | commit ok =>
    cases hnext
    refine inv_commit h hpc rfl (List.Sublist.refl _) (fun _ => id)
      ⟨fun _ hx => absurd hx List.not_mem_nil, not_pending_view hquiet hp, fun hwon => hnd ?_⟩
    cases ok with
    | true => cases hwon
    | false => rfl

variable [Fintype ι]

/-- The row between the commit of an inline delivery that was answered with 2xx and the
UPDATE that marks it. -/
def unmarked : CallPc → Option Nat
  | .deliver _ outboxId _ _ (.returned true) => some outboxId
  | _ => none

/-- A poll fetches no row of another worker's batch, and none that a call is about to mark. -/
def PollsFree (c : Config) (s : State ι) (i : ι) : Prop :=
  (s.worker i).pc = .poll → ∀ row ∈ selectDue s.db.outbox s.clock c.batchSize (lockedFor s i),
    (∀ j, j ≠ i → ∀ row' ∈ (s.worker j).pc.batch, row.id ≠ row'.id) ∧ unmarked s.caller.pc ≠ some row.id

/-- The next step of a worker, in the tables as it sees them. -/
def nextWorker (c : Config) (s : State ι) (i : ι) : Option (Effect × WorkerPc) :=
  OutboxWorker.next ((s.worker i).session.view s.db) s.clock c.batchSize (lockedFor s i) (s.worker i).pc

theorem stepWorker_eq (hnext : nextWorker c s i = some (effect, pc))
    (hs : stepWorker c s i = some s') : s' = afterWorker s i effect pc := by
  rw [nextWorker] at hnext
  simp only [stepWorker, hnext, Option.some.injEq] at hs
  exact hs.symm

theorem exists_nextWorker (hs : stepWorker c s i = some s') :
    ∃ effect pc, nextWorker c s i = some (effect, pc) := by
  simp only [stepWorker] at hs
  split at hs
  · cases hs
  · next effect pc hn => exact ⟨effect, pc, hn⟩

/-- A row that a poll may fetch has not been delivered. -/
theorem undelivered_of_due (h : Inv s) {row : OutboxRow}
    (hr : row ∈ selectDue s.db.outbox s.clock c.batchSize (lockedFor s i))
    (hmarked : unmarked s.caller.pc ≠ some row.id) : ¬Delivered s.log row.id := by
  obtain ⟨hm, hstatus, hfree⟩ := mem_selectDue hr
  intro hd
  rcases h.caller.settled row.id hd ⟨row, hm, rfl, hstatus⟩ with ⟨drift, sub, rest, p, hpc, hwon⟩ | ⟨u, hu⟩
  · by_cases hopen : uncommitted p
    · obtain ⟨row', hr', hid⟩ := h.caller.posting row.id ⟨drift, sub, rest, p, hpc, hopen⟩
      exact (List.nodup_append.mp h.caller.ids).2.2 _ (List.mem_map_of_mem hm) _
        (List.mem_map_of_mem hr') hid.symm
    · cases p with
      | returned ok =>
        cases ok with
        | true => exact hmarked (by rw [hpc]; rfl)
        | false => cases hwon
      | _ => exact hopen rfl
  · have hlocked := (h.caller.updates row.id u hu).2
    simp only [lockedFor, hlocked, decide_true, Bool.or_true] at hfree
    cases hfree

theorem inv_poll (h : Inv s) (hok : PollsFree c s i) (hpc : (s.worker i).pc = .poll) :
    Inv (afterWorker s i
      (.selectForUpdate ((selectDue s.db.outbox s.clock c.batchSize (lockedFor s i)).map OutboxRow.id))
      (.loop (selectDue s.db.outbox s.clock c.batchSize (lockedFor s i)))) := by
  have hl := (h.worker i).state
  rw [WorkerLocal] at hl
  simp only [hpc] at hl
  have hok := hok hpc
  rw [afterWorker_quiet _ rfl fun _ => rfl]
  refine h.move ⟨fun row hr => ?_, nodup_selectDue (List.nodup_append.mp h.caller.ids).1,
    fun row hr => undelivered_of_due h hr (hok row hr).2, hl⟩ fun j hji row hr => (hok row hr).1 j hji
  exact ⟨row, (mem_selectDue hr).1, rfl⟩

theorem inv_workerStep (h : Inv s) (hok : PollsFree c s i)
    (hstep : WorkerStep ((s.worker i).session.view s.db) s.clock c.batchSize (lockedFor s i)
      (s.worker i).pc effect pc') : Inv (afterWorker s i effect pc') := by
  have hw := h.worker i
  have hl := hw.state
  rw [WorkerLocal] at hl
  generalize hpc : (s.worker i).pc = pc at hstep
  simp only [hpc] at hl
  cases hstep with
  | poll =>
    have hview : (s.worker i).session.view s.db = s.db := by rw [Session.view, hl, List.foldl_nil]
    rw [hview]
    exact inv_poll h hok hpc
  | done =>
    rw [afterWorker_quiet _ rfl fun _ => rfl]
    exact h.goto (List.nil_sublist _) (fun _ hr => absurd hr List.not_mem_nil) hl
  | @claim item rest free =>
    have hnd := hw.undelivered item (by rw [hpc]; exact List.mem_cons_self)
    rw [afterWorker_quiet _ rfl fun _ => rfl]
    refine h.goto (by rw [hpc]; exact List.Sublist.refl _)
      (fun row hr => by rw [hpc]; exact List.mem_cons_of_mem _ hr) ⟨?_, hnd⟩
    simp only [Effect.run, hl, List.nil_append]
  | @claimed item rest =>
    refine inv_commit h hpc rfl (List.Sublist.refl _) (fun _ => id) ⟨rfl, fun hp => ?_, hl.2⟩
    obtain ⟨-, hno⟩ | ⟨u, hu, hstatus⟩ | ⟨row, hr, -⟩ := pending_view hp
    · exact hno _ (by rw [hl.1]; exact List.mem_singleton.mpr rfl)
    · rw [hl.1, List.mem_singleton] at hu
      cases hu
      cases hstatus
    · rw [hl.1] at hr
      cases hr
  | missing hfind => exact inv_stay h hpc rfl (fun _ => rfl) rfl rfl hl
  | found hfind =>
    refine inv_stay h hpc rfl (fun _ => rfl) rfl rfl ⟨fun x hx => ?_, hl.2.1, fun _ => hl.2.2⟩
    simp only [Effect.run, hl.1] at hx
    cases hx
  | failMissing free =>
    refine inv_stay h hpc rfl (fun _ => rfl) rfl rfl
      ⟨writes_update (fun x hx => ?_) fun hstatus => (by cases hstatus), hl.2.1⟩
    rw [hl.1] at hx
    cases hx
  | deliver hnext => exact inv_deliver h hpc hnext
  | delivered free | exhausted free hmax =>
    exact inv_stay h hpc rfl (fun _ => rfl) rfl rfl
      ⟨writes_update hl.1 fun hstatus => (by cases hstatus), hl.2.1⟩
  | retry free hmax =>
    exact inv_stay h hpc rfl (fun _ => rfl) rfl rfl ⟨writes_update hl.1 fun _ => hl.2.2 rfl, hl.2.1⟩
  | upsertDlq =>
    exact inv_stay h hpc rfl (fun _ => rfl) rfl rfl ⟨forall_mem_concat hl.1 (.inl trivial), hl.2⟩
  | commitItem =>
    exact inv_commit h hpc rfl (List.sublist_cons_self _ _) (fun _ => id) rfl
  | count =>
    rw [afterWorker_quiet _ rfl fun _ => rfl]
    exact h.goto (List.nil_sublist _) (fun _ hr => absurd hr List.not_mem_nil) rfl

end Worker

section Caller

variable {pc pc' : CallPc}

/-- The state after a step of the call. -/
def afterCaller (s : State ι) (effect : Effect) (pc : CallPc) : State ι :=
  { s with
    db := (effect.run s.clock s.db s.caller.session).1
    fresh := s.fresh + 1
    caller := ⟨pc, (effect.run s.clock s.db s.caller.session).2⟩
    log := s.log ++ sentRow effect (CallPc.outboxId s.caller.pc)
    drifts := s.drifts ++ selected s.caller.pc pc }

theorem inv_caller_quiet (h : Inv s)
    (hdb : (effect.run s.clock s.db s.caller.session).1.outbox = s.db.outbox)
    (hlog : ∀ row, sentRow effect row = [])
    (hcaller : CallerOk (effect.run s.clock s.db s.caller.session).1 s.log (s.fresh + 1)
      ⟨pc, (effect.run s.clock s.db s.caller.session).2⟩) : Inv (afterCaller s effect pc) := by
  rw [afterCaller, hlog, List.append_nil]
  exact h.nextCaller hdb hcaller

/-- A statement that leaves the outbox alone. -/
def Silent : Effect → Prop
  | .read | .write (.setRegistry _) | .write (.insertAttempt _) | .write (.upsertDlq _) => True
  | _ => False

theorem inv_caller_silent (h : Inv s) (hsilent : Silent effect)
    (hholds : ∀ id, Holds s.caller.pc id → Holds pc id)
    (hposting : ∀ id, Posting pc id → Posting s.caller.pc id)
    (hstart : starting pc → starting s.caller.pc)
    (hcommitted : ∀ drift id sub rest, pc ≠ .deliver drift id sub rest (.returned true)) :
    Inv (afterCaller s effect pc) := by
  have hlast : ∀ drift id sub rest, pc = .deliver drift id sub rest (.returned true) →
      inserted s.caller.session.writes = [] :=
    fun drift id sub rest heq => absurd heq (hcommitted drift id sub rest)
  cases effect with
  | read =>
    refine inv_caller_quiet h rfl (fun _ => rfl) ?_
    exact h.caller.next rfl rfl (fun _ _ => Iff.rfl) rfl hholds hposting hstart hlast
  | write x =>
    cases x with
    | setRegistry _ | insertAttempt _ | upsertDlq _ =>
      refine inv_caller_quiet h rfl (fun _ => rfl) ?_
      refine h.caller.next rfl ?_ (fun id u => ?_) (List.append_nil _) hholds hposting hstart hlast
      · simp only [Effect.run, inserted_concat]
        exact List.append_nil _
      · simp [Effect.run]
    | insertOutbox _ | updateOutbox _ _ => exact hsilent.elim
  | selectForUpdate _ | commit | close | send => exact hsilent.elim

/-- A silent step outside of the deliveries. -/
theorem inv_caller_plain (h : Inv s) (hpc : s.caller.pc = pc) (hsilent : Silent effect)
    (hfrom : delivering pc = false) (hto : delivering pc' = false) (hstart : starting pc' → starting pc) :
    Inv (afterCaller s effect pc') := by
  obtain rfl := hpc
  refine inv_caller_silent h hsilent (fun id hh => absurd hh (not_holds hfrom id))
    (fun id hp => absurd hp (not_posting hto id)) hstart fun drift id sub rest heq => ?_
  rw [heq] at hto
  cases hto

/-- An exception before the first row closes the session. -/
theorem inv_caller_close (h : Inv s) (hpc : s.caller.pc = pc) (hfrom : delivering pc = false)
    (hstart : starting pc) : Inv (afterCaller s .close .idle) := by
  obtain rfl := hpc
  exact inv_caller_quiet h rfl (fun _ => rfl) (h.caller.close hstart hfrom (Nat.le_succ _) rfl)

/-- The INSERT of an outbox row, with a fresh id. -/
theorem inv_caller_insert (h : Inv s) {row : OutboxRow} (hid : row.id = s.fresh)
    (hpc : s.caller.pc = pc) (hfrom : delivering pc = false) (hto : ∀ id, Posting pc' id → id = row.id)
    (hstart : starting pc' = false)
    (hcommitted : ∀ drift id sub rest, pc' ≠ .deliver drift id sub rest (.returned true)) :
    Inv (afterCaller s (.write (.insertOutbox row)) pc') := by
  obtain rfl := hpc
  have hc := h.caller
  have hinserted : inserted (s.caller.session.writes ++ [.insertOutbox row]) =
      inserted s.caller.session.writes ++ [row] := inserted_concat _ _
  refine inv_caller_quiet h rfl (fun _ => rfl) ⟨?_, fun id hm => ?_, fun row' hr hd => ?_, fun id u hu => ?_,
    fun id hp => ?_, fun id hd hp => ?_, fun hst => ?_,
    fun drift id sub rest heq => absurd heq (hcommitted drift id sub rest)⟩
  · change (_ ++ (inserted (s.caller.session.writes ++ [.insertOutbox row])).map OutboxRow.id).Nodup
    rw [hinserted, List.map_append, ← List.append_assoc]
    refine List.nodup_append.mpr ⟨hc.ids, List.nodup_singleton _, fun id hm id' hm' => ?_⟩
    have hlt := hc.id_lt id hm
    rw [List.map_singleton, List.mem_singleton] at hm'
    omega
  · change id ∈ _ ++ (inserted (s.caller.session.writes ++ [.insertOutbox row])).map OutboxRow.id at hm
    rw [hinserted, List.map_append, ← List.append_assoc] at hm
    obtain hm | hm := List.mem_append.mp hm
    · exact (hc.id_lt id hm).trans (Nat.lt_succ_self _)
    · rw [List.map_singleton, List.mem_singleton] at hm
      omega
  · obtain hr | hr := List.mem_append.mp (hinserted ▸ hr)
    · exact absurd (hc.inserted row' hr hd) (not_holds hfrom _)
    · have hlt := h.log_lt _ hd
      rw [List.mem_singleton.mp hr] at hlt
      omega
  · obtain hu | hu := List.mem_append.mp hu
    · obtain ⟨hstatus, hlock⟩ := hc.updates id u hu
      exact ⟨hstatus, List.mem_append_left _ hlock⟩
    · cases List.mem_singleton.mp hu
  · refine ⟨row, ?_, (hto id hp).symm⟩
    rw [mem_inserted]
    exact List.mem_append_right _ (List.mem_singleton.mpr rfl)
  · obtain ⟨u, hu⟩ := (hc.settled id hd hp).resolve_left (not_holds hfrom id)
    exact .inr ⟨u, List.mem_append_left _ hu⟩
  · rw [hstart] at hst
    cases hst

/-- The UPDATE that marks a row after its inline delivery. -/
theorem inv_caller_mark (h : Inv s) {drift : Drift} {outboxId : Nat} {sub : Subscription}
    {rest : List Subscription} {ok : Bool} {u : OutboxUpdate} (hu : u.status ≠ .PENDING)
    (hpc : s.caller.pc = .deliver drift outboxId sub rest (.returned ok)) :
    Inv (afterCaller s (.write (.updateOutbox outboxId u)) (.loop drift rest)) := by
  have hc := h.caller
  have hinserted : inserted (s.caller.session.writes ++ [.updateOutbox outboxId u]) =
      inserted s.caller.session.writes := (inserted_concat _ _).trans (List.append_nil _)
  have hholds : ∀ id, Holds s.caller.pc id → id = outboxId ∧ ok = true := by
    intro id hh
    rw [hpc] at hh
    obtain ⟨hid, hwon⟩ := hh.of_deliver
    cases ok with
    | true => exact ⟨hid, rfl⟩
    | false => cases hwon
  refine inv_caller_quiet h rfl (fun _ => rfl) ⟨?_, fun id hm => ?_, fun row hr hd => ?_, fun id u' hm => ?_,
    fun id hp => absurd hp (not_posting rfl id), fun id hd hp => .inr ?_, (fun heq => by cases heq), ?_⟩
  · change (_ ++ (inserted (s.caller.session.writes ++ [.updateOutbox outboxId u])).map OutboxRow.id).Nodup
    rw [hinserted]
    exact hc.ids
  · change id ∈ _ ++ (inserted (s.caller.session.writes ++ [.updateOutbox outboxId u])).map OutboxRow.id
      at hm
    rw [hinserted] at hm
    exact (hc.id_lt id hm).trans (Nat.lt_succ_self _)
  · have hr : row ∈ inserted s.caller.session.writes := hinserted ▸ hr
    obtain ⟨-, rfl⟩ := hholds _ (hc.inserted row hr hd)
    rw [hc.committed drift outboxId sub rest hpc] at hr
    cases hr
  · obtain hm | hm := List.mem_append.mp hm
    · obtain ⟨hstatus, hlock⟩ := hc.updates id u' hm
      exact ⟨hstatus, List.mem_append_left _ hlock⟩
    · cases List.mem_singleton.mp hm
      exact ⟨hu, List.mem_append_right _ (List.mem_singleton.mpr rfl)⟩
  · obtain hh | ⟨u', hm⟩ := hc.settled id hd hp
    · rw [(hholds id hh).1]
      exact ⟨u, List.mem_append_right _ (List.mem_singleton.mpr rfl)⟩
    · exact ⟨u', List.mem_append_left _ hm⟩
  · intro drift' id sub' rest' heq
    cases heq

theorem inv_caller_deliver (h : Inv s) {drift : Drift} {outboxId : Nat} {sub : Subscription}
    {rest : List Subscription} {p p' : DeliverPc}
    (hpc : s.caller.pc = .deliver drift outboxId sub rest p)
    (hnext : (Enqueue.delivery drift sub).next p = some (effect, p')) :
    Inv (afterCaller s effect (.deliver drift outboxId sub rest p')) := by
  -- within a delivery the row stays the same
  have hstay : Silent effect → uncommitted p → uncommitted p' → (won p → won p') →
      Inv (afterCaller s effect (.deliver drift outboxId sub rest p')) := by
    intro hsilent hopen hopen' hwon
    refine inv_caller_silent h hsilent (fun id hh => ?_) (fun id hp => ?_) (fun heq => by cases heq) ?_
    · rw [hpc] at hh
      obtain ⟨rfl, hw⟩ := hh.of_deliver
      exact ⟨drift, sub, rest, p', rfl, hwon hw⟩
    · rw [hpc, hp.of_deliver.1]
      exact ⟨drift, sub, rest, p, rfl, hopen⟩
    · intro drift' id sub' rest' heq
      cases heq
      cases hopen'
  cases p with
  | post attempt =>
    cases hnext
    rw [afterCaller, hpc]
    exact h.sendCaller hpc
  | awaiting attempt | returned ok => cases hnext
  | succeeded attempt =>
    cases hnext
    exact hstay trivial rfl rfl fun _ => rfl
  | failed attempt reason =>
    cases hnext
    refine hstay trivial rfl ?_ fun hw => absurd hw Bool.false_ne_true
    split
    · rfl
    · rfl
  | dlq attempt reason =>
    cases hnext
    exact hstay trivial rfl rfl fun hw => absurd hw Bool.false_ne_true
  | commit ok =>
    cases hnext
    have hlog : sentRow .commit (CallPc.outboxId s.caller.pc) = [] := rfl
    rw [afterCaller, hlog, List.append_nil]
    refine h.commitCaller (fun id hh => ?_) fun id hp => Bool.false_ne_true hp.of_deliver.2
    rw [hpc] at hh
    obtain ⟨rfl, hw⟩ := hh.of_deliver
    refine ⟨drift, sub, rest, _, rfl, ?_⟩
    cases ok with
    | true => rfl
    | false => cases hw

variable [Fintype ι]

/-- The next step of the call, in the tables as it sees them. -/
def nextCaller (c : Config) (s : State ι) : Option (Effect × CallPc) :=
  Enqueue.next c (s.caller.session.view s.db) s.fresh (s.caller.session.now s.clock)
    (lockedForCaller s) s.caller.pc

theorem stepCaller_eq (hnext : nextCaller c s = some (effect, pc)) (hs : stepCaller c s = some s') :
    s' = afterCaller s effect pc := by
  rw [nextCaller] at hnext
  simp only [stepCaller, hnext, Option.some.injEq] at hs
  exact hs.symm

theorem exists_nextCaller (hs : stepCaller c s = some s') :
    ∃ effect pc, nextCaller c s = some (effect, pc) := by
  simp only [stepCaller] at hs
  split at hs
  · cases hs
  · next effect pc hn => exact ⟨effect, pc, hn⟩

theorem inv_callStep (h : Inv s)
    (hstep : CallStep c (s.caller.session.view s.db) s.fresh (s.caller.session.now s.clock)
      (lockedForCaller s) s.caller.pc effect pc') : Inv (afterCaller s effect pc') := by
  generalize hpc : s.caller.pc = pc at hstep
  cases hstep with
  | refused | unclassified => exact inv_caller_close h hpc rfl rfl
  | drift hupsert hprevious => exact inv_caller_plain h hpc trivial rfl rfl fun _ => rfl
  | noDrift _ _ | classified _ | selected | done | count =>
    exact inv_caller_plain h hpc trivial rfl rfl fun heq => by cases heq
  | inline hinline =>
    refine inv_caller_insert h rfl hpc rfl (fun id hp => hp.of_deliver.1) rfl ?_
    intro drift' id sub' rest' heq
    exact Delivery.start_ne_returned_true _ (CallPc.deliver.inj heq).2.2.2.2
  | queued hinline =>
    refine inv_caller_insert h rfl hpc rfl (fun id hp => absurd hp (not_posting rfl id)) rfl ?_
    intro drift' id sub' rest' heq
    cases heq
  | deliver hnext => exact inv_caller_deliver h hpc hnext
  | mark free =>
    refine inv_caller_mark h ?_ hpc
    split
    · decide
    · decide
  | commit =>
    have hlog : sentRow .commit (CallPc.outboxId s.caller.pc) = [] := rfl
    rw [afterCaller, hlog, List.append_nil]
    refine h.commitCaller (fun id hh => absurd hh (not_holds ?_ id)) fun id => not_posting rfl id
    rw [hpc]
    rfl

end Caller

/-- The steps that keep the invariant: no poll fetches a row of another batch or a row about
to be marked, and no call stops halfway. -/
def Allowed [Fintype ι] [DecidableEq ι] (c : Config) (s : State ι) : Action ι → Prop
  | .worker i => PollsFree c s i
  | .callerFailure => False
  | _ => True

theorem inv_step [Fintype ι] [DecidableEq ι] {a : Action ι} (h : Inv s) (hok : Allowed c s a)
    (hs : step c s a = some s') : Inv s' := by
  cases step_cases hs with
  | worker hstep => exact inv_workerStep h hok hstep
  | workerResponse hpc => exact h.respondWorker hpc rfl
  | workerFailure =>
    exact h.goto (List.nil_sublist _) (fun _ hr => absurd hr List.not_mem_nil) rfl
  | request hpc =>
    exact h.setCaller (fun i => ⟨fun _ => id, fun _ _ => id, fun _ _ => id⟩)
      (h.caller.close (by rw [hpc]; rfl) (by rw [hpc]; rfl) le_rfl rfl) h.log_lt h.quiet h.once
  | caller hstep => exact inv_callStep h hstep
  | callerResponse hpc => exact h.respondCaller hpc rfl
  | callerFailure => exact hok.elim
  | putSubscription =>
    refine h.setCaller (fun i => ⟨fun _ => id, fun _ _ => id, fun _ _ => id⟩)
      (CallerOk.keep ?_ ?_ ?_ h.caller) h.log_lt h.quiet h.once
    · rfl
    · exact fun _ hd hp => ⟨hd, hp⟩
    · exact fun _ _ => id
  | tick => exact ⟨h.worker, h.caller, h.apart, h.log_lt, h.quiet, h.once⟩

end SchemaPilot.DeliverySteps
