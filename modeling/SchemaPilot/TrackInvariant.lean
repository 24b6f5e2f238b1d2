import SchemaPilot.TrackRows

namespace SchemaPilot.TrackRuns

open Canonical Classifier Registry RegistryTxn RegistryHistory Webhook Enqueue

variable {ι : Type}

section Rows

variable (c : Config ι) (versions : List SchemaVersionRecord)

/-- The classification of a row is that of the schema it was inserted with, compared with
the schema of its predecessor. -/
def Explained (prev r : SchemaVersionRecord) : Prop :=
  ∃ i diffs, c.base.jsonb (c.schema i) = some r.canonicalSchema ∧ r.fingerprint = c.fingerprint i ∧
    diffAndClassify c.base.isPrintable prev.canonicalSchema (c.schema i) = .ok diffs ∧
    r.compatibilityClassification = summarizeClassification diffs

/-- A row that may be committed: a first version is `SAFE`, and any other is explained by
its predecessor, which is committed. -/
def Classified (r : SchemaVersionRecord) : Prop :=
  match r.previousVersionId with
  | none => r.compatibilityClassification = .SAFE
  | some p => ∃ prev ∈ versions, prev.id = p ∧ Explained c prev r

def Committed (endpointId version : Nat) (fingerprint : String) : Prop :=
  ∃ r ∈ versions, r.endpointId = endpointId ∧ r.version = version ∧ r.fingerprint = fingerprint

/-- The prior version was committed, and these are the differences to it. -/
def Compared (i : ι) (new : SchemaVersionRecord) (diffs : List DiffItem) : Prop :=
  ∃ prev ∈ versions, new.previousVersionId = some prev.id ∧
    diffAndClassify c.base.isPrintable prev.canonicalSchema (c.schema i) = .ok diffs

variable {c versions} {versions' : List SchemaVersionRecord}

theorem Explained.same {prev prev' r r' : SchemaVersionRecord} (hp : Same prev prev') (hr : Same r r')
    (h : Explained c prev r) : Explained c prev' r' := by
  obtain ⟨i, diffs, hj, hf, hd, hc⟩ := h
  have hprev : prev'.canonicalSchema = prev.canonicalSchema :=
    hp.column SchemaVersionRecord.canonicalSchema fun _ => rfl
  have hs : r'.canonicalSchema = r.canonicalSchema :=
    hr.column SchemaVersionRecord.canonicalSchema fun _ => rfl
  have hfp : r'.fingerprint = r.fingerprint := hr.column SchemaVersionRecord.fingerprint fun _ => rfl
  have hcl : r'.compatibilityClassification = r.compatibilityClassification :=
    hr.column SchemaVersionRecord.compatibilityClassification fun _ => rfl
  exact ⟨i, diffs, hs ▸ hj, hfp ▸ hf, hprev ▸ hd, hcl ▸ hc⟩

theorem Classified.keep (hk : Keeps versions versions') {r r' : SchemaVersionRecord}
    (hr : Same r r') (h : Classified c versions r) : Classified c versions' r' := by
  have hp : r'.previousVersionId = r.previousVersionId :=
    hr.column SchemaVersionRecord.previousVersionId fun _ => rfl
  unfold Classified at h ⊢
  rw [hp]
  cases hprev : r.previousVersionId with
  | none =>
    rw [hprev] at h
    exact (hr.column SchemaVersionRecord.compatibilityClassification fun _ => rfl).trans h
  | some p =>
    rw [hprev] at h
    obtain ⟨prev, hm, hid, he⟩ := h
    obtain ⟨prev', hm', hs⟩ := hk prev hm
    exact ⟨prev', hm', (hs.column SchemaVersionRecord.id fun _ => rfl).trans hid, he.same hs hr⟩

theorem Committed.keep (hk : Keeps versions versions') {endpointId version : Nat}
    {fingerprint : String} (h : Committed versions endpointId version fingerprint) :
    Committed versions' endpointId version fingerprint := by
  obtain ⟨r, hr, he, hv, hf⟩ := h
  obtain ⟨r', hr', hs⟩ := hk r hr
  exact ⟨r', hr', (hs.column SchemaVersionRecord.endpointId fun _ => rfl).trans he,
    (hs.column SchemaVersionRecord.version fun _ => rfl).trans hv,
    (hs.column SchemaVersionRecord.fingerprint fun _ => rfl).trans hf⟩

theorem Compared.keep (hk : Keeps versions versions') {i : ι} {new : SchemaVersionRecord}
    {diffs : List DiffItem} (h : Compared c versions i new diffs) :
    Compared c versions' i new diffs := by
  obtain ⟨prev, hm, hp, hd⟩ := h
  obtain ⟨prev', hm', hs⟩ := hk prev hm
  have hid : prev'.id = prev.id := hs.column SchemaVersionRecord.id fun _ => rfl
  have hsch : prev'.canonicalSchema = prev.canonicalSchema :=
    hs.column SchemaVersionRecord.canonicalSchema fun _ => rfl
  exact ⟨prev', hm', hid ▸ hp, hsch ▸ hd⟩

end Rows

section Calls

variable (c : Config ι) (versions : List SchemaVersionRecord) (i : ι) (t : Txn)

def DriftCommitted (drift : Drift) : Prop :=
  Committed versions drift.version.endpointId drift.version.version (c.fingerprint i)

def EventCommitted (event : DriftEvent) : Prop :=
  Committed versions event.endpointId event.newVersion event.newFingerprint

/-- The version of a drift still waits in its transaction, classified, or is committed. -/
def Announced (drift : Drift) : Prop :=
  t.pc = .done drift.version true ∧
      (∃ r, t.row = some r ∧ Draft c i drift.version r ∧ Classified c versions r) ∨
    (∃ record b, t.pc = .committed record b) ∧ DriftCommitted c versions i drift

/-- Each inline delivery has committed by the time it returns. -/
def LoopOk (drift : Drift) : CallPc → Prop
  | .loop d todo => d = drift ∧ (∀ s ∈ todo, s.active) ∧
    (c.base.inlineDelivery = true → todo = drift.affected ∨ DriftCommitted c versions i drift)
  | .deliver d _ _ todo pc => d = drift ∧ (∀ s ∈ todo, s.active) ∧
    ∀ ok, pc = .returned ok → DriftCommitted c versions i drift
  | .count => c.base.inlineDelivery = true →
    drift.affected = [] ∨ DriftCommitted c versions i drift
  | .idle | .upsert _ | .classify _ _ | .selectAffected _ _ _ | .commit => False

/-- What a request has written and read where it stands. -/
def CallOk : Pc → Prop
  | .upsert => UpsertOk c i t
  | .selectPrior new =>
    t.pc = .done new true ∧ ∃ r, t.row = some r ∧ Draft c i new r
  | .setClassification new _ diffs =>
    t.pc = .done new true ∧ (∃ r, t.row = some r ∧ Draft c i new r) ∧
      Compared c versions i new diffs
  | .selectAffected new _ _ =>
    t.pc = .done new true ∧ ∃ r, t.row = some r ∧ Draft c i new r ∧ Classified c versions r
  | .enqueue _ drift pc => Announced c versions i t drift ∧ LoopOk c versions i drift pc
  | .commit =>
    (∃ record b, t.pc = .done record b ∨ t.pc = .committed record b) ∧
      ∀ r, t.row = some r → Classified c versions r
  | .finished | .failed => True

/-- The event of a task is about a version that its request has committed, has yet to
commit, or has lost. -/
structure TaskOk (pc : Pc) (event : DriftEvent) : Prop where
  inline : c.base.inlineDelivery = true → 0 < event.affectedConsumerCount →
    EventCommitted versions event
  version : EventCommitted versions event ∨ pc = .failed ∨ pc = .commit ∧
    ∃ record r, t.pc = .done record true ∧ t.row = some r ∧ r.endpointId = event.endpointId ∧
      r.version = event.newVersion ∧ r.fingerprint = event.newFingerprint

variable {c versions i t} {versions' : List SchemaVersionRecord}

theorem LoopOk.keep (hk : Keeps versions versions') {drift : Drift} {pc : CallPc}
    (h : LoopOk c versions i drift pc) : LoopOk c versions' i drift pc := by
  cases pc with
  | loop d todo =>
    obtain ⟨hd, hactive, hi⟩ := h
    exact ⟨hd, hactive, fun hinline => (hi hinline).imp_right (Committed.keep hk)⟩
  | deliver d outboxId s todo pc =>
    obtain ⟨hd, hactive, hr⟩ := h
    exact ⟨hd, hactive, fun ok hok => Committed.keep hk (hr ok hok)⟩
  | count => exact fun hinline => (h hinline).imp_right (Committed.keep hk)
  | idle | upsert _ | classify _ _ | selectAffected _ _ _ | commit => exact h

theorem Announced.keep (hk : Keeps versions versions') {drift : Drift}
    (h : Announced c versions i t drift) : Announced c versions' i t drift := by
  refine h.imp ?_ ?_
  · rintro ⟨hpc, r, hr, hd, hc⟩
    exact ⟨hpc, r, hr, hd, hc.keep hk rfl⟩
  · rintro ⟨hpc, hc⟩
    exact ⟨hpc, Committed.keep hk hc⟩

theorem CallOk.keep (hk : Keeps versions versions') {pc : Pc} (h : CallOk c versions i t pc) :
    CallOk c versions' i t pc := by
  cases pc with
  | upsert | selectPrior new | finished | failed => exact h
  | setClassification new prior diffs => exact ⟨h.1, h.2.1, h.2.2.keep hk⟩
  | selectAffected new prior diffs =>
    obtain ⟨hpc, r, hr, hd, hc⟩ := h
    exact ⟨hpc, r, hr, hd, hc.keep hk rfl⟩
  | enqueue prior drift pc => exact ⟨h.1.keep hk, h.2.keep hk⟩
  | commit => exact ⟨h.1, fun r hr => (h.2 r hr).keep hk rfl⟩

theorem TaskOk.keep (hk : Keeps versions versions') {pc : Pc} {event : DriftEvent}
    (h : TaskOk c versions t pc event) : TaskOk c versions' t pc event :=
  ⟨fun hi hn => (h.inline hi hn).keep hk, h.version.imp_left (Committed.keep hk)⟩

end Calls

section Invariant

/-- What holds in every state of a run, and what has become of some rows of an earlier one. -/
structure RunInv (c : Config ι) (old : List SchemaVersionRecord) (s : State ι) : Prop where
  keeps : Keeps old s.registry.db.versions
  base : Inv s.registry
  drafts : Drafts s.registry
  calls : ∀ i, CallOk c s.registry.db.versions i (s.registry.txn i) (s.pc i)
  rows : ∀ r ∈ s.registry.db.versions, Classified c s.registry.db.versions r
  tasks : ∀ i event, (i, event) ∈ s.scheduled →
    TaskOk c s.registry.db.versions (s.registry.txn i) (s.pc i) event

theorem RunInv.init (c : Config ι) : RunInv c [] init := by
  refine ⟨Keeps.refl _, inv_init, ⟨List.nodup_nil, ?_, ?_, ?_, ?_⟩, fun i => rfl, fun r hr => ?_,
    fun i event hm => ?_⟩
  · exact fun r hr => by cases hr
  · exact fun i r hr => by cases hr
  · exact fun i r hr => by cases hr
  · exact fun i j r r' _ hr => by cases hr
  · cases hr
  · cases hm

/-- The rows of any state of a run serve as the earlier ones. -/
theorem RunInv.rebase {c : Config ι} {old : List SchemaVersionRecord} {s : State ι}
    (h : RunInv c old s) : RunInv c s.registry.db.versions s :=
  { h with keeps := Keeps.refl _ }

variable {old : List SchemaVersionRecord}

/-- A request that has not failed and is not about to commit. -/
def Going : Pc → Prop
  | .commit | .failed => False
  | _ => True

/-- What has been settled about a task stays so, whatever its request does next. -/
theorem TaskOk.settled {c : Config ι} {versions versions' : List SchemaVersionRecord} {t t' : Txn}
    {pc pc' : Pc} {event : DriftEvent} (hk : Keeps versions versions') (hgoing : Going pc)
    (h : TaskOk c versions t pc event) : TaskOk c versions' t' pc' event := by
  have hversion : EventCommitted versions event := by
    obtain hv | rfl | ⟨rfl, -⟩ := h.version
    · exact hv
    · exact hgoing.elim
    · exact hgoing.elim
  exact ⟨fun hi hn => (h.inline hi hn).keep hk, .inl (hversion.keep hk)⟩

/-- The version read as the prior one is committed. -/
theorem prior_mem {registry : RegistryTxn.State ι} (h : Inv registry) {i : ι} {c : Config ι}
    {new r prior : SchemaVersionRecord} (hpc : (registry.txn i).pc = .done new true)
    (hr : (registry.txn i).row = some r) (hd : Draft c i new r)
    (hprior : (visible registry i).find? (fun r => some r.id = new.previousVersionId) =
      some prior) :
    prior ∈ registry.db.versions ∧ new.previousVersionId = some prior.id := by
  have hid : some prior.id = new.previousVersionId := by simpa using List.find?_some hprior
  have ht := h.txn i
  rw [TxnOk] at ht
  simp only [hpc] at ht
  obtain ⟨hrow, -⟩ | ⟨r', current, hw⟩ := ht
  · cases hr.symm.trans hrow
  · obtain rfl := Option.some.inj (hr.symm.trans hw.row)
    have hcur : previousId current = some prior.id := by rw [← hw.previous, hd.previous, hid]
    obtain ⟨cur, rfl, hcid⟩ := Option.map_eq_some_iff.mp hcur
    obtain ⟨v, hv, -, hvid⟩ := hw.read cur rfl
    rw [visible, List.find?_append] at hprior
    cases hf : registry.db.versions.find? (fun r => some r.id = new.previousVersionId) with
    | none =>
      have hne := List.find?_eq_none.mp hf v (mem_versionsOf.mp hv).1
      rw [hvid, hcid, hid] at hne
      exact absurd (decide_eq_true rfl) hne
    | some p =>
      rw [hf] at hprior
      cases hprior
      exact ⟨List.mem_of_find?_eq_some hf, hid.symm⟩

theorem announced_pc {c : Config ι} {versions : List SchemaVersionRecord} {i : ι} {t : Txn}
    {drift : Drift} (h : Announced c versions i t drift) :
    ∃ record b, t.pc = .done record b ∨ t.pc = .committed record b := by
  obtain ⟨hpc, -⟩ | ⟨⟨record, b, hpc⟩, -⟩ := h
  · exact ⟨_, _, .inl hpc⟩
  · exact ⟨record, b, .inr hpc⟩

/-- A transaction that has committed has no row left. -/
theorem row_of_committed {registry : RegistryTxn.State ι} (h : Inv registry) {i : ι}
    {record : SchemaVersionRecord} {b : Bool} (hpc : (registry.txn i).pc = .committed record b) :
    (registry.txn i).row = none := by
  have ht := h.txn i
  rw [TxnOk] at ht
  simp only [hpc] at ht
  exact ht.1

theorem announced_row {c : Config ι} {s : State ι} (h : RunInv c old s) {i : ι} {drift : Drift}
    (ha : Announced c s.registry.db.versions i (s.registry.txn i) drift) :
    ∀ r, (s.registry.txn i).row = some r → Classified c s.registry.db.versions r := by
  intro r hr
  obtain ⟨-, r', hr', -, hc⟩ | ⟨⟨record, b, hpc⟩, -⟩ := ha
  · obtain rfl := Option.some.inj (hr.symm.trans hr')
    exact hc
  · cases hr.symm.trans (row_of_committed h.base hpc)

/-- What a commit of a session does to the version rows. -/
structure Saved (c : Config ι) (registry registry' : RegistryTxn.State ι) (i : ι) : Prop where
  base : Inv registry'
  drafts : Drafts registry'
  others : ∀ j, j ≠ i → registry'.txn j = registry.txn j
  keeps : Keeps registry.db.versions registry'.db.versions
  rows : ∀ r ∈ registry'.db.versions, Classified c registry'.db.versions r
  committed : ∃ record b, (registry'.txn i).pc = .committed record b
  row : ∀ record b r, (registry.txn i).pc = .done record b → (registry.txn i).row = some r →
    r ∈ registry'.db.versions

/-- After a commit of its session the version of a drift is committed. -/
theorem Saved.drift {c : Config ι} {registry registry' : RegistryTxn.State ι} {i : ι}
    (h : Saved c registry registry' i) {drift : Drift}
    (ha : Announced c registry.db.versions i (registry.txn i) drift) :
    DriftCommitted c registry'.db.versions i drift := by
  obtain ⟨hpc, r, hr, hd, -⟩ | ⟨-, hc⟩ := ha
  · exact ⟨r, h.row _ _ r hpc hr, hd.endpointId, hd.version, hd.fingerprint⟩
  · exact hc.keep h.keeps

theorem next_returned {d : Delivery} {pc : DeliverPc} {effect : Effect} {ok : Bool}
    (h : d.next pc = some (effect, .returned ok)) : effect = .commit := by
  cases pc with
  | post | succeeded | dlq | awaiting | returned => cases h
  | failed attempt reason =>
    simp only [Delivery.next, Option.some.injEq, Prod.mk.injEq] at h
    have hpc := h.2
    split_ifs at hpc
  | commit ok' =>
    cases h
    rfl

theorem start_ne_returned {drift : Drift} {s : Subscription} (h : s.active = true) (ok : Bool) :
    (delivery drift s).start ≠ .returned ok := by
  simp [Delivery.start, delivery, h]

variable [DecidableEq ι]

/-- A step of one request: what it knows of itself is shown, the others keep what they know. -/
theorem RunInv.call {c : Config ι} {s : State ι} (h : RunInv c old s) {registry : RegistryTxn.State ι}
    {i : ι} {pc : Pc} (hbase : Inv registry) (hdrafts : Drafts registry)
    (hothers : ∀ j, j ≠ i → registry.txn j = s.registry.txn j)
    (hkeeps : Keeps s.registry.db.versions registry.db.versions)
    (hrows : ∀ r ∈ registry.db.versions, Classified c registry.db.versions r)
    (hcall : CallOk c registry.db.versions i (registry.txn i) pc)
    (htasks : ∀ event, TaskOk c s.registry.db.versions (s.registry.txn i) (s.pc i) event →
      TaskOk c registry.db.versions (registry.txn i) pc event) :
    RunInv c old ({ s with registry }.goto i pc) := by
  have hpc : ∀ j, ({ s with registry }.goto i pc).pc j = if j = i then pc else s.pc j :=
    fun j => Function.update_apply s.pc i pc j
  refine ⟨h.keeps.trans hkeeps, hbase, hdrafts, fun j => ?_, hrows, fun j event hm => ?_⟩
  · rw [hpc]
    split
    · next hj =>
      subst hj
      exact hcall
    · next hj =>
      have hk := (h.calls j).keep hkeeps
      rw [← hothers j hj] at hk
      exact hk
  · rw [hpc]
    split
    · next hj =>
      subst hj
      exact htasks event (h.tasks j event hm)
    · next hj =>
      have hk := (h.tasks j event hm).keep hkeeps
      rw [← hothers j hj] at hk
      exact hk

theorem goto_self {s : State ι} {i : ι} {pc : Pc} (h : s.pc i = pc) : s.goto i pc = s := by
  rw [State.goto, ← h, Function.update_eq_self]

/-- A step that leaves the registry alone. -/
theorem RunInv.goto {c : Config ι} {s : State ι} (h : RunInv c old s) {i : ι} {pc : Pc}
    (hgoing : Going (s.pc i))
    (hcall : CallOk c s.registry.db.versions i (s.registry.txn i) pc) : RunInv c old (s.goto i pc) :=
  h.call h.base h.drafts (fun _ _ => rfl) (Keeps.refl _) h.rows hcall
    fun _ ht => ht.settled (Keeps.refl _) hgoing

theorem RunInv.fail {c : Config ι} {s : State ι} (h : RunInv c old s) (i : ι) : RunInv c old (s.fail i) := by
  refine h.call (h.base.finish i false) (h.drafts.set rfl) (fun j hj => txn_set_of_ne _ _ hj)
    (Keeps.refl _) h.rows trivial fun event ht => ⟨ht.inline, .inr (.inl rfl)⟩

theorem RunInv.selectPrior {c : Config ι} {s : State ι} {i : ι} (h : RunInv c old s)
    {new prior : SchemaVersionRecord} {diffs : List DiffItem} (hpc : s.pc i = .selectPrior new)
    (hprior : (visible s.registry i).find? (fun r => some r.id = new.previousVersionId) =
      some prior)
    (hdiff : diffAndClassify c.base.isPrintable prior.canonicalSchema (c.schema i) = .ok diffs) :
    RunInv c old (s.goto i (.setClassification new prior diffs)) := by
  have hcall := h.calls i
  rw [hpc] at hcall
  obtain ⟨hdone, r, hr, hd⟩ := hcall
  obtain ⟨hm, hp⟩ := prior_mem h.base hdone hr hd hprior
  refine h.goto (hpc ▸ trivial) ?_
  exact ⟨hdone, ⟨r, hr, hd⟩, prior, hm, hp, hdiff⟩

theorem RunInv.setClassification {c : Config ι} {s : State ι} {i : ι} (h : RunInv c old s)
    {new prior : SchemaVersionRecord} {diffs : List DiffItem}
    (hpc : s.pc i = .setClassification new prior diffs) :
    RunInv c old ({ s with
      registry := TrackRuns.setClassification s.registry i new.id
        (summarizeClassification diffs) }.goto i (.selectAffected new prior diffs)) := by
  have hcall := h.calls i
  rw [hpc] at hcall
  obtain ⟨hdone, ⟨r, hr, hd⟩, prev, hm, hp, hdiff⟩ := hcall
  have hinv := inv_setClassification h.base hdone new.id (summarizeClassification diffs)
  refine h.call hinv (h.drafts.setClassification _ _) (fun j hj => txn_set_of_ne _ _ hj)
    (Keeps.refl _) h.rows ?_
    fun event ht => ht.settled (Keeps.refl _) (hpc ▸ trivial)
  rw [TrackRuns.setClassification, txn_set_self]
  refine ⟨hdone, { r with compatibilityClassification := summarizeClassification diffs }, ?_, ?_, ?_⟩
  · rw [hr, Option.map_some, relabel, if_pos hd.id]
  · exact ⟨hd.id, hd.endpointId, hd.version, hd.previous, hd.fingerprint, hd.stored⟩
  · rw [Classified]
    dsimp only
    rw [hd.previous, hp]
    exact ⟨prev, hm, rfl, i, diffs, hd.stored, hd.fingerprint, hdiff, rfl⟩

theorem RunInv.selectAffected {c : Config ι} {s : State ι} {i : ι} (h : RunInv c old s)
    {new prior : SchemaVersionRecord} {diffs : List DiffItem}
    (hpc : s.pc i = .selectAffected new prior diffs) (fresh : Nat) :
    let drift := newDrift s.tables fresh new (summarizeClassification diffs) diffs
    RunInv c old (s.goto i (.enqueue prior drift (.loop drift drift.affected))) := by
  intro drift
  have hcall := h.calls i
  rw [hpc] at hcall
  refine h.goto (hpc ▸ trivial) ?_
  refine ⟨.inl hcall, rfl, fun x hx => ?_, fun _ => .inl rfl⟩
  have hsel := (List.mem_filter.mp hx).2
  simp only [Bool.and_eq_true] at hsel
  exact hsel.1.1.2

/-- A step of the enqueueing that leaves the registry alone. -/
theorem RunInv.enqueue {c : Config ι} {s : State ι} {i : ι} (h : RunInv c old s)
    {prior : SchemaVersionRecord} {drift : Drift} {pc pc' : CallPc}
    (hpc : s.pc i = .enqueue prior drift pc)
    (hloop : LoopOk c s.registry.db.versions i drift pc') :
    RunInv c old (s.goto i (.enqueue prior drift pc')) := by
  have hcall := h.calls i
  rw [hpc] at hcall
  exact h.goto (hpc ▸ trivial) ⟨hcall.1, hloop⟩

/-- The count ends the enqueueing, and the task of the event is created. -/
theorem RunInv.count {c : Config ι} {s : State ι} {i : ι} (h : RunInv c old s)
    {prior : SchemaVersionRecord} {drift : Drift} (hpc : s.pc i = .enqueue prior drift .count) :
    RunInv c old { s.goto i .commit with
      scheduled := s.scheduled ++ [(i, driftEvent c i prior drift)] } := by
  have hcall := h.calls i
  rw [hpc] at hcall
  obtain ⟨ha, hinline⟩ := hcall
  have hgoto : RunInv c old (s.goto i .commit) :=
    h.goto (hpc ▸ trivial) ⟨announced_pc ha, announced_row h ha⟩
  have hself : (s.goto i .commit).pc i = .commit := by simp [State.goto]
  refine ⟨hgoto.keeps, hgoto.base, hgoto.drafts, hgoto.calls, hgoto.rows, fun j event hm => ?_⟩
  obtain hm | hm := List.mem_append.mp hm
  · exact hgoto.tasks j event hm
  · cases List.mem_singleton.mp hm
    constructor
    · intro hi hpos
      refine (hinline hi).resolve_left fun hnil => ?_
      change 0 < drift.affected.length at hpos
      rw [hnil] at hpos
      exact absurd hpos (by decide)
    · obtain ⟨hdone, r, hr, hd, -⟩ | ⟨-, hc⟩ := ha
      · exact .inr (.inr ⟨hself, drift.version, r, hdone, hr, hd.endpointId, hd.version, hd.fingerprint⟩)
      · exact .inl hc

variable [Fintype ι]

theorem saved_commitSession {c : Config ι} {registry : RegistryTxn.State ι} {i : ι}
    (hbase : Inv registry) (hdrafts : Drafts registry)
    (hrows : ∀ r ∈ registry.db.versions, Classified c registry.db.versions r)
    (hpc : ∃ record b, (registry.txn i).pc = .done record b ∨
      (registry.txn i).pc = .committed record b)
    (hrow : ∀ r, (registry.txn i).row = some r → Classified c registry.db.versions r) :
    Saved c registry (commitSession c registry i) i := by
  have hinv := inv_commitSession (c := c) hbase i
  obtain ⟨record, b, hpc | hpc⟩ := hpc
  · rw [commitSession_done hpc] at hinv ⊢
    have hk := keeps_commit registry.db (registry.txn i)
    refine ⟨hinv, hdrafts.commit _, fun j hj => txn_set_of_ne _ _ hj, hk, fun r hr => ?_,
      ⟨record, b, ?_⟩, ?_⟩
    · obtain ⟨r₀, hr₀, hs⟩ | hr := mem_commit hr
      · exact (hrows r₀ hr₀).keep hk hs
      · exact (hrow r hr).keep hk rfl
    · rw [txn_set_self]
      rfl
    · intro record' b' r _ hr
      exact List.mem_append_right _ (Option.mem_toList.mpr hr)
  · rw [commitSession_committed hpc] at hinv ⊢
    refine ⟨hbase, hdrafts, fun _ _ => rfl, Keeps.refl _, hrows, ⟨record, b, hpc⟩, ?_⟩
    intro record' b' r hpc' _
    cases hpc.symm.trans hpc'

theorem RunInv.upsert {c : Config ι} {s s' : State ι} {i : ι} (h : RunInv c old s)
    (hpc : s.pc i = .upsert) (hs : advanceUpsert c s i = some s') : RunInv c old s' := by
  have hcall := h.calls i
  rw [hpc] at hcall
  have hgoing : Going (s.pc i) := hpc ▸ trivial
  have hok : UpsertOk c i (s.registry.txn i) := hcall
  rw [advanceUpsert] at hs
  split at hs
  · next new inserted hdone =>
    cases hs
    apply h.goto hgoing
    rw [UpsertOk] at hok
    cases inserted with
    | false =>
      simp only [hdone] at hok
      exact ⟨⟨new, false, .inl hdone⟩, fun r hr => by cases hok.symm.trans hr⟩
    | true =>
      simp only [hdone] at hok
      obtain ⟨r, hr, hd, hsafe⟩ := hok
      cases hp : new.previousVersionId with
      | some p => exact ⟨hdone, r, hr, hd⟩
      | none =>
        refine ⟨⟨new, true, .inl hdone⟩, fun r' hr' => ?_⟩
        obtain rfl := Option.some.inj (hr.symm.trans hr')
        rw [Classified]
        rw [hd.previous, hp]
        exact hsafe
  · cases hs
    exact h.goto hgoing trivial
  · next hdone _ =>
    obtain ⟨registry, hadv, rfl⟩ := Option.map_eq_some_iff.mp hs
    have hm := moved_advance h.base hdone hadv
    have hkeeps : Keeps s.registry.db.versions registry.db.versions := by
      rw [hm.versions]
      exact Keeps.refl _
    have hcall : RunInv c old ({ s with registry }.goto i .upsert) := by
      refine h.call (inv_advance h.base hadv) (h.drafts.moved hm) hm.others hkeeps (hm.versions ▸ h.rows) hm.upsert ?_
      exact fun event ht => ht.settled hkeeps hgoing
    rw [goto_self (s := { s with registry }) hpc] at hcall
    exact hcall

/-- A statement of an inline delivery, which may be its commit. -/
theorem RunInv.deliver {c : Config ι} {s : State ι} {i : ι} (h : RunInv c old s)
    {prior : SchemaVersionRecord} {drift : Drift} {outboxId : Nat} {sub : Subscription}
    {todo : List Subscription} {pc pc' : DeliverPc} {effect : Effect}
    (hpc : s.pc i = .enqueue prior drift (.deliver drift outboxId sub todo pc))
    (hnext : (delivery drift sub).next pc = some (effect, pc')) :
    RunInv c old ({ s with registry := perform c s.registry i effect }.goto i
      (.enqueue prior drift (.deliver drift outboxId sub todo pc'))) := by
  have hcall := h.calls i
  rw [hpc] at hcall
  obtain ⟨ha, -, hactive, -⟩ := hcall
  by_cases heffect : effect = .commit
  · subst heffect
    have hsaved := saved_commitSession (c := c) h.base h.drafts h.rows (announced_pc ha)
      (announced_row h ha)
    have hdrift := hsaved.drift ha
    refine h.call hsaved.base hsaved.drafts hsaved.others hsaved.keeps hsaved.rows ?_ fun event ht =>
      ht.settled hsaved.keeps (hpc ▸ trivial)
    exact ⟨.inr ⟨hsaved.committed, hdrift⟩, rfl, hactive, fun _ _ => hdrift⟩
  · have hregistry : perform c s.registry i effect = s.registry := by
      cases effect with
      | commit => exact absurd rfl heffect
      | read | selectForUpdate | write | close | send => rfl
    rw [hregistry]
    refine h.enqueue hpc ⟨rfl, hactive, fun ok hok => ?_⟩
    subst hok
    exact absurd (next_returned hnext) heffect

theorem RunInv.enqueueStep {c : Config ι} {s s' : State ι} {i : ι} (h : RunInv c old s)
    {prior : SchemaVersionRecord} {drift : Drift} {pc : CallPc} (fresh now : Nat)
    (hpc : s.pc i = .enqueue prior drift pc) (hcount : pc ≠ .count)
    (hs : (Enqueue.next c.base s.tables fresh now (fun _ => false) pc).map (fun p =>
      { s with registry := perform c s.registry i p.1 }.goto i (.enqueue prior drift p.2)) =
        some s') : RunInv c old s' := by
  have hcall := h.calls i
  rw [hpc] at hcall
  have hloop := hcall.2
  obtain ⟨⟨effect, pc'⟩, hnext, rfl⟩ := Option.map_eq_some_iff.mp hs
  cases next_cases hnext with
  | refused | drift | noDrift | unclassified | classified | selected | commit => cases hloop
  | count => exact absurd rfl hcount
  | done =>
    obtain ⟨rfl, -, hi⟩ := hloop
    exact h.enqueue hpc fun hinline => (hi hinline).imp_left Eq.symm
  | inline hinline =>
    obtain ⟨rfl, hactive, -⟩ := hloop
    obtain ⟨hs, htodo⟩ := List.forall_mem_cons.mp hactive
    exact h.enqueue hpc ⟨rfl, htodo, fun ok hok => absurd hok (start_ne_returned hs ok)⟩
  | queued hinline =>
    obtain ⟨rfl, hactive, -⟩ := hloop
    refine h.enqueue hpc ⟨rfl, (List.forall_mem_cons.mp hactive).2, fun hi => ?_⟩
    cases hinline.symm.trans hi
  | deliver hd =>
    obtain ⟨rfl, -, -⟩ := hloop
    exact h.deliver hpc hd
  | mark =>
    obtain ⟨rfl, hactive, hr⟩ := hloop
    exact h.enqueue hpc ⟨rfl, hactive, fun _ => .inr (hr _ rfl)⟩

theorem RunInv.commit {c : Config ι} {s : State ι} {i : ι} (h : RunInv c old s)
    (hpc : s.pc i = .commit) :
    RunInv c old ({ s with registry := commitSession c s.registry i }.goto i .finished) := by
  have hcall := h.calls i
  rw [hpc] at hcall
  have hsaved := saved_commitSession (c := c) h.base h.drafts h.rows hcall.1 hcall.2
  refine h.call hsaved.base hsaved.drafts hsaved.others hsaved.keeps hsaved.rows trivial fun event ht => ?_
  have hversion : EventCommitted (commitSession c s.registry i).db.versions event := by
    obtain hv | hf | ⟨-, record, r, hdone, hr, he, hv, hf⟩ := ht.version
    · exact hv.keep hsaved.keeps
    · cases hpc.symm.trans hf
    · exact ⟨r, hsaved.row _ _ r hdone hr, he, hv, hf⟩
  exact ⟨fun _ _ => hversion, .inl hversion⟩

theorem RunInv.advance {c : Config ι} {s s' : State ι} {i : ι} {fresh now : Nat}
    (h : RunInv c old s) (hs : advanceCall c s i fresh now = some s') : RunInv c old s' := by
  rw [advanceCall] at hs
  cases hpc : s.pc i with
  | upsert =>
    rw [hpc] at hs
    exact h.upsert hpc hs
  | selectPrior new =>
    simp only [hpc] at hs
    split at hs
    · cases hs
      exact h.fail i
    · next prior hprior =>
      split at hs <;> cases hs
      · exact h.fail i
      · next diffs hdiff => exact h.selectPrior hpc hprior hdiff
  | setClassification new prior diffs =>
    rw [hpc] at hs
    cases hs
    exact h.setClassification hpc
  | selectAffected new prior diffs =>
    rw [hpc] at hs
    cases hs
    exact h.selectAffected hpc fresh
  | enqueue prior drift pc =>
    by_cases hcount : pc = .count
    · subst hcount
      rw [hpc] at hs
      cases hs
      exact h.count hpc
    · apply h.enqueueStep fresh now hpc hcount
      rw [← hs, hpc]
      cases pc <;> first | rfl | exact absurd rfl hcount
  | commit =>
    rw [hpc] at hs
    cases hs
    exact h.commit hpc
  | finished =>
    rw [hpc] at hs
    cases hs
  | failed =>
    rw [hpc] at hs
    cases hs

theorem RunInv.step {c : Config ι} {s s' : State ι} {a : Action ι} (h : RunInv c old s)
    (hs : step c s a = some s') : RunInv c old s' := by
  cases a with
  | advance i fresh now => exact h.advance hs
  | respond i outcome =>
    rw [TrackRuns.step] at hs
    split at hs
    · next prior drift pc hpc =>
      obtain ⟨pc', hr, rfl⟩ := Option.map_eq_some_iff.mp hs
      have hcall := h.calls i
      rw [hpc] at hcall
      cases pc with
      | deliver d outboxId sub todo dpc =>
        obtain ⟨dpc', hd, rfl⟩ := Option.map_eq_some_iff.mp hr
        refine h.enqueue hpc ⟨hcall.2.1, hcall.2.2.1, fun ok hok => ?_⟩
        subst hok
        cases dpc with
        | awaiting attempt =>
          simp only [DeliverPc.respond, Option.some.injEq] at hd
          split_ifs at hd
        | post | succeeded | failed | dlq | commit | returned => cases hd
      | idle | upsert | classify | selectAffected | loop | count | commit => cases hr
    · cases hs
  | fail i =>
    rw [TrackRuns.step] at hs
    split at hs
    · cases hs
      exact h.fail i
    · cases hs
  | subscribe subscriptions =>
    cases hs
    exact ⟨h.keeps, h.base, h.drafts, h.calls, h.rows, h.tasks⟩
  | publish i event =>
    rw [TrackRuns.step] at hs
    split at hs
    · cases hs
      exact ⟨h.keeps, h.base, h.drafts, h.calls, h.rows, h.tasks⟩
    · cases hs

end Invariant

end SchemaPilot.TrackRuns
