import SchemaPilot.VersionClassification

namespace SchemaPilot.EventPublication

open Registry Runs Webhook Enqueue TrackRuns VersionClassification

variable {ι : Type}

def finished : Pc → Bool
  | .finished => true
  | _ => false

/-- A task publishes its event only after the route's commit, unless a delivery to one of the
affected consumers has committed the session before the task was created. -/
def afterCommit (c : Config ι) (s : State ι) : Action ι → Prop
  | .publish i event =>
    finished (s.pc i) = true ∨ c.base.inlineDelivery = true ∧ 0 < event.affectedConsumerCount
  | .advance _ _ _ | .respond _ _ | .fail _ | .subscribe _ => True

instance (c : Config ι) (s : State ι) : (a : Action ι) → Decidable (afterCommit c s a)
  | .publish i event => inferInstanceAs (Decidable (finished (s.pc i) = true ∨
      c.base.inlineDelivery = true ∧ 0 < event.affectedConsumerCount))
  | .advance _ _ _ | .respond _ _ | .fail _ | .subscribe _ => isTrue trivial

theorem taskOk_committed {c : Config ι} {versions : List SchemaVersionRecord} {t : RegistryTxn.Txn}
    {pc : Pc} {event : DriftEvent} (h : TaskOk c versions t pc event)
    (hafter : finished pc = true ∨ c.base.inlineDelivery = true ∧ 0 < event.affectedConsumerCount) :
    EventCommitted versions event := by
  obtain hf | ⟨hi, hn⟩ := hafter
  · obtain hv | rfl | ⟨rfl, -⟩ := h.version
    · exact hv
    · cases hf
    · cases hf
  · exact h.inline hi hn

/-- The events published so far are about committed versions. -/
def PublishedOk (s : State ι) : Prop :=
  ∀ event ∈ s.published, EventCommitted s.registry.db.versions event

theorem PublishedOk.keep {s s' : State ι} (h : PublishedOk s)
    (hk : Keeps s.registry.db.versions s'.registry.db.versions)
    (hp : s'.published = s.published) : PublishedOk s' := by
  intro event hm
  rw [hp] at hm
  exact (h event hm).keep hk

variable [Fintype ι] [DecidableEq ι]

theorem published_advanceUpsert {c : Config ι} {s s' : State ι} {i : ι}
    (h : advanceUpsert c s i = some s') : s'.published = s.published := by
  rw [advanceUpsert] at h
  split at h
  · cases h
    rfl
  · cases h
    rfl
  · obtain ⟨registry, -, rfl⟩ := Option.map_eq_some_iff.mp h
    rfl

/-- A request publishes nothing itself. -/
theorem published_advanceCall {c : Config ι} {s s' : State ι} {i : ι} {fresh now : Nat}
    (h : advanceCall c s i fresh now = some s') : s'.published = s.published := by
  rw [advanceCall] at h
  split at h
  · exact published_advanceUpsert h
  · split at h
    · cases h
      rfl
    · split at h <;> obtain rfl := Option.some.inj h <;> rfl
  · cases h
    rfl
  · cases h
    rfl
  · cases h
    rfl
  · obtain ⟨p, -, rfl⟩ := Option.map_eq_some_iff.mp h
    rfl
  · cases h
    rfl
  · cases h
  · cases h

theorem publishedOk_step {c : Config ι} {s s' : State ι} {a : Action ι}
    {old : List SchemaVersionRecord} (hI : RunInv c old s) (hp : PublishedOk s)
    (hok : afterCommit c s a) (hs : step c s a = some s') : PublishedOk s' := by
  have hk := (hI.rebase.step hs).keeps
  cases a with
  | advance i fresh now => exact hp.keep hk (published_advanceCall hs)
  | respond i outcome =>
    rw [step] at hs
    split at hs
    · obtain ⟨pc, -, rfl⟩ := Option.map_eq_some_iff.mp hs
      exact hp
    · cases hs
  | fail i =>
    rw [step] at hs
    split at hs
    · cases hs
      exact hp
    · cases hs
  | subscribe subscriptions =>
    cases hs
    exact hp
  | publish i event =>
    rw [step] at hs
    split at hs
    · next hm =>
      cases hs
      exact forall_mem_concat hp (taskOk_committed (hI.tasks i event hm) hok)
    · cases hs

/-- In a run whose tasks wait for a commit, an event is published only when the version it
names is committed. -/
theorem published_committed (c : Config ι) {s : State ι}
    (h : Reachable (step c) (afterCommit c) init s) :
    ∀ event ∈ s.published, ∃ r ∈ s.registry.db.versions, r.endpointId = event.endpointId ∧
      r.version = event.newVersion ∧ r.fingerprint = event.newFingerprint := by
  have hI : RunInv c [] s ∧ PublishedOk s := by
    refine h.invariant (I := fun s => RunInv c [] s ∧ PublishedOk s) ?_ ?_
    · exact ⟨RunInv.init c, fun event hm => by cases hm⟩
    · rintro s a s' ⟨hI, hp⟩ hok hs
      exact ⟨hI.step hs, publishedOk_step hI hp hok hs⟩
  exact hI.2

def widenedConfig : Config Bool := sampleConfig widenedSha256 some widened

/-- The event about the second version. -/
def widenedEvent : DriftEvent where
  eventId := 0
  endpointId := 0
  endpointName := "svc POST /orders"
  namespace_ := "n"
  oldFingerprint := "0a729e6ab6035dcd37f199094b9a24d60279d01ee62db8fa3cca7c3fa2dcb417"
  newFingerprint := "73a603da77a37e886a14b8c2ac441c920e99006a4314627c9abef71b5aed1c6a"
  oldVersion := 1
  newVersion := 2
  severity := .RISKY
  compatibilityClassification := .RISKY
  schemaDiffSummary := [{
    path := "score"
    oldType := some "integer"
    newType := some "number"
    oldNullable := some false
    newNullable := some false
    classification := .RISKY
    reason := "int->float widening" }]
  affectedConsumerCount := 0

theorem published_committed_widened :
    ∃ s, Reachable (step widenedConfig) (afterCommit widenedConfig) init s ∧
      widenedEvent ∈ s.published ∧
      ∃ r ∈ s.registry.db.versions, r.endpointId = 0 ∧ r.version = 2 ∧
        r.fingerprint = "73a603da77a37e886a14b8c2ac441c920e99006a4314627c9abef71b5aed1c6a" := by
  have hmap : (run (step widenedConfig) (afterCommit widenedConfig) init
      (oneAfterTheOther ++ [.publish true widenedEvent])).map State.published = some [widenedEvent] := by
    decide +kernel
  obtain ⟨s, hs, hp⟩ := Option.map_eq_some_iff.mp hmap
  have hr := reachable_run (step widenedConfig) (afterCommit widenedConfig) .start hs
  have hm : widenedEvent ∈ s.published := hp ▸ List.mem_singleton_self _
  exact ⟨s, hr, hm, published_committed widenedConfig hr widenedEvent hm⟩

/-- The task publishes while the commit of its request is under way, and the request fails. -/
theorem published_uncommitted : ¬∀ (c : Config Bool) (s : State Bool),
    Reachable (step c) always init s → ∀ event ∈ s.published, ∃ r ∈ s.registry.db.versions,
      r.endpointId = event.endpointId ∧ r.version = event.newVersion ∧
        r.fingerprint = event.newFingerprint := by
  intro h
  have hmap : (run (step widenedConfig) always init
      (oneAfterTheOther.dropLast ++ [.publish true widenedEvent, .fail true])).map (fun s =>
        (s.published, s.registry.db.versions.map SchemaVersionRecord.version)) =
      some ([widenedEvent], [1]) := by
    decide +kernel
  obtain ⟨s, hs, hp⟩ := Option.map_eq_some_iff.mp hmap
  obtain ⟨hpublished, hversions⟩ := Prod.mk.inj hp
  have hreach := reachable_run (step widenedConfig) always .start hs
  have hm : widenedEvent ∈ s.published := hpublished ▸ List.mem_singleton_self _
  obtain ⟨r, hr, -, hv, -⟩ := h widenedConfig s hreach widenedEvent hm
  have hone : r.version ∈ s.registry.db.versions.map SchemaVersionRecord.version :=
    List.mem_map_of_mem hr
  rw [hversions, hv] at hone
  exact absurd hone (by decide)

end SchemaPilot.EventPublication
