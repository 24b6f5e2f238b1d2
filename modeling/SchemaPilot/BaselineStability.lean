import SchemaPilot.BaselineElection

namespace SchemaPilot.BaselineStability

open Engine Runs TrackPayload LegacyRegistry BaselineElection

variable {ι : Type}

def Active (db : Tables) (e : Nat) (r : SchemaSnapshot) : Prop :=
  r ∈ db.snapshots ∧ r.endpointId = e ∧ r.isActiveBaseline = true

/-- What a request finds against a baseline, and the rows that it logs for it. -/
def legacyDiffs (r : SchemaSnapshot) (req : Request) : List DriftItem :=
  classifyContractDrift (structuralDiff r.normalizedSchema (.obj req.normalizedSchema))

def driftViolations (e : Nat) (fingerprint : String) (diffs : List DriftItem) : List Violation :=
  diffs.filterMap (fun item =>
    item.severity.map (fun severity => ⟨e, fingerprint, severity, item.path, item.old, item.new⟩))

/-- The endpoint whose baselines a step clears. -/
def clearing (s : State ι) : Action ι → Option Nat
  | .advance i =>
    match (s.call i).pc with
    | .clearBaselines e => some e
    | _ => none
  | _ => none

/-- A request starts to clear baselines only while none is committed: what it has read before
still holds. -/
def NoStaleElection (s : State ι) (a : Action ι) : Prop :=
  ∀ e ∈ clearing s a, ∀ r ∈ s.db.snapshots, r.endpointId = e → r.isActiveBaseline = false

instance (s : State ι) (a : Action ι) : Decidable (NoStaleElection s a) :=
  inferInstanceAs (Decidable (∀ e ∈ clearing s a, ∀ r ∈ s.db.snapshots,
    r.endpointId = e → r.isActiveBaseline = false))

/-- The baseline that a request goes by is the active one, and what it has logged so far is the
drift from it. -/
def ComparedOk (db : Tables) (req : Request) (w : Call) : Prop :=
  match w.pc with
  | .selectBaseline _ _ => w.session.violations = []
  | .logViolations e _ diffs todo =>
    ∃ r, Active db e r ∧ w.baselineFingerprint = some r.fingerprint ∧ diffs = legacyDiffs r req ∧
      ∃ logged, diffs = logged ++ todo ∧
        w.session.violations = driftViolations e req.fingerprint logged
  | .commitViolations e _ diffs =>
    ∃ r, Active db e r ∧ w.baselineFingerprint = some r.fingerprint ∧ diffs = legacyDiffs r req ∧
      w.session.violations = driftViolations e req.fingerprint diffs
  | .finished (some _) =>
    ∀ e, w.registered = some (e, true) → ∃ r, Active db e r ∧ (r.fingerprint = req.fingerprint ∨
      w.baselineFingerprint = some r.fingerprint ∧
        driftViolations e req.fingerprint (legacyDiffs r req) ⊆ db.violations)
  | _ => True

structure StableInv (c : Config ι) (s : State ι) : Prop where
  base : ElectionInv c s
  free : ∀ i e, electing (s.call i).pc = some e →
    ∀ r ∈ s.db.snapshots, r.endpointId = e → r.isActiveBaseline = false
  calls : ∀ i, ComparedOk s.db (c.request i) (s.call i)

theorem stableInv_init (c : Config ι) : StableInv c init := ⟨electionInv_init c, nofun, fun _ => trivial⟩

/-- Active baselines and violations stay. -/
structure Grows (db db' : Tables) : Prop where
  active : ∀ r ∈ db.snapshots, r.isActiveBaseline = true → r ∈ db'.snapshots
  violations : db.violations ⊆ db'.violations

theorem ComparedOk.keep {db db' : Tables} {req : Request} {w : Call} (hg : Grows db db')
    (h : ComparedOk db req w) : ComparedOk db' req w := by
  have hactive : ∀ e r, Active db e r → Active db' e r := fun e r ⟨hr, he, ha⟩ =>
    ⟨hg.active r hr ha, he, ha⟩
  unfold ComparedOk at h ⊢
  split
  · next hpc => simpa only [hpc] using h
  · next hpc =>
    simp only [hpc] at h
    obtain ⟨r, hr, hrest⟩ := h
    exact ⟨r, hactive _ r hr, hrest⟩
  · next hpc =>
    simp only [hpc] at h
    obtain ⟨r, hr, hrest⟩ := h
    exact ⟨r, hactive _ r hr, hrest⟩
  · next hpc =>
    simp only [hpc] at h
    intro e he
    obtain ⟨r, hr, hcase⟩ := h e he
    exact ⟨r, hactive e r hr, hcase.imp_right fun ⟨hb, hv⟩ => ⟨hb, List.Subset.trans hv hg.violations⟩⟩
  · trivial

variable {c : Config ι} {s : State ι} {i : ι} {db : Tables} {w : Call} [Fintype ι] [DecidableEq ι]

/-- The committed snapshots and violations change at commits only. -/
theorem db_of_change (hs : Change c s i db w) :
    (db.snapshots = s.db.snapshots ∧ db.violations = s.db.violations) ∨
      db = commit s.db (s.call i).session ∧
        (electing (s.call i).pc = none ∨ ∃ e, (s.call i).pc = .commitBaseline e) := by
  cases hs with
  | commitSnapshot e inserted hpc => exact .inr ⟨rfl, .inl (by rw [hpc]; rfl)⟩
  | commitBaseline e hpc => exact .inr ⟨rfl, .inr ⟨e, hpc⟩⟩
  | commitViolations e inserted diffs hpc => exact .inr ⟨rfl, .inl (by rw [hpc]; rfl)⟩
  | _ => exact .inl ⟨rfl, rfl⟩

theorem electing_of_change (hs : Change c s i db w) {e : Nat} (he : electing w.pc = some e) :
    (s.call i).pc = .setBaseline e ∨ (s.call i).pc = .clearBaselines e := by
  cases hs with
  | clearBaselines e' hpc =>
    cases he
    exact .inr hpc
  | setBaseline e' hpc =>
    cases he
    exact .inl hpc
  | contract hpc =>
    exfalso
    revert he
    cases (c.request i).benchmark <;> exact nofun
  | _ => cases he

theorem StableInv.grows (h : StableInv c s) (hs : Change c s i db w) : Grows s.db db := by
  obtain ⟨hsnapshots, hviolations⟩ | ⟨rfl, hpc | ⟨e, hpc⟩⟩ := db_of_change hs
  · exact ⟨fun r hr _ => hsnapshots ▸ hr, fun v hv => hviolations ▸ hv⟩
  · obtain ⟨hc, he⟩ := h.base.untouched hpc
    exact ⟨fun r hr _ => (mem_commit_snapshots hc he r).mpr (.inl hr), List.subset_append_left _ _⟩
  · refine ⟨fun r hr ha => (h.base.mem_commit_election hpc fun he => ?_).mpr hr,
      List.subset_append_left _ _⟩
    rw [h.free i e (by rw [hpc]; rfl) r hr he] at ha
    cases ha

/-- No endpoint that a request is electing for has an active baseline after a step. -/
theorem StableInv.free_change (h : StableInv c s) (hs : Change c s i db w)
    (hok : NoStaleElection s (.advance i)) (j : ι) {e : Nat}
    (hj : electing ((s.set db i w).call j).pc = some e) {r : SchemaSnapshot} (hr : r ∈ db.snapshots)
    (he : r.endpointId = e) : r.isActiveBaseline = false := by
  have hbefore : (∀ r ∈ s.db.snapshots, r.endpointId = e → r.isActiveBaseline = false) ∧
      ((s.call i).pc = .commitBaseline e → False) := by
    rw [set_call] at hj
    split at hj
    · obtain hpc | hpc := electing_of_change hs hj
      · refine ⟨h.free i e (by rw [hpc]; rfl), fun hpc' => ?_⟩
        rw [hpc] at hpc'
        cases hpc'
      · refine ⟨hok e (by simp [clearing, hpc]), fun hpc' => ?_⟩
        rw [hpc] at hpc'
        cases hpc'
    · next hji => exact ⟨h.free j e hj, fun hpc => hji (h.base.electors j i e hj (by rw [hpc]; rfl))⟩
  obtain ⟨hsnapshots, -⟩ | ⟨rfl, hpc | ⟨e', hpc⟩⟩ := db_of_change hs
  · exact hbefore.1 r (hsnapshots ▸ hr) he
  · obtain ⟨hc, he'⟩ := h.base.untouched hpc
    rcases (mem_commit_snapshots hc he' r).mp hr with hr | hr
    · exact hbefore.1 r hr he
    · exact (h.base.calls i).1 r hr
  · refine hbefore.1 r ((h.base.mem_commit_election hpc fun hre => ?_).mp hr) he
    exact hbefore.2 (he.symm.trans hre ▸ hpc)

theorem StableInv.compared_change (h : StableInv c s) (hs : Change c s i db w) :
    ComparedOk db (c.request i) w := by
  have hbase := h.base.base.calls i
  rw [LocalOk] at hbase
  have hl := h.calls i
  rw [ComparedOk] at hl
  cases hs with
  | contract hpc =>
    rw [ComparedOk]
    cases (c.request i).benchmark <;> trivial
  | commitSnapshot e inserted hpc => exact rfl
  | compare e inserted hpc r diffs hfind hne hdiffs =>
    simp only [hpc] at hl
    exact ⟨r, h.base.found hpc hfind, rfl, hdiffs, [], rfl, hl⟩
  | sameBaseline e inserted hpc r hfind heq =>
    simp only [hpc] at hbase
    intro e' he'
    obtain rfl := registered_endpoint hbase.1 he'
    exact ⟨r, h.base.found hpc hfind, .inl heq⟩
  | noBaselineKnown e hpc hfind =>
    simp only [hpc] at hbase
    intro e' he'
    cases hbase.1.symm.trans he'
  | commitBaseline e hpc =>
    simp only [hpc] at hbase
    intro e' he'
    obtain rfl := registered_endpoint hbase.1 he'
    obtain ⟨r, hr, he, hf⟩ := (h.base.base.registered i _ true hbase.1).2
    refine ⟨{ r with isActiveBaseline := true }, ⟨?_, he, rfl⟩, .inl hf⟩
    rw [h.base.commit_election hpc, List.mem_map]
    refine ⟨r, hr, ?_⟩
    rw [if_pos he, decide_eq_true hf]
  | logged e inserted diffs hpc =>
    simp only [hpc] at hl
    obtain ⟨r, hr, hb, hdiffs, logged, hlogged, hv⟩ := hl
    rw [List.append_nil] at hlogged
    exact ⟨r, hr, hb, hdiffs, hlogged ▸ hv⟩
  | skipItem e inserted diffs item todo hpc hseverity =>
    simp only [hpc] at hl
    obtain ⟨r, hr, hb, hdiffs, logged, hlogged, hv⟩ := hl
    refine ⟨r, hr, hb, hdiffs, logged ++ [item], ?_, ?_⟩
    · rw [hlogged, List.append_assoc, List.singleton_append]
    · simp [hv, driftViolations, hseverity]
  | logItem e inserted diffs item todo hpc severity hseverity =>
    simp only [hpc] at hl
    obtain ⟨r, hr, hb, hdiffs, logged, hlogged, hv⟩ := hl
    refine ⟨r, hr, hb, hdiffs, logged ++ [item], ?_, ?_⟩
    · rw [hlogged, List.append_assoc, List.singleton_append]
    · simp [hv, driftViolations, hseverity]
  | commitViolations e inserted diffs hpc =>
    simp only [hpc] at hbase hl
    obtain ⟨r, hr, hb, hdiffs, hv⟩ := hl
    intro e' he'
    obtain rfl := registered_endpoint hbase.1 he'
    have hgrows := h.grows (.commitViolations e inserted diffs hpc)
    refine ⟨r, ⟨hgrows.active r hr.1 hr.2.2, hr.2⟩, .inr ⟨hb, ?_⟩⟩
    rw [← hdiffs, ← hv]
    exact List.subset_append_right _ _
  | _ => trivial

theorem stableInv_step {a : Action ι} {s' : State ι} (h : StableInv c s) (hok : NoStaleElection s a)
    (hs : step c s a = some s') : StableInv c s' ∧ Grows s.db s'.db := by
  have hbase := electionInv_step h.base hs
  cases a with
  | advance i =>
    obtain ⟨db, w, hchange, rfl⟩ := change_of_advance hs
    have hgrows := h.grows hchange
    refine ⟨⟨hbase, fun j e hj r hr he => h.free_change hchange hok j hj hr he, fun j => ?_⟩, hgrows⟩
    rw [set_call]
    split
    · next hji =>
      rw [hji]
      exact h.compared_change hchange
    · exact (h.calls j).keep hgrows
  | fail i =>
    rw [step] at hs
    split at hs
    · cases hs
      refine ⟨⟨hbase, fun j e hj r hr he => ?_, fun j => ?_⟩, fun r hr _ => hr, List.Subset.refl _⟩
      · rw [set_call] at hj
        split at hj
        · cases hj
        · exact h.free j e hj r hr he
      · rw [set_call]
        split
        · trivial
        · exact h.calls j
    · cases hs
  | tick =>
    cases hs
    exact ⟨⟨hbase, h.free, h.calls⟩, fun r hr _ => hr, List.Subset.refl _⟩

theorem reachable_stableInv (h : Reachable (step c) NoStaleElection init s) : StableInv c s :=
  h.invariant (stableInv_init c) fun _ _ _ hi hok hs => (stableInv_step hi hok hs).1

/-- While no request clears a baseline that was committed after it had read none, a committed
baseline stays the only one of its endpoint, and every submission that was the first of its
fingerprint either is that baseline or has been compared with it and has logged the drift. -/
theorem baseline_kept (c : Config ι) (s : State ι) (h : Reachable (step c) NoStaleElection init s) :
    (∀ s', Reachable (step c) NoStaleElection s s' → ∀ e r, Active s.db e r →
      Active s'.db e r ∧ ∀ r', Active s'.db e r' → r' = r) ∧
      ∀ i e result, (s.call i).pc = .finished (some result) → (s.call i).registered = some (e, true) →
        ∃ r, Active s.db e r ∧ (r.fingerprint = (c.request i).fingerprint ∨
          (s.call i).baselineFingerprint = some r.fingerprint ∧
            driftViolations e (c.request i).fingerprint (legacyDiffs r (c.request i)) ⊆
              s.db.violations) := by
  have hinv := reachable_stableInv h
  refine ⟨fun s' hs' e r ⟨hr, he, ha⟩ => ?_, fun i e result hpc hreg => ?_⟩
  · have hlater : StableInv c s' ∧ r ∈ s'.db.snapshots := by
      apply hs'.invariant ⟨hinv, hr⟩
      intro t a t' ⟨ht, hmem⟩ hok hstep
      obtain ⟨ht', hgrows⟩ := stableInv_step ht hok hstep
      exact ⟨ht', hgrows.active r hmem ha⟩
    refine ⟨⟨hlater.2, he, ha⟩, fun r' ⟨hr', he', ha'⟩ => ?_⟩
    exact hlater.1.base.active r' hr' r hlater.2 (he'.trans he.symm) ha' ha
  · have hc := hinv.calls i
    rw [ComparedOk] at hc
    simp only [hpc] at hc
    exact hc e hreg

section Race

def raceConfig : Config (Fin 2) :=
  sampleConfig (fun i => if i = 0 then intSubmission else floatSubmission)

/-- Both requests have registered and the first is about to read the baseline. -/
def registration : List (Action (Fin 2)) :=
  List.replicate 8 (.advance 0) ++ List.replicate 7 (.advance 1)

def activeBaselines (s : State (Fin 2)) : List (Nat × Nat × String) :=
  (s.db.snapshots.filter SchemaSnapshot.isActiveBaseline).map
    (fun r => (r.id, r.endpointId, r.fingerprint))

theorem active_of_activeBaselines {s : State (Fin 2)} {id e : Nat} {f : String}
    (h : activeBaselines s = [(id, e, f)]) : ∃ r, Active s.db e r ∧ r.id = id ∧ r.fingerprint = f := by
  have hmem : (id, e, f) ∈ activeBaselines s := h ▸ List.mem_cons_self
  obtain ⟨r, hr, heq⟩ := List.mem_map.mp hmem
  obtain ⟨hid, hrest⟩ := Prod.mk.inj heq
  obtain ⟨he, hf⟩ := Prod.mk.inj hrest
  obtain ⟨hr, ha⟩ := List.mem_filter.mp hr
  exact ⟨r, ⟨hr, he, ha⟩, hid, hf⟩

/-- The second request reads the baseline of the first. -/
theorem baseline_kept_two_requests :
    ∃ s s' r, Reachable (step raceConfig) NoStaleElection s s' ∧ Active s.db 0 r ∧ Active s'.db 0 r ∧
      driftViolations 0 (raceConfig.request 1).fingerprint (legacyDiffs r (raceConfig.request 1)) ⊆
        s'.db.violations := by
  have hfirst : (run (step raceConfig) NoStaleElection init
      (registration ++ List.replicate 4 (Action.advance 0))).map activeBaselines =
        some [(1, 0, (raceConfig.request 0).fingerprint)] := by decide +kernel
  obtain ⟨s, hs, hactive⟩ := Option.map_eq_some_iff.mp hfirst
  obtain ⟨r, hr, -, hf⟩ := active_of_activeBaselines hactive
  have hreach := reachable_run (step raceConfig) NoStaleElection .start hs
  have hsecond : (run (step raceConfig) NoStaleElection init
      (registration ++ List.replicate 4 (Action.advance 0) ++ List.replicate 4 (Action.advance 1))).map
        (fun t => ((t.call 1).pc, (t.call 1).registered)) =
          some (.finished (some ⟨0, true, 0, 1, 0, 1⟩), some (0, true)) := by decide +kernel
  obtain ⟨s', hs', hcall⟩ := Option.map_eq_some_iff.mp hsecond
  obtain ⟨hpc, hreg⟩ := Prod.mk.inj hcall
  have hlater : run (step raceConfig) NoStaleElection s (List.replicate 4 (Action.advance 1)) = some s' := by
    rwa [run_append, hs] at hs'
  have hreach' := reachable_run (step raceConfig) NoStaleElection .start hlater
  obtain ⟨hr', hunique⟩ := (baseline_kept raceConfig s hreach).1 s' hreach' 0 r hr
  obtain ⟨r', hactive', hcompared⟩ := (baseline_kept raceConfig s'
    (reachable_run (step raceConfig) NoStaleElection .start hs')).2 1 0 _ hpc hreg
  obtain rfl := hunique r' hactive'
  refine ⟨s, s', r', hreach', hr, hr', (hcompared.resolve_left ?_).2⟩
  rw [hf]
  decide +kernel

/-- Both requests find no baseline; the second replaces that of the first, and neither has logged
any drift. -/
theorem baseline_replaced :
    ∃ s s' r r', Reachable (step raceConfig) always init s ∧ Reachable (step raceConfig) always s s' ∧
      Active s.db 0 r ∧ Active s'.db 0 r' ∧ r'.id ≠ r.id ∧ r'.fingerprint ≠ r.fingerprint ∧
      activeBaselines s' = [(r'.id, 0, r'.fingerprint)] ∧
      (∀ i, ∃ result, (s'.call i).pc = .finished (some result)) ∧
      (∀ i, (s'.call i).registered = some (0, true)) ∧
      (∀ i, (s'.call i).baselineFingerprint = some (raceConfig.request i).fingerprint) ∧
      s'.db.violations = [] := by
  let electFirst := registration ++ [Action.advance 0, Action.advance 1] ++ List.replicate 3 (Action.advance 0)
  have hfirst : (run (step raceConfig) always init electFirst).map activeBaselines =
      some [(1, 0, (raceConfig.request 0).fingerprint)] := by decide +kernel
  obtain ⟨s, hs, hactive⟩ := Option.map_eq_some_iff.mp hfirst
  let electBoth := electFirst ++ List.replicate 3 (Action.advance 1)
  have hsecond : (run (step raceConfig) always init electBoth).map
      (fun t => (activeBaselines t, t.db.violations)) =
        some ([(2, 0, (raceConfig.request 1).fingerprint)], []) := by decide +kernel
  obtain ⟨s', hs', hrest⟩ := Option.map_eq_some_iff.mp hsecond
  obtain ⟨hactive', hviolations⟩ := Prod.mk.inj hrest
  have hcalls : ∀ i, (run (step raceConfig) always init electBoth).map
      (fun t => ((t.call i).pc, (t.call i).registered, (t.call i).baselineFingerprint)) =
        some (.finished (some ⟨0, true, 0, 0, 0, 0⟩), some (0, true),
          some (raceConfig.request i).fingerprint) := by decide +kernel
  have hcall : ∀ i, (s'.call i).pc = .finished (some ⟨0, true, 0, 0, 0, 0⟩) ∧
      (s'.call i).registered = some (0, true) ∧
      (s'.call i).baselineFingerprint = some (raceConfig.request i).fingerprint := by
    intro i
    have hi := hcalls i
    rw [hs', Option.map_some, Option.some.injEq, Prod.mk.injEq, Prod.mk.injEq] at hi
    exact hi
  have hlater : run (step raceConfig) always s (List.replicate 3 (Action.advance 1)) = some s' := by
    rwa [run_append, hs] at hs'
  obtain ⟨r, hr, hid, hf⟩ := active_of_activeBaselines hactive
  obtain ⟨r', hr', hid', hf'⟩ := active_of_activeBaselines hactive'
  refine ⟨s, s', r, r', reachable_run (step raceConfig) always .start hs,
    reachable_run (step raceConfig) always .start hlater, hr, hr', ?_, ?_, ?_,
    fun i => ⟨_, (hcall i).1⟩, fun i => (hcall i).2.1, fun i => (hcall i).2.2, hviolations⟩
  · rw [hid, hid']
    decide
  · rw [hf, hf']
    decide +kernel
  · rw [hactive', hid', hf']

end Race

end SchemaPilot.BaselineStability
