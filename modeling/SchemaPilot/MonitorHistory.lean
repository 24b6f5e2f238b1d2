import SchemaPilot.GatherHistory
import SchemaPilot.MonitorRuns

namespace SchemaPilot.MonitorHistory

open Runs MonitorRuns SnapshotHistory GatherHistory SchemaDiff
open MonitorRunner (Tables ApiEndpoint SchemaSnapshot diffRows driftRows retentionSweep_eq_map IsHex isFetchError
  isFetchError_of_isHex setRun)
open SessionTasks (Config Task)
open RunVerdict (batch)
open Fetcher (Outcome fetchEndpoint)

def refusals (s : State) : Action → List Nat
  | .task a =>
    match s.run with
    | some run => refusedBy run.session a
    | none => []
  | .start _ | .advance | .raises _ | .tick => []

/-- What holds of a run until it raises. -/
def PhaseOk (c : Config) (refused : List Nat) (run : ActiveRun) : Prop :=
  match run.pc with
  | .upsert _ => run.session.tasks = [] ∧ run.session.added = {} ∧
      HistoryOk c.toConfig run.session.view run.session.nextId (run.session.startedAt + 1) (· ∈ refused)
  | .gather => GatherOk c refused run.session
  | .sweep | .updateRun | .commit =>
    HistoryOk c.toConfig (committedBy run.session) run.session.nextId (run.session.startedAt + 1) (· ∈ refused)
  | .rollback _ | .recordFailure _ => True

structure RunOk (c : Config) (refused : List Nat) (s : State) (run : ActiveRun) : Prop where
  started : run.session.startedAt < s.clock
  next : s.nextId ≤ run.session.nextId
  past : ∀ id ∈ refused, id < run.session.nextId
  phase : PhaseOk c refused run

structure HistoryInv (c : Config) (refused : List Nat) (s : State) : Prop where
  committed : HistoryOk c.toConfig s.committed s.nextId s.clock (· ∈ refused)
  idle : s.run = none → ∀ id ∈ refused, id < s.nextId
  run : ∀ run, s.run = some run → RunOk c refused s run

theorem historyInv_init (c : Config) : HistoryInv c [] init := by
  refine ⟨historyOk_empty c.toConfig 0 0 _, fun _ id hid => ?_, fun run hrun => ?_⟩
  · cases hid
  · cases hrun

section Phases

variable {c : Config} {refused : List Nat} {session : SessionTasks.State}

/-- The tasks start on a session that has nothing to write. -/
theorem gatherOk_startTasks {table endpoints : List ApiEndpoint} (hadded : session.added = {})
    (h : HistoryOk c.toConfig session.view session.nextId (session.startedAt + 1) (· ∈ refused))
    (hpast : ∀ id ∈ refused, id < session.nextId) :
    GatherOk c refused (startTasks session table endpoints) := by
  have hstart : ∀ t ∈ (startTasks session table endpoints).tasks, ∃ ep, t = .start ep := by
    intro t ht
    obtain ⟨ep, -, rfl⟩ := List.mem_map.mp ht
    exact ⟨ep, rfl⟩
  have hflight : inFlight (startTasks session table endpoints) = {} := by
    have hsnapshots : (startTasks session table endpoints).tasks.flatMap (fun t => (batch t).snapshots) = [] := by
      rw [List.flatMap_eq_nil_iff]
      intro t ht
      obtain ⟨ep, rfl⟩ := hstart t ht
      rfl
    have hdiffs : (startTasks session table endpoints).tasks.flatMap (fun t => (batch t).diffs) = [] := by
      rw [List.flatMap_eq_nil_iff]
      intro t ht
      obtain ⟨ep, rfl⟩ := hstart t ht
      rfl
    rw [inFlight, hsnapshots, hdiffs]
  have hwhole : whole (startTasks session table endpoints) = { session.view with endpoints := table } := by
    rw [whole, hflight]
    simp only [startTasks, SessionTasks.State.write, hadded, List.append_nil]
  refine ⟨?_, fun i j t t' hi _ hholds _ => ?_, fun t ht snap hsnap => ?_, hpast, fun r hr _ => ?_⟩
  · rw [hwhole]
    apply h.congr
    · rfl
    · rfl
    · intro id
      refine or_iff_left ?_
      rintro ⟨t, ht, snap, hsnap, -⟩
      obtain ⟨ep, rfl⟩ := hstart t ht
      cases hsnap
  · obtain ⟨ep, rfl⟩ := hstart t (List.mem_of_getElem? hi)
    cases hholds
  · obtain ⟨ep, rfl⟩ := hstart t ht
    cases hsnap
  · rw [hwhole] at hr
    exact hr

/-- Once the tasks are through, the commit writes the whole. -/
theorem historyOk_finished (h : GatherOk c refused session) (hfinished : ∀ t ∈ session.tasks, t.finished) :
    HistoryOk c.toConfig (committedBy session) session.nextId (session.startedAt + 1) (· ∈ refused) := by
  have hflight : inFlight session = {} := by
    have hsnapshots : session.tasks.flatMap (fun t => (batch t).snapshots) = [] := by
      rw [List.flatMap_eq_nil_iff]
      intro t ht
      rw [RunVerdict.batch_of_finished (hfinished t ht)]
    have hdiffs : session.tasks.flatMap (fun t => (batch t).diffs) = [] := by
      rw [List.flatMap_eq_nil_iff]
      intro t ht
      rw [RunVerdict.batch_of_finished (hfinished t ht)]
    rw [inFlight, hsnapshots, hdiffs]
  have hwhole : committedBy session = whole session := by
    rw [committedBy, whole, hflight]
    simp only [SessionTasks.State.write, List.append_nil]
  rw [hwhole]
  refine h.history.congr rfl rfl fun id => (or_iff_left ?_).symm
  rintro ⟨t, ht, snap, hsnap, -⟩
  have hdone := hfinished t ht
  unfold Task.finished at hdone
  unfold comparing at hsnap
  split at hdone <;> simp_all

/-- The sweep is of what is written by then. -/
theorem historyOk_sweep
    (h : HistoryOk c.toConfig (committedBy session) session.nextId (session.startedAt + 1) (· ∈ refused)) :
    HistoryOk c.toConfig (committedBy (sweep c session)) session.nextId (session.startedAt + 1) (· ∈ refused) := by
  obtain ⟨g, hg, heq⟩ := retentionSweep_eq_map c.toConfig session.view
  let g' : SchemaSnapshot → SchemaSnapshot := fun r => if r ∈ session.view.snapshots then g r else r
  have hg' : MonitorRunner.OnlySample g' := by
    intro r
    by_cases hr : r ∈ session.view.snapshots
    · simp only [g', if_pos hr]
      exact hg r
    · simp only [g', if_neg hr]
  have hdisjoint := List.disjoint_of_nodup_append (List.Nodup.of_map _ h.ids)
  have hsnapshots : (committedBy (sweep c session)).snapshots = (committedBy session).snapshots.map g' := by
    have hview : session.view.snapshots.map g' = session.view.snapshots.map g :=
      List.map_congr_left fun r hr => if_pos hr
    have hadded : session.added.snapshots.map g' = session.added.snapshots.map id :=
      List.map_congr_left fun r hr => if_neg fun hr' => hdisjoint hr' hr
    simp only [committedBy, sweep, SessionTasks.State.write, List.map_append, hview, hadded, heq, List.map_id]
  exact (h.map hg').congr hsnapshots rfl fun _ => Iff.rfl

end Phases

section Invariant

variable {c : Config} {refused : List Nat} {s s' : State} {run : ActiveRun}

theorem HistoryInv.go (h : HistoryInv c refused s) (hrun : s.run = some run) {refused' : List Nat}
    {session : SessionTasks.State} {pc : Pc} (hstarted : session.startedAt = run.session.startedAt)
    (hnext : run.session.nextId ≤ session.nextId)
    (hsub : ∀ id ∈ refused, id ∈ refused') (hnew : ∀ id ∈ refused', id ∈ refused ∨ s.nextId ≤ id)
    (hpast : ∀ id ∈ refused', id < session.nextId) (hphase : PhaseOk c refused' ⟨session, pc⟩) :
    HistoryInv c refused' (s.go session pc) := by
  have hold := h.run run hrun
  refine ⟨h.committed.recount hnew fun snap _ _ hid => hsub _ hid, fun hnone => ?_, fun r hr => ?_⟩
  · cases hnone
  · cases hr
    exact ⟨hstarted ▸ hold.started, hold.next.trans hnext, hpast, hphase⟩

/-- A run goes on without a refusal. -/
theorem HistoryInv.stay (h : HistoryInv c refused s) (hrun : s.run = some run)
    {session : SessionTasks.State} {pc : Pc} (hstarted : session.startedAt = run.session.startedAt)
    (hnext : session.nextId = run.session.nextId) (hphase : PhaseOk c refused ⟨session, pc⟩) :
    HistoryInv c refused (s.go session pc) :=
  h.go hrun hstarted hnext.ge (fun _ hid => hid) (fun _ hid => .inl hid) (hnext ▸ (h.run run hrun).past) hphase

theorem HistoryInv.finish (h : HistoryInv c refused s) (hrun : s.run = some run) {db : Tables} {ending : Ending}
    (hdb : HistoryOk c.toConfig db run.session.nextId s.clock (· ∈ refused)) :
    HistoryInv c refused (s.finish run db ending) := by
  refine ⟨hdb, fun _ => (h.run run hrun).past, fun r hr => ?_⟩
  cases hr

theorem historyInv_change (h : HistoryInv c refused s) (hrun : s.run = some run) (hgathers : Gathers c run)
    {a : Action} (hs : Change c s run a s') : HistoryInv c (refused ++ refusals s a) s' := by
  obtain ⟨hstarted, hnext, hpast, hphase⟩ := h.run run hrun
  have hcommitted := h.committed.mono hnext le_rfl
  have hquiet : ∀ {a : Action}, refusals s a = [] → HistoryInv c refused s' →
      HistoryInv c (refused ++ refusals s a) s' := by
    intro a hnone hinv
    rw [hnone, List.append_nil]
    exact hinv
  cases hs with
  | upsert entries hpc table endpoints n =>
    simp only [PhaseOk, hpc] at hphase
    obtain ⟨-, hadded, hhistory⟩ := hphase
    have hgo : HistoryInv c refused (s.go (startTasks run.session table endpoints) .gather) := by
      apply h.stay hrun
      · rfl
      · rfl
      · exact gatherOk_startTasks hadded hhistory hpast
    exact hquiet rfl ⟨hgo.committed, hgo.idle, fun r hr =>
      ⟨(hgo.run r hr).started, (hgo.run r hr).next, (hgo.run r hr).past, (hgo.run r hr).phase⟩⟩
  | task hpc a session hsession =>
    simp only [PhaseOk, hpc] at hphase
    simp only [Gathers, hpc] at hgathers
    obtain ⟨db, endpoints, hreach⟩ := hgathers
    have hrefusals : refusals s (.task a) = refusedBy run.session a := by rw [refusals, hrun]
    have hinv := RunVerdict.reachable_runInv hreach
    have hnext' := RunVerdict.reachable_runInv (hreach.step trivial hsession)
    have hok := gatherOk_step hphase hinv hsession
    rw [hrefusals]
    refine h.go hrun hnext'.started ?_ (fun id hid => List.mem_append_left _ hid) (fun id hid => ?_) hok.past hok
    · exact (task_keeps hsession).2.1
    · refine (List.mem_append.mp hid).imp_right fun hid => ?_
      exact (mem_refusedBy hid).symm ▸ hnext
  | gathered hpc hfinished =>
    simp only [PhaseOk, hpc] at hphase
    exact hquiet rfl (h.stay hrun rfl rfl (historyOk_finished hphase hfinished))
  | sweep hpc =>
    simp only [PhaseOk, hpc] at hphase
    exact hquiet rfl (h.stay hrun rfl rfl (historyOk_sweep hphase))
  | updateRun hpc =>
    simp only [PhaseOk, hpc] at hphase
    refine hquiet rfl (h.stay hrun rfl rfl ?_)
    apply HistoryOk.congr hphase
    · rfl
    · rfl
    · exact fun _ => Iff.rfl
  | commit hpc =>
    simp only [PhaseOk, hpc] at hphase
    exact hquiet rfl (h.finish hrun (hphase.mono le_rfl hstarted))
  | raises message a ha =>
    refine hquiet ?_ (h.stay hrun rfl rfl trivial)
    obtain rfl | rfl := ha <;> rfl
  | rollback message hpc => exact hquiet rfl (h.stay hrun rfl rfl trivial)
  | recordFailure message hpc =>
    refine hquiet rfl (h.finish hrun ?_)
    apply hcommitted.congr
    · rfl
    · rfl
    · exact fun _ => Iff.rfl
  | handlerRaises message => exact hquiet rfl (h.finish hrun hcommitted)

theorem historyInv_step {a : Action} (h : HistoryInv c refused s)
    (hgathers : ∀ run, s.run = some run → Gathers c run)
    (hs : step c s a = some s') : HistoryInv c (refused ++ refusals s a) s' := by
  obtain ⟨entries, rfl, hnone, rfl⟩ | ⟨rfl, rfl⟩ | ⟨run, hrun, hchange⟩ := step_cases hs
  · rw [refusals, List.append_nil]
    refine ⟨h.committed.mono le_rfl (Nat.le_succ _), fun hsome => ?_, fun run hrun => ?_⟩
    · cases hsome
    · cases hrun
      refine ⟨Nat.lt_succ_self _, Nat.le_succ _, fun id hid => Nat.lt_succ_of_lt (h.idle hnone id hid), rfl, rfl, ?_⟩
      apply (h.committed.mono (Nat.le_succ _) (Nat.le_succ _)).congr
      · rfl
      · rfl
      · exact fun _ => Iff.rfl
  · rw [refusals, List.append_nil]
    refine ⟨h.committed.mono le_rfl (Nat.le_succ _), h.idle, fun run hrun => ?_⟩
    obtain ⟨hstarted, hnext, hpast, hphase⟩ := h.run run hrun
    exact ⟨Nat.lt_succ_of_lt hstarted, hnext, hpast, hphase⟩
  · exact historyInv_change h hrun (hgathers run hrun) hchange

theorem reachable_historyInv {refused : List Nat}
    (h : Reachable (traced (step c) refusals) always (init, []) (s, refused)) : HistoryInv c refused s := by
  have hboth : HistoryInv c refused s ∧ Reachable (step c) always init s := by
    refine h.invariant (I := fun p => HistoryInv c p.2 p.1 ∧ Reachable (step c) always init p.1)
      ⟨historyInv_init c, .start⟩ fun p a p' hi _ hs => ?_
    obtain ⟨s', hs', rfl⟩ := Option.map_eq_some_iff.mp hs
    exact ⟨historyInv_step hi.1 (reachable_gathers hi.2) hs', hi.2.step trivial hs'⟩
  exact hboth.1

end Invariant

/-- The drift of a committed snapshot from the last successful one is recorded exactly when no
failed fetch lies between them and its task was not refused by the flush that it called for it, or
there is nothing to record. -/
theorem drift_recorded_iff (c : Config) (hsha256 : ∀ b, IsHex (c.sha256 b)) (s : State) (refused : List Nat)
    (h : Reachable (traced (step c) refusals) always (init, []) (s, refused)) (snap last : SchemaSnapshot)
    (hsnap : snap ∈ s.committed.snapshots) (hsucceeded : Succeeded snap)
    (hinc : Increasing s.committed snap.endpointId) (hlast : IsLastSuccess s.committed snap last)
    (hchanged : last.schemaHash ≠ snap.schemaHash) :
    rowsOf s.committed snap.id = diffRows c.toConfig last snap ↔
      (NoOutage s.committed last snap ∧ snap.id ∉ refused) ∨
        diffSchemas c.isPrintable last.nodes snap.nodes = [] := by
  have hhistory := (reachable_historyInv h).committed
  have hnothing : [] = diffRows c.toConfig last snap ↔ diffSchemas c.isPrintable last.nodes snap.nodes = [] := by
    rw [diffRows, eq_comm, List.map_eq_nil_iff]
  by_cases hrefused : snap.id ∈ refused
  · rw [hhistory.fresh snap.id hrefused, hnothing, or_iff_right fun hcond => hcond.2 hrefused]
  have hdrift := hhistory.drift snap hsnap hsucceeded hrefused hinc
  by_cases hout : NoOutage s.committed last snap
  · refine iff_of_true ?_ (.inl ⟨hout, hrefused⟩)
    have hprior : IsPrior s.committed snap last :=
      ⟨hlast.mem, hlast.endpoint, hlast.earlier,
        fun r hr he hlt => not_lt.mp fun hlt' => hout r hr he hlt' hlt⟩
    have hhash : isFetchError last.schemaHash = false := by
      obtain ⟨-, hhash, -⟩ | ⟨hnull, -⟩ := hhistory.shape last hlast.mem
      · rw [hhash]
        exact isFetchError_of_isHex (hsha256 _)
      · have hs := hlast.succeeded
        rw [Succeeded, hnull] at hs
        cases hs
    rw [hdrift last hprior, driftRows, if_pos]
    exact ⟨hchanged, by rw [hhash]; decide⟩
  · have hbetween : ∃ r ∈ s.committed.snapshots, r.endpointId = snap.endpointId ∧
        last.createdAt < r.createdAt ∧ r.createdAt < snap.createdAt := by
      by_contra hnone
      exact hout fun r hr he hlt hlt' => hnone ⟨r, hr, he, hlt, hlt'⟩
    obtain ⟨r, hr, he, hlt, hlt'⟩ := hbetween
    obtain ⟨prior, hprior, hle⟩ := exists_isPrior hr he hlt'
    have hfailed : isFetchError prior.schemaHash = true := by
      obtain ⟨hs, -⟩ | ⟨-, hfailed⟩ := hhistory.shape prior hprior.mem
      · have := hlast.latest prior hprior.mem hs hprior.endpoint hprior.earlier
        omega
      · exact hfailed
    rw [hdrift prior hprior, driftRows, if_neg fun hcond => hcond.2 hfailed, hnothing,
      or_iff_right fun hcond => hout hcond.1]

section Sample

open RunVerdict (sampleConfig)
open MonitorRunner (FetchResult isHex_sampleDigest)

def emptyFetch : Outcome := .response 12 200 2 "application/json" (some (.obj []))

def intFetch : Outcome := .response 12 200 8 "application/json" (some (.obj [("a", .num (.int 1))]))

def outageFetch : Outcome := .response 12 503 0 "application/json" (some .null)

/-- A run over one endpoint; a fetch that succeeds is compared with the prior snapshot. -/
def monitor (o : Outcome) : List Action :=
  [.start [⟨"orders", true⟩], .advance, .task (.fetched 0 o)] ++
    List.replicate (if (fetchEndpoint 10 o).ok then 3 else 1) (.task (.resume 0)) ++ List.replicate 4 .advance

/-- The snapshot of a fetch of the sample. -/
def sampleSnapshot (o : Outcome) (id runId now : Nat) : SchemaSnapshot :=
  (fetchEndpoint 10 o).snapshot sampleConfig.toConfig id 0 runId now

theorem increasing_of_nodup {db : Tables} (h : (db.snapshots.map SchemaSnapshot.createdAt).Nodup) (e : Nat) :
    Increasing db e :=
  fun _ hr _ hr' _ _ => List.inj_on_of_nodup_map h hr hr'

theorem succeeded_of_ok {c : MonitorRunner.Config} {fetch : FetchResult} (h : fetch.ok = true)
    (id e runId now : Nat) :
    Succeeded (fetch.snapshot c id e runId now) :=
  (snapshotOk_fetch c fetch id e runId now).2.mpr h

theorem drift_recorded_two_runs :
    ∃ s snap last, Reachable (traced (step sampleConfig) refusals) always (init, []) (s, []) ∧
      snap ∈ s.committed.snapshots ∧ last ∈ s.committed.snapshots ∧
      diffRows sampleConfig.toConfig last snap ≠ [] ∧
      rowsOf s.committed snap.id = diffRows sampleConfig.toConfig last snap := by
  let last := sampleSnapshot emptyFetch 1 0 0
  let snap := sampleSnapshot intFetch 3 2 1
  have hrun : (run (traced (step sampleConfig) refusals) always (init, [])
      (monitor emptyFetch ++ monitor intFetch)).map
      (fun p => (p.1.committed.snapshots, p.2)) = some ([last, snap], []) := by decide +kernel
  obtain ⟨⟨s, refused⟩, hs, hrest⟩ := Option.map_eq_some_iff.mp hrun
  obtain ⟨hsnapshots, hrefused⟩ := Prod.mk.inj hrest
  obtain rfl : refused = [] := hrefused
  have hreach := reachable_run (traced (step sampleConfig) refusals) always .start hs
  have hmem : ∀ r, r ∈ s.committed.snapshots ↔ r = last ∨ r = snap := by
    intro r
    rw [hsnapshots]
    simp
  have hsnap := (hmem snap).mpr (.inr rfl)
  have hlastOk : Succeeded last := succeeded_of_ok (by decide) _ _ _ _
  have hsnapOk : Succeeded snap := succeeded_of_ok (by decide) _ _ _ _
  have hinc : Increasing s.committed snap.endpointId := by
    apply increasing_of_nodup
    rw [hsnapshots]
    decide
  have hlast : IsLastSuccess s.committed snap last := by
    refine ⟨(hmem last).mpr (.inl rfl), hlastOk, rfl, Nat.zero_lt_one, fun r hr _ _ hlt => ?_⟩
    rcases (hmem r).mp hr with rfl | rfl
    · exact le_rfl
    · exact absurd hlt (lt_irrefl _)
  refine ⟨s, snap, last, hreach, hsnap, hlast.mem, by decide +kernel, ?_⟩
  refine (drift_recorded_iff sampleConfig isHex_sampleDigest s [] hreach snap last hsnap hsnapOk hinc hlast
    (by decide +kernel)).mpr (.inl ⟨fun r hr _ hlt hlt' => ?_, List.not_mem_nil⟩)
  rcases (hmem r).mp hr with rfl | rfl
  · exact lt_irrefl _ hlt
  · exact lt_irrefl _ hlt'

/-- After a failed fetch the same change is not recorded. -/
theorem drift_lost_after_outage :
    ∃ s snap last, Reachable (traced (step sampleConfig) refusals) always (init, []) (s, []) ∧
      snap ∈ s.committed.snapshots ∧ Succeeded snap ∧ Increasing s.committed snap.endpointId ∧
      IsLastSuccess s.committed snap last ∧ last.schemaHash ≠ snap.schemaHash ∧
      diffRows sampleConfig.toConfig last snap ≠ [] ∧ s.committed.diffs = [] := by
  let last := sampleSnapshot emptyFetch 1 0 0
  let outage := sampleSnapshot outageFetch 3 2 1
  let snap := sampleSnapshot intFetch 5 4 2
  have hrun : (run (traced (step sampleConfig) refusals) always (init, [])
      (monitor emptyFetch ++ monitor outageFetch ++ monitor intFetch)).map
      (fun p => (p.1.committed.snapshots, p.1.committed.diffs, p.2)) = some ([last, outage, snap], [], []) := by
    decide +kernel
  obtain ⟨⟨s, refused⟩, hs, hrest⟩ := Option.map_eq_some_iff.mp hrun
  obtain ⟨hsnapshots, hrest⟩ := Prod.mk.inj hrest
  obtain ⟨hdiffs, hrefused⟩ := Prod.mk.inj hrest
  obtain rfl : refused = [] := hrefused
  have hmem : ∀ r, r ∈ s.committed.snapshots ↔ r = last ∨ r = outage ∨ r = snap := by
    intro r
    rw [hsnapshots]
    simp
  have hlastOk : Succeeded last := succeeded_of_ok (by decide) _ _ _ _
  have hsnapOk : Succeeded snap := succeeded_of_ok (by decide) _ _ _ _
  have hinc : Increasing s.committed snap.endpointId := by
    apply increasing_of_nodup
    rw [hsnapshots]
    decide
  refine ⟨s, snap, last, reachable_run (traced (step sampleConfig) refusals) always .start hs,
    (hmem snap).mpr (.inr (.inr rfl)), hsnapOk, hinc,
    ⟨(hmem last).mpr (.inl rfl), hlastOk, rfl, by decide, fun r hr hs _ hlt => ?_⟩,
    by decide +kernel, by decide +kernel, hdiffs⟩
  rcases (hmem r).mp hr with rfl | rfl | rfl
  · exact le_rfl
  · have hok := (snapshotOk_fetch _ (fetchEndpoint 10 outageFetch) _ _ _ _).2.mp hs
    cases hok
  · exact absurd hlt (lt_irrefl _)

/-- The tasks of two endpoints, one after the other, and with both fetches before the first goes on. -/
def apart (o : Outcome) : List SessionTasks.Action :=
  [.fetched 0 o, .resume 0, .resume 0, .resume 0, .fetched 1 o, .resume 1, .resume 1, .resume 1]

def together (o : Outcome) : List SessionTasks.Action :=
  [.fetched 0 o, .fetched 1 o, .resume 0, .resume 0, .resume 0, .resume 1]

def monitorTasks (tasks : List SessionTasks.Action) : List Action :=
  .start [⟨"orders", true⟩, ⟨"users", true⟩] :: .advance :: (tasks.map .task ++ List.replicate 4 .advance)

/-- Two endpoints answer together, and the second task is refused: its snapshot is committed without
its drift. -/
example : (run (traced (step sampleConfig) refusals) always (init, [])
    (monitorTasks (apart emptyFetch) ++ monitorTasks (together intFetch))).map
      (fun p => (p.1.committed.snapshots.map SchemaSnapshot.id,
        p.1.committed.diffs.map MonitorRunner.DiffRow.newSnapshotId, p.2)) = some ([1, 2, 4, 5], [4], [5]) := by
  decide +kernel

end Sample

end SchemaPilot.MonitorHistory
