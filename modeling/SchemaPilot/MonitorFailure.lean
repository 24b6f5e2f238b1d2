import SchemaPilot.MonitorRuns

namespace SchemaPilot.MonitorFailure

open Runs MonitorRuns
open MonitorRunner (Tables MonitorRun setRun finish recordFailed)
open SessionTasks (Config)

/-- A run is recorded as failed, and nothing else of it is left: no snapshot, and so no diff. -/
def FailureRecorded (db : Tables) (runId : Nat) : Prop :=
  (∃ run ∈ db.runs, run.id = runId ∧ run.status = .failed ∧ run.errorMessage.isSome ∧
    run.finishedAt.isSome) ∧
    ∀ r ∈ db.snapshots, r.monitorRunId = runId → False

def Unrecorded (db : Tables) (runId : Nat) : Prop := ∀ run ∈ db.runs, run.id ≠ runId

/-- The view of a run has its own row and those of committed runs. -/
structure ViewOk (s : State) (run : ActiveRun) : Prop where
  own : run.session.runId = s.nextId
  next : s.nextId < run.session.nextId
  view : ∀ row ∈ run.session.view.runs, row.id = s.nextId ∨ ∃ row' ∈ s.committed.runs, row'.id = row.id

structure RunInv (s : State) : Prop where
  runs : ∀ row ∈ s.committed.runs, row.id < s.nextId
  ended : ∀ e ∈ s.ended, e.1 < s.nextId
  raised : ∀ runId, (runId, Ending.raised) ∈ s.ended → Unrecorded s.committed runId
  run : ∀ run, s.run = some run → ViewOk s run

theorem runInv_init : RunInv init := ⟨nofun, nofun, nofun, nofun⟩

theorem mem_setRun {runs : List MonitorRun} {runId : Nat} {f : MonitorRun → MonitorRun}
    (hf : ∀ run, (f run).id = run.id) {row : MonitorRun} (h : row ∈ setRun runs runId f) :
    ∃ row' ∈ runs, row'.id = row.id := by
  obtain ⟨row', hrow', rfl⟩ := List.mem_map.mp h
  refine ⟨row', hrow', ?_⟩
  split
  · exact (hf row').symm
  · rfl

variable {c : Config} {s s' : State} {run : ActiveRun}

/-- A run that goes on touches nothing that is committed. -/
theorem RunInv.go (h : RunInv s) (hrun : s.run = some run) {session : SessionTasks.State} {pc : Pc}
    (hid : session.runId = run.session.runId) (hnext : run.session.nextId ≤ session.nextId)
    (hview : ∀ row ∈ session.view.runs, (∃ row' ∈ run.session.view.runs, row'.id = row.id) ∨ row ∈ s.committed.runs) :
    RunInv (s.go session pc) := by
  have hold := h.run run hrun
  refine ⟨h.runs, h.ended, h.raised, fun _ hr => ?_⟩
  cases hr
  refine ⟨hid.trans hold.own, hold.next.trans_le hnext, fun row hrow => ?_⟩
  obtain ⟨row', hrow', heq⟩ | hrow := hview row hrow
  · rw [← heq]
    exact hold.view row' hrow'
  · exact .inr ⟨row, hrow, rfl⟩

/-- A run that ends writes rows of committed runs, or its own when it returns. -/
theorem RunInv.finish (h : RunInv s) (hrun : s.run = some run) {db : Tables} {ending : Ending}
    (hdb : ∀ row ∈ db.runs, (row.id = s.nextId ∧ ending = .returned) ∨
      ∃ row' ∈ s.committed.runs, row'.id = row.id) :
    RunInv (s.finish run db ending) := by
  obtain ⟨hown, hnext, -⟩ := h.run run hrun
  refine ⟨fun row hrow => ?_, forall_mem_concat (fun e he => (h.ended e he).trans hnext) (hown ▸ hnext),
    fun runId hraised row hrow heq => ?_, nofun⟩
  · obtain ⟨hid, -⟩ | ⟨row', hrow', hid⟩ := hdb row hrow
    · exact hid ▸ hnext
    · exact hid ▸ (h.runs row' hrow').trans hnext
  · obtain hraised | hraised := List.mem_append.mp hraised
    · obtain ⟨hid, -⟩ | ⟨row', hrow', hid⟩ := hdb row hrow
      · exact absurd (h.ended _ hraised) (by rw [← heq, hid]; exact lt_irrefl _)
      · exact h.raised runId hraised row' hrow' (hid.trans heq)
    · obtain ⟨rfl, hending⟩ := Prod.mk.inj (List.mem_singleton.mp hraised)
      obtain ⟨-, hret⟩ | ⟨row', hrow', hid⟩ := hdb row hrow
      · cases hending.trans hret
      · exact (h.runs row' hrow').ne (hid.trans (heq.trans hown))

theorem runInv_change (h : RunInv s) (hrun : s.run = some run) {a : Action} (hs : Change c s run a s') :
    RunInv s' := by
  have hsame : ∀ row ∈ run.session.view.runs,
      (∃ row' ∈ run.session.view.runs, row'.id = row.id) ∨ row ∈ s.committed.runs :=
    fun row hrow => .inl ⟨row, hrow, rfl⟩
  cases hs with
  | upsert entries hpc table endpoints n =>
    have hgo : RunInv (s.go (startTasks run.session table endpoints) .gather) := h.go hrun rfl le_rfl hsame
    exact ⟨hgo.runs, hgo.ended, hgo.raised, fun run' hrun' =>
      ⟨(hgo.run run' hrun').own, (hgo.run run' hrun').next, (hgo.run run' hrun').view⟩⟩
  | task hpc a session hsession =>
    obtain ⟨hid, hnext, hruns⟩ := task_keeps hsession
    exact h.go hrun hid hnext (hruns ▸ hsame)
  | gathered | sweep | raises => exact h.go hrun rfl le_rfl hsame
  | updateRun hpc =>
    refine h.go hrun rfl le_rfl fun row hrow => .inl ?_
    exact mem_setRun (f := finish s.clock (run.session.tasks.map RunVerdict.gathered)) (fun _ => rfl) hrow
  | rollback message hpc => exact h.go hrun rfl le_rfl fun row hrow => .inr hrow
  | commit hpc => exact h.finish hrun fun row hrow => ((h.run run hrun).view row hrow).imp_left fun hid => ⟨hid, rfl⟩
  | recordFailure message hpc =>
    apply h.finish hrun
    exact fun row hrow => .inr (mem_setRun (f := recordFailed s.clock message) (fun _ => rfl) hrow)
  | handlerRaises => exact h.finish hrun fun row hrow => .inr ⟨row, hrow, rfl⟩

theorem runInv_step {a : Action} (h : RunInv s) (hs : step c s a = some s') : RunInv s' := by
  obtain ⟨entries, -, hnone, rfl⟩ | ⟨-, rfl⟩ | ⟨run, hrun, hchange⟩ := step_cases hs
  · refine ⟨h.runs, h.ended, h.raised, fun run hrun => ?_⟩
    cases hrun
    refine ⟨rfl, Nat.lt_succ_self _, fun row hrow => ?_⟩
    obtain hrow | hrow := List.mem_append.mp hrow
    · exact .inr ⟨row, hrow, rfl⟩
    · exact .inl (congrArg MonitorRun.id (List.mem_singleton.mp hrow))
  · exact ⟨h.runs, h.ended, h.raised, fun run hrun =>
      ⟨(h.run run hrun).own, (h.run run hrun).next, (h.run run hrun).view⟩⟩
  · exact runInv_change h hrun hchange

theorem reachable_runInv (h : Reachable (step c) always init s) : RunInv s :=
  h.invariant runInv_init fun _ _ _ hi _ hs => runInv_step hi hs

/-- The handler rolls the run row back before it updates it, so no run that has raised is ever
recorded. -/
theorem failure_never_recorded (c : Config) (s : State) (h : Reachable (step c) always init s)
    (runId : Nat) (hraised : (runId, Ending.raised) ∈ s.ended) :
    (∀ run ∈ s.committed.runs, run.id ≠ runId) ∧ ¬FailureRecorded s.committed runId := by
  have hunrecorded := (reachable_runInv h).raised runId hraised
  exact ⟨hunrecorded, fun ⟨⟨run, hrun, hid, _⟩, _⟩ => hunrecorded run hrun hid⟩

section Sample

def sampleConfig : Config := ⟨⟨fun _ => "", fun _ => true, id, 10⟩, 10⟩

/-- A run over an empty registry, and one that raises when it reads its registry. -/
def returnedThenRaised : List Action :=
  [.start [], .advance, .advance, .advance, .advance, .advance, .tick, .start [],
    .raises "[Errno 2] No such file or directory", .advance, .advance]

theorem failure_never_recorded_second_run :
    ∃ s, Reachable (step sampleConfig) always init s ∧ s.committed.runs.map MonitorRun.id = [0] ∧
      (1, Ending.raised) ∈ s.ended ∧ ¬FailureRecorded s.committed 1 := by
  have hrun : (run (step sampleConfig) always init returnedThenRaised).map
      (fun s => (s.committed.runs.map MonitorRun.id, s.ended)) =
        some ([0], [(0, .returned), (1, .raised)]) := by decide +kernel
  obtain ⟨s, hs, hrest⟩ := Option.map_eq_some_iff.mp hrun
  obtain ⟨hids, hended⟩ := Prod.mk.inj hrest
  have hreach := reachable_run (step sampleConfig) always .start hs
  have hraised : (1, Ending.raised) ∈ s.ended := by
    rw [hended]
    decide
  exact ⟨s, hreach, hids, hraised, (failure_never_recorded sampleConfig s hreach 1 hraised).2⟩

theorem first_failure_lost :
    ∃ s, Reachable (step sampleConfig) always init s ∧ (0, Ending.raised) ∈ s.ended ∧
      s.committed.runs = [] ∧ ¬FailureRecorded s.committed 0 := by
  have hrun : (run (step sampleConfig) always init
      [.start [], .raises "[Errno 2] No such file or directory", .advance, .advance]).map
        (fun s => (s.committed.runs, s.ended)) = some ([], [(0, .raised)]) := by decide +kernel
  obtain ⟨s, hs, hrest⟩ := Option.map_eq_some_iff.mp hrun
  obtain ⟨hruns, hended⟩ := Prod.mk.inj hrest
  refine ⟨s, reachable_run (step sampleConfig) always .start hs, ?_, hruns, ?_⟩
  · rw [hended]
    decide
  · rintro ⟨⟨row, hrow, -⟩, -⟩
    rw [hruns] at hrow
    cases hrow

end Sample

end SchemaPilot.MonitorFailure
