import SchemaPilot.SessionTasks

namespace SchemaPilot.RunVerdict

open Runs SessionTasks
open MonitorRunner (ApiEndpoint MonitorRun SchemaSnapshot Tables EndpointTask IsHex isFetchError isFetchError_of_isHex
  isFetchError_append retentionSweep retentionSweep_eq_map setRun finish)
open Fetcher (Outcome fetchEndpoint error_fetchEndpoint ok_fetchEndpoint)

/-- A task as `gather` returns it: its result, or its exception. -/
def gathered (t : Task) : EndpointTask :=
  { endpoint := t.endpoint
    pc := match t.pc with
      | .done => .done t.result
      | _ => .raised }

/-- What is committed once `gather` is through: the sweep, the UPDATE of the run row, and what the
session has yet to write at the commit. -/
def commit (c : Config) (s : State) (now : Nat) : Tables :=
  let db := retentionSweep c.toConfig s.view
  { db with
    runs := setRun db.runs s.runId (finish now (s.tasks.map gathered))
    snapshots := db.snapshots ++ s.added.snapshots
    diffs := db.diffs ++ s.added.diffs }

/-- The task's snapshot is stored, and its hash is that of a schema. -/
def GotSchema (db : Tables) (t : Task) : Prop :=
  ∃ snap, t.snap = some snap ∧ ∃ r ∈ db.snapshots, r.id = snap.id ∧ r.endpointId = t.endpoint.id ∧
    r.schemaHash = snap.schemaHash ∧ isFetchError r.schemaHash = false

/-- The status of a run is whether all its tasks got a schema. -/
def StatusTells (db : Tables) (runId : Nat) (tasks : List Task) : Prop :=
  ∀ row ∈ db.runs, row.id = runId →
    (row.status = .success ↔ ∀ t ∈ tasks, GotSchema db t) ∧
      (row.status = .partial_failure ↔ ¬∀ t ∈ tasks, GotSchema db t)

/-- The fetch of the task came back with an error, or raised. -/
def failed (t : Task) : Bool := t.fetch.all Outcome.isError

def answeredNull (t : Task) : Bool := t.fetch.any Outcome.isNull

/-- The task raised because it called the session while another one was inside it. -/
def collided (t : Task) : Bool :=
  match t.pc, t.fetch with
  | .raised, some _ => true
  | _, _ => false

section Invariant

variable {c : Config} {s s' : State} {k : Nat} {task task' : Task}

/-- What a task has done so far. -/
structure TaskOk (c : Config) (runId startedAt : Nat) (t : Task) : Prop where
  fetched : ∀ o, t.fetch = some o → ∃ id, t.snap =
    some ((fetchEndpoint c.fetchTimeoutSec o).snapshot c.toConfig id t.endpoint.id runId startedAt)
  unfetched : t.pc = .fetch → t.fetch = none ∧ t.snap = none
  raised : t.fetch = none → t.snap = none
  written : (t.pc = .selectPrior ∨ ∃ batch, t.pc = .flushDiffs batch) →
    ∃ o, t.fetch = some o ∧ (fetchEndpoint c.fetchTimeoutSec o).error = none ∧ t.result.error = none
  done : t.pc = .done →
    ∃ o, t.fetch = some o ∧ t.result.error = (fetchEndpoint c.fetchTimeoutSec o).error

def batch (t : Task) : Rows :=
  match t.pc with
  | .flushSnapshot batch | .flushDiffs batch => batch
  | _ => {}

/-- A snapshot is written, or the session or a flush has it. -/
def Kept (s : State) (snap : SchemaSnapshot) : Prop :=
  snap ∈ s.view.snapshots ∨ snap ∈ s.added.snapshots ∨ ∃ t ∈ s.tasks, snap ∈ (batch t).snapshots

theorem Kept.setTask {snap : SchemaSnapshot} (h : Kept s snap) (hk : s.tasks[k]? = some task)
    (hbatch : snap ∈ (batch task).snapshots → snap ∈ s.view.snapshots) :
    Kept (s.setTask k task') snap := by
  obtain hview | hadded | ⟨t, ht, hmem⟩ := h
  · exact .inl hview
  · exact .inr (.inl hadded)
  · obtain ⟨j, hj⟩ := List.mem_iff_getElem?.mp ht
    by_cases hkj : k = j
    · subst hkj
      obtain rfl := Option.some.inj (hk.symm.trans hj)
      exact .inl (hbatch hmem)
    · refine .inr (.inr ⟨t, List.mem_iff_getElem?.mpr ⟨j, ?_⟩, hmem⟩)
      exact (List.getElem?_set_ne hkj).trans hj

theorem Kept.flush {snap : SchemaSnapshot} (h : Kept s snap) {old : Task}
    (hk : s.tasks[k]? = some old)
    (hold : batch old = {}) {pc : Rows → Pc}
    (hpc : ∀ rows, batch { task with pc := pc rows } = rows) :
    Kept (s.flush k task pc) snap := by
  have hlt : k < s.tasks.length := (List.getElem?_eq_some_iff.mp hk).1
  have hnone : snap ∉ (batch old).snapshots := by
    rw [hold]
    exact List.not_mem_nil
  obtain ⟨heq, -⟩ | ⟨heq, -⟩ := flush_eq s k task pc
  · rw [heq]
    exact h.setTask hk fun hmem => absurd hmem hnone
  · rw [heq]
    obtain hview | hadded | hheld := h
    · exact .inl hview
    · refine .inr (.inr ⟨_, List.mem_set hlt _, ?_⟩)
      rw [hpc]
      exact hadded
    · apply Kept.setTask (s := { s with added := {} }) (.inr (.inr hheld)) hk
      exact fun hmem => absurd hmem hnone

theorem Kept.mono {snap : SchemaSnapshot} (h : Kept s snap) (htasks : s'.tasks = s.tasks)
    (hview : ∀ r ∈ s.view.snapshots, r ∈ s'.view.snapshots)
    (hadded : ∀ r ∈ s.added.snapshots, r ∈ s'.added.snapshots) : Kept s' snap := by
  obtain hmem | hmem | hmem := h
  · exact .inl (hview snap hmem)
  · exact .inr (.inl (hadded snap hmem))
  · exact .inr (.inr (htasks ▸ hmem))

variable {runId startedAt : Nat} {runs : List MonitorRun}

/-- A task that has its fetch goes on. -/
theorem TaskOk.goOn (h : TaskOk c runId startedAt task) {t : Task}
    (hendpoint : t.endpoint = task.endpoint) (hfetch' : t.fetch = task.fetch)
    (hsnap : t.snap = task.snap)
    (hpc : t.pc ≠ .fetch)
    (hwritten : (t.pc = .selectPrior ∨ ∃ batch, t.pc = .flushDiffs batch) →
      ∃ o, t.fetch = some o ∧
    (fetchEndpoint c.fetchTimeoutSec o).error = none ∧ t.result.error = none)
    (hdone : t.pc = .done → ∃ o, t.fetch = some o ∧ t.result.error = (fetchEndpoint c.fetchTimeoutSec o).error) :
    TaskOk c runId startedAt t := by
  refine ⟨fun o ho => ?_, fun heq => absurd heq hpc, fun hnone => ?_, hwritten, hdone⟩
  · rw [hsnap, hendpoint]
    exact h.fetched o (hfetch'.symm.trans ho)
  · rw [hsnap]
    exact h.raised (hfetch'.symm.trans hnone)

structure RunInv (c : Config) (runId startedAt : Nat) (runs : List MonitorRun) (s : State) : Prop where
  id : s.runId = runId
  started : s.startedAt = startedAt
  runs : s.view.runs = runs
  tasks : ∀ t ∈ s.tasks, TaskOk c runId startedAt t
  kept : ∀ t ∈ s.tasks, ∀ snap, t.snap = some snap → Kept s snap

theorem runInv_gather (c : Config) (db : Tables) (nextId clock : Nat)
    (endpoints : List ApiEndpoint) :
    RunInv c nextId clock (db.runs ++ [{ id := nextId, startedAt := clock, status := .running }])
      (gather db nextId clock endpoints) := by
  refine ⟨rfl, rfl, rfl, fun t ht => ?_, fun t ht snap hsnap => ?_⟩
  · obtain ⟨ep, -, rfl⟩ := List.mem_map.mp ht
    exact ⟨nofun, fun _ => ⟨rfl, rfl⟩, fun _ => rfl, nofun, nofun⟩
  · obtain ⟨ep, -, rfl⟩ := List.mem_map.mp ht
    cases hsnap

theorem RunInv.setTask (h : RunInv c runId startedAt runs s) (hk : s.tasks[k]? = some task)
    (hbatch : ∀ snap ∈ (batch task).snapshots, snap ∈ s.view.snapshots)
    (htask : TaskOk c runId startedAt task')
    (hsnap : ∀ snap, task'.snap = some snap → Kept s snap) :
    RunInv c runId startedAt runs (s.setTask k task') := by
  have hmem : ∀ t ∈ s.tasks.set k task', t ∈ s.tasks ∨ t = task' := fun t ht => List.mem_or_eq_of_mem_set ht
  refine ⟨h.id, h.started, h.runs, fun t ht => ?_, fun t ht snap hts => ?_⟩
  · obtain ht | rfl := hmem t ht
    · exact h.tasks t ht
    · exact htask
  · obtain ht | rfl := hmem t ht
    · exact (h.kept t ht snap hts).setTask hk (hbatch snap)
    · exact (hsnap snap hts).setTask hk (hbatch snap)

theorem RunInv.flush (h : RunInv c runId startedAt runs s) {old : Task}
    (hk : s.tasks[k]? = some old)
    (hold : batch old = {}) {pc : Rows → Pc}
    (hpc : ∀ rows, batch { task with pc := pc rows } = rows)
    (hrefused : TaskOk c runId startedAt { task with pc := .refused })
    (hgranted : TaskOk c runId startedAt { task with pc := pc s.added })
    (hsnap : ∀ snap, task.snap = some snap → Kept s snap) :
    RunInv c runId startedAt runs (s.flush k task pc) := by
  obtain ⟨heq, -⟩ | ⟨heq, -⟩ := flush_eq s k task pc
  · rw [heq]
    refine h.setTask hk (fun snap hmem => ?_) hrefused hsnap
    rw [hold] at hmem
    cases hmem
  · have hkept : ∀ snap, Kept s snap → Kept ({ s with added := {} }.setTask k { task with pc := pc s.added }) snap :=
      fun snap hs => heq ▸ hs.flush hk hold hpc
    rw [heq]
    refine ⟨h.id, h.started, h.runs, fun t ht => ?_, fun t ht snap hts => ?_⟩
    · obtain ht | rfl := List.mem_or_eq_of_mem_set ht
      · exact h.tasks t ht
      · exact hgranted
    · obtain ht | rfl := List.mem_or_eq_of_mem_set ht
      · exact hkept snap (h.kept t ht snap hts)
      · exact hkept snap (hsnap snap hts)

theorem RunInv.mono (h : RunInv c runId startedAt runs s) (hid : s'.runId = s.runId)
    (hstarted : s'.startedAt = s.startedAt)
    (hruns : s'.view.runs = s.view.runs) (htasks : s'.tasks = s.tasks)
    (hview : ∀ r ∈ s.view.snapshots, r ∈ s'.view.snapshots)
    (hadded : ∀ r ∈ s.added.snapshots, r ∈ s'.added.snapshots) : RunInv c runId startedAt runs s' :=
  ⟨hid.trans h.id, hstarted.trans h.started, hruns.trans h.runs, htasks ▸ h.tasks,
    fun t ht snap hts => (h.kept t (htasks ▸ ht) snap hts).mono htasks hview hadded⟩

theorem runInv_change (h : RunInv c runId startedAt runs s) (hk : s.tasks[k]? = some task)
    (hs : Change c s k task s') : RunInv c runId startedAt runs s' := by
  have hmem : task ∈ s.tasks := List.mem_of_getElem? hk
  have hold := h.tasks task hmem
  have hsnap := h.kept task hmem
  have hwrite : ∀ rows, RunInv c runId startedAt runs (s.write rows) := by
    intro rows
    refine h.mono rfl rfl rfl rfl (fun r hr => ?_) fun r hr => hr
    exact List.mem_append_left _ hr
  have hbatch : ∀ rows, batch task = rows → ∀ snap ∈ (batch task).snapshots, snap ∈ (s.write rows).view.snapshots := by
    rintro rows rfl snap hs
    exact List.mem_append_right _ hs
  cases hs with
  | fetched o hpc =>
    have hempty : batch task = {} := by rw [batch, hpc]
    have hok : ∀ pc, (pc = .refused ∨ ∃ rows, pc = .flushSnapshot rows) →
        TaskOk c runId startedAt { task with fetch := some o, snap := some (s.snapshotOf c task o s.nextId), pc } := by
      intro pc hpc
      refine ⟨fun o' ho => ?_, fun heq => ?_, fun heq => ?_, fun heq => ?_, fun heq => ?_⟩
      · obtain rfl := Option.some.inj ho
        exact ⟨s.nextId, by rw [← h.id, ← h.started]; rfl⟩
      · obtain rfl | ⟨rows, rfl⟩ := hpc <;> cases heq
      · cases heq
      · obtain rfl | ⟨rows, rfl⟩ := hpc <;> obtain heq | ⟨_, heq⟩ := heq <;> cases heq
      · obtain rfl | ⟨rows, rfl⟩ := hpc <;> cases heq
    let added : Rows := { s.added with snapshots := s.added.snapshots ++ [s.snapshotOf c task o s.nextId] }
    have hadd : RunInv c runId startedAt runs { s with added, nextId := s.nextId + 1 } :=
      h.mono rfl rfl rfl rfl (fun r hr => hr) fun r hr => List.mem_append_left _ hr
    refine hadd.flush hk hempty (fun _ => rfl) (hok _ (.inl rfl)) (hok _ (.inr ⟨_, rfl⟩)) fun snap hts => ?_
    obtain rfl := Option.some.inj hts
    exact .inr (.inl List.mem_concat_self)
  | fetchRaises hpc =>
    obtain ⟨hfetch, hts⟩ := hold.unfetched hpc
    refine h.setTask hk (fun snap hs => ?_) ⟨hold.fetched, nofun, hold.raised, nofun, nofun⟩ hsnap
    rw [batch, hpc] at hs
    cases hs
  | written rows o hpc hfetch hok result herror =>
    have hrows : batch task = rows := by rw [batch, hpc]
    have hkept : ∀ snap, task.snap = some snap → Kept (s.write rows) snap := (hwrite rows).kept task hmem
    obtain ⟨heq, -⟩ | ⟨heq, -⟩ := select_eq (s.write rows) k { task with result }
    · rw [heq]
      exact (hwrite rows).setTask hk (hbatch rows hrows) (hold.goOn rfl rfl rfl nofun nofun nofun) hkept
    · rw [heq]
      refine (hwrite rows).setTask hk (hbatch rows hrows) (hold.goOn rfl rfl rfl nofun (fun _ => ?_) nofun) hkept
      exact ⟨o, hfetch, error_of_ok hok, herror⟩
  | failed rows o hpc hfetch hok result herror =>
    have hrows : batch task = rows := by rw [batch, hpc]
    refine (hwrite rows).setTask hk (hbatch rows hrows) (hold.goOn rfl rfl rfl nofun nofun fun _ => ?_)
      ((hwrite rows).kept task hmem)
    exact ⟨o, hfetch, herror⟩
  | selected snap hpc hts rows hrows result herror =>
    have hempty : batch task = {} := by rw [batch, hpc]
    obtain ⟨o, hfetch, herror', hresult⟩ := hold.written (.inl hpc)
    have hadd : RunInv c runId startedAt runs { s with added := { s.added with diffs := s.added.diffs ++ rows } } :=
      h.mono rfl rfl rfl rfl (fun r hr => hr) fun r hr => hr
    refine RunInv.flush hadd hk hempty (fun _ => rfl) (hold.goOn rfl rfl rfl nofun nofun nofun)
      (hold.goOn rfl rfl rfl nofun (fun _ => ?_) nofun) (hadd.kept task hmem)
    exact ⟨o, hfetch, herror', herror.trans hresult⟩
  | diffsWritten rows hpc =>
    have hrows : batch task = rows := by rw [batch, hpc]
    obtain ⟨o, hfetch, herror, hresult⟩ := hold.written (.inr ⟨rows, hpc⟩)
    refine (hwrite rows).setTask hk (hbatch rows hrows) (hold.goOn rfl rfl rfl nofun nofun fun _ => ?_)
      ((hwrite rows).kept task hmem)
    exact ⟨o, hfetch, hresult.trans herror.symm⟩
  | refused hpc =>
    refine h.setTask hk (fun snap hs => ?_) (hold.goOn rfl rfl rfl nofun nofun nofun) hsnap
    rw [batch, hpc] at hs
    cases hs

theorem reachable_runInv {db : Tables} {nextId clock : Nat} {endpoints : List ApiEndpoint}
    (h : Reachable (step c) always (gather db nextId clock endpoints) s) :
    RunInv c nextId clock (db.runs ++ [{ id := nextId, startedAt := clock, status := .running }]) s := by
  refine h.invariant (runInv_gather c db nextId clock endpoints) fun _ _ _ hi _ hs => ?_
  obtain ⟨k, task, hk, hchange⟩ := step_cases hs
  exact runInv_change hi hk hchange

end Invariant

section Verdict

variable {c : Config} {s : State} {runId startedAt now : Nat} {runs : List MonitorRun} {t : Task}

theorem batch_of_finished (h : t.finished) : batch t = {} := by
  unfold Task.finished at h
  unfold batch
  split at h <;> simp_all

/-- Whatever a task has added is stored by the commit. -/
theorem stored_commit (c : Config) (now : Nat) {snap : SchemaSnapshot} (h : Kept s snap)
    (hfinished : ∀ t ∈ s.tasks, t.finished) :
    ∃ r ∈ (commit c s now).snapshots, r.id = snap.id ∧ r.endpointId = snap.endpointId ∧
      r.schemaHash = snap.schemaHash := by
  obtain ⟨g, hg, heq⟩ := retentionSweep_eq_map c.toConfig s.view
  obtain hview | hadded | ⟨t, ht, hmem⟩ := h
  · refine ⟨g snap, List.mem_append_left _ ?_, ?_⟩
    · rw [heq]
      exact List.mem_map_of_mem hview
    · rw [hg snap]
      exact ⟨rfl, rfl, rfl⟩
  · exact ⟨snap, List.mem_append_right _ hadded, rfl, rfl, rfl⟩
  · rw [batch_of_finished (hfinished t ht)] at hmem
    cases hmem

theorem isFetchError_snapshot (hsha256 : ∀ b, IsHex (c.sha256 b)) (o : Outcome)
    (id e runId startedAt : Nat) :
    isFetchError ((fetchEndpoint c.fetchTimeoutSec o).snapshot c.toConfig id e runId startedAt).schemaHash =
      (o.isError || o.isNull) := by
  have hor : (o.isError || o.isNull) = !(fetchEndpoint c.fetchTimeoutSec o).ok := by
    rw [ok_fetchEndpoint, ← Bool.not_or, Bool.not_not]
  rw [hor]
  by_cases h : (fetchEndpoint c.fetchTimeoutSec o).ok = true
  · simp only [MonitorRunner.FetchResult.snapshot, h, if_true]
    exact isFetchError_of_isHex (hsha256 _)
  · simp only [MonitorRunner.FetchResult.snapshot, if_neg h, isFetchError_append]
    rw [Bool.eq_false_iff.mpr h]
    rfl

theorem gotSchema_iff (hsha256 : ∀ b, IsHex (c.sha256 b)) (h : TaskOk c runId startedAt t)
    (hkept : ∀ snap, t.snap = some snap → Kept s snap) (hfinished : ∀ t ∈ s.tasks, t.finished) :
    GotSchema (commit c s now) t ↔ failed t = false ∧ answeredNull t = false := by
  cases hfetch : t.fetch with
  | none =>
    have hsnap := h.raised hfetch
    constructor
    · rintro ⟨snap, hts, -⟩
      cases hsnap.symm.trans hts
    · rintro ⟨hfailed, -⟩
      rw [failed, hfetch] at hfailed
      cases hfailed
  | some o =>
    obtain ⟨id, hsnap⟩ := h.fetched o hfetch
    have hreal := isFetchError_snapshot hsha256 o id t.endpoint.id runId startedAt
    have hiff : failed t = false ∧ answeredNull t = false ↔ (o.isError || o.isNull) = false := by
      simp [failed, answeredNull, hfetch]
    rw [hiff, ← hreal]
    constructor
    · rintro ⟨snap, hts, r, -, -, -, hhash, hr⟩
      obtain rfl := Option.some.inj (hsnap.symm.trans hts)
      exact hhash ▸ hr
    · intro hr
      obtain ⟨r, hmem, hid, hendpoint, hhash⟩ := stored_commit c now (hkept _ hsnap) hfinished
      exact ⟨_, hsnap, r, hmem, hid, hendpoint, hhash, hhash ▸ hr⟩

/-- A task that is through returned no error exactly when its fetch has none and it did not
collide. -/
theorem gathered_clean_iff (h : TaskOk c runId startedAt t) (hfinished : t.finished) :
    ((gathered t).isRaised = false ∧ ∀ r, (gathered t).result = some r → r.error.any (· ≠ "") = false) ↔
      failed t = false ∧ collided t = false := by
  unfold Task.finished at hfinished
  split at hfinished
  · next hpc =>
    obtain ⟨o, hfetch, herror⟩ := h.done hpc
    have hraised : (gathered t).isRaised = false := by simp [gathered, EndpointTask.isRaised, hpc]
    have hresult : (gathered t).result = some t.result := by simp [gathered, EndpointTask.result, hpc]
    have hcollided : collided t = false := by simp [collided, hpc]
    have hfailed : failed t = o.isError := by simp [failed, hfetch]
    rw [hraised, hresult, hcollided, hfailed]
    obtain ⟨hno, hnone⟩ | ⟨hyes, text, htext, hne⟩ := error_fetchEndpoint c.fetchTimeoutSec o
    · rw [hno]
      refine iff_of_true ⟨rfl, fun r hr => ?_⟩ ⟨rfl, rfl⟩
      rw [← Option.some.inj hr, herror, hnone]
      rfl
    · rw [hyes]
      refine iff_of_false (fun hclean => ?_) (fun hclean => by cases hclean.1)
      have hempty := hclean.2 t.result rfl
      rw [herror, htext] at hempty
      exact absurd (of_decide_eq_false hempty) (not_not.mpr hne)
  · next hpc =>
    have hraised : (gathered t).isRaised = true := by simp [gathered, EndpointTask.isRaised, hpc]
    rw [hraised]
    refine iff_of_false (fun hclean => by cases hclean.1) fun hclean => ?_
    cases hfetch : t.fetch with
    | none => simp [failed, hfetch] at hclean
    | some o => simp [collided, hpc, hfetch] at hclean
  · cases hfinished

theorem status_finish (now : Nat) (tasks : List EndpointTask) (row : MonitorRun) :
    ((finish now tasks row).status = .success ↔
      ∀ t ∈ tasks, t.isRaised = false ∧ ∀ r, t.result = some r → r.error.any (· ≠ "") = false) ∧
    ((finish now tasks row).status = .partial_failure ↔ (finish now tasks row).status ≠ .success) := by
  constructor
  · unfold finish
    dsimp only
    split
    · next hfailed =>
      refine iff_of_false nofun fun hclean => ?_
      obtain hraised | herror := Bool.or_eq_true_iff.mp hfailed
      · obtain ⟨t, ht, htrue⟩ := List.any_eq_true.mp hraised
        cases (hclean t ht).1.symm.trans htrue
      · obtain ⟨r, hr, htrue⟩ := List.any_eq_true.mp herror
        obtain ⟨t, ht, hresult⟩ := List.mem_filterMap.mp hr
        cases ((hclean t ht).2 r hresult).symm.trans htrue
    · next hclean =>
      refine iff_of_true rfl fun t ht => ?_
      obtain ⟨hraised, herror⟩ := Bool.or_eq_false_iff.mp (Bool.eq_false_iff.mpr hclean)
      refine ⟨Bool.eq_false_iff.mpr (List.any_eq_false.mp hraised t ht), fun r hr => ?_⟩
      exact Bool.eq_false_iff.mpr (List.any_eq_false.mp herror r (List.mem_filterMap.mpr ⟨t, ht, hr⟩))
  · unfold finish
    dsimp only
    split <;> simp

/-- The row of a run is in the table, and what has its id is that row as `finish` leaves it. -/
theorem runs_commit {nextId clock : Nat} {db : Tables}
    (h : RunInv c nextId clock (db.runs ++ [{ id := nextId, startedAt := clock, status := .running }]) s) :
    (∃ row ∈ (commit c s now).runs, row.id = nextId) ∧
      ∀ row ∈ (commit c s now).runs, row.id = nextId → ∃ row', row = finish now (s.tasks.map gathered) row' := by
  have hruns : (commit c s now).runs = setRun (db.runs ++ [{ id := nextId, startedAt := clock, status := .running }])
      nextId (finish now (s.tasks.map gathered)) := by
    rw [← h.runs, ← h.id]
    rfl
  rw [hruns]
  constructor
  · refine ⟨_, List.mem_map_of_mem List.mem_concat_self, ?_⟩
    rw [if_pos rfl]
    rfl
  · intro row hrow hid
    obtain ⟨row', -, rfl⟩ := List.mem_map.mp hrow
    split at hid
    · next heq => exact ⟨row', by rw [if_pos heq]⟩
    · next hne => exact absurd hid hne

theorem not_and_not_iff {F K N : Prop} : ((¬F ∧ ¬K) ↔ ¬F ∧ ¬N) ↔ F ∨ (K ↔ N) := by
  by_cases h : F
  · simp [h]
  · simp [h, not_iff_not]

/-- The status tells the runs apart unless a null answer or a collision stands against it. -/
theorem status_tells_iff (c : Config) (hsha256 : ∀ b, IsHex (c.sha256 b)) (db : Tables)
    (nextId clock : Nat)
    (endpoints : List ApiEndpoint) (s : State)
    (h : Reachable (step c) always (gather db nextId clock endpoints) s)
    (hfinished : ∀ t ∈ s.tasks, t.finished)
    (now : Nat) :
    StatusTells (commit c s now) nextId s.tasks ↔
      (∃ t ∈ s.tasks, failed t) ∨ ((∃ t ∈ s.tasks, collided t) ↔ ∃ t ∈ s.tasks, answeredNull t) := by
  have hinv := reachable_runInv h
  have hgot : (∀ t ∈ s.tasks, GotSchema (commit c s now) t) ↔
      ¬(∃ t ∈ s.tasks, failed t) ∧ ¬∃ t ∈ s.tasks, answeredNull t := by
    simp only [not_exists, not_and, Bool.not_eq_true, ← forall_and]
    refine forall₂_congr fun t ht => ?_
    exact gotSchema_iff hsha256 (hinv.tasks t ht) (hinv.kept t ht) hfinished
  have hclean : (∀ t ∈ s.tasks.map gathered,
      t.isRaised = false ∧ ∀ r, t.result = some r → r.error.any (· ≠ "") = false) ↔
      ¬(∃ t ∈ s.tasks, failed t) ∧ ¬∃ t ∈ s.tasks, collided t := by
    simp only [not_exists, not_and, Bool.not_eq_true, ← forall_and, List.forall_mem_map]
    refine forall₂_congr fun t ht => ?_
    exact gathered_clean_iff (hinv.tasks t ht) (hfinished t ht)
  obtain ⟨⟨row, hrow, hid⟩, hfinish⟩ : (∃ row ∈ (commit c s now).runs, row.id = nextId) ∧ _ := runs_commit hinv
  have htells : StatusTells (commit c s now) nextId s.tasks ↔
      ((¬(∃ t ∈ s.tasks, failed t) ∧ ¬∃ t ∈ s.tasks, collided t) ↔
        ¬(∃ t ∈ s.tasks, failed t) ∧ ¬∃ t ∈ s.tasks, answeredNull t) := by
    rw [← hclean, ← hgot]
    constructor
    · intro htells
      obtain ⟨row', rfl⟩ := hfinish row hrow hid
      exact (status_finish now _ row').1.symm.trans (htells _ hrow hid).1
    · intro hiff row hrow hid
      obtain ⟨row', rfl⟩ := hfinish row hrow hid
      obtain ⟨hsuccess, hpartial⟩ := status_finish now (s.tasks.map gathered) row'
      exact ⟨hsuccess.trans hiff, hpartial.trans (not_congr (hsuccess.trans hiff))⟩
  exact htells.trans not_and_not_iff

end Verdict

section Sample

def sampleConfig : Config := ⟨MonitorRunner.sampleConfig, 10⟩

def orders : ApiEndpoint := ⟨0, "orders", true⟩

def users : ApiEndpoint := ⟨1, "users", true⟩

/-- One endpoint answers with an object, then the other one with a value. -/
def bothAnswer (body : Json) : List Action :=
  [.fetched 0 (.response 12 200 2 "application/json" (some (.obj []))), .resume 0, .resume 0, .resume 0,
    .fetched 1 (.response 15 200 4 "application/json" (some body)), .resume 1, .resume 1, .resume 1]

theorem status_tells_two_answers :
    ∃ s, Reachable (step sampleConfig) always (gather .empty 0 0 [orders, users]) s ∧
      s.tasks.length = 2 ∧ StatusTells (commit sampleConfig s 1) 0 s.tasks := by
  have hrun : (run (step sampleConfig) always (gather .empty 0 0 [orders, users]) (bothAnswer (.obj []))).map
      (fun s => (s.tasks.map Task.finished, s.tasks.map collided, s.tasks.map answeredNull)) =
        some ([true, true], [false, false], [false, false]) := by decide +kernel
  obtain ⟨s, hs, hrest⟩ := Option.map_eq_some_iff.mp hrun
  obtain ⟨hfinished, hrest⟩ := Prod.mk.inj hrest
  obtain ⟨hcollided, hnull⟩ := Prod.mk.inj hrest
  have hreach := reachable_run (step sampleConfig) always .start hs
  have hall : ∀ (f : Task → Bool) (b : Bool), s.tasks.map f = [b, b] → ∀ t ∈ s.tasks, f t = b := by
    intro f b hf t ht
    have hmem : f t ∈ s.tasks.map f := List.mem_map_of_mem ht
    rw [hf] at hmem
    simpa using hmem
  have hlength : s.tasks.length = 2 := by simpa using congrArg List.length hfinished
  refine ⟨s, hreach, hlength, (status_tells_iff sampleConfig MonitorRunner.isHex_sampleDigest .empty 0 0
    [orders, users] s hreach (hall _ true hfinished) 1).mpr (.inr (iff_of_false ?_ ?_))⟩
  · rintro ⟨t, ht, htrue⟩
    cases (hall _ false hcollided t ht).symm.trans htrue
  · rintro ⟨t, ht, htrue⟩
    cases (hall _ false hnull t ht).symm.trans htrue

/-- An endpoint answers null, which is stored as a failed fetch, and the run is a success. -/
theorem success_without_schema :
    ¬∀ s, Reachable (step sampleConfig) always (gather .empty 0 0 [orders]) s → (∀ t ∈ s.tasks, t.finished) →
      StatusTells (commit sampleConfig s 1) 0 s.tasks := by
  intro h
  have hrun : (run (step sampleConfig) always (gather .empty 0 0 [orders])
      [.fetched 0 (.response 12 200 4 "application/json" (some .null)), .resume 0]).map
      (fun s => (s.tasks.all Task.finished, s.tasks.any answeredNull,
        (commit sampleConfig s 1).runs.map fun row => (row.id, row.status))) =
          some (true, true, [(0, .success)]) := by decide +kernel
  obtain ⟨s, hs, hrest⟩ := Option.map_eq_some_iff.mp hrun
  obtain ⟨hfinished, hrest⟩ := Prod.mk.inj hrest
  obtain ⟨hnull, hruns⟩ := Prod.mk.inj hrest
  have hreach := reachable_run (step sampleConfig) always .start hs
  have hdone : ∀ t ∈ s.tasks, t.finished := List.all_eq_true.mp hfinished
  obtain ⟨t, ht, htrue⟩ := List.any_eq_true.mp hnull
  obtain ⟨row, hrow, heq⟩ := List.mem_map.mp (hruns ▸ List.mem_cons_self)
  obtain ⟨hid, hstatus⟩ := Prod.mk.inj heq
  have hgot := (h s hreach hdone row hrow hid).1.mp hstatus t ht
  have hinv := reachable_runInv hreach
  have hreal := (gotSchema_iff MonitorRunner.isHex_sampleDigest (hinv.tasks t ht) (hinv.kept t ht) hdone).mp hgot
  cases hreal.2.symm.trans htrue

end Sample

end SchemaPilot.RunVerdict
