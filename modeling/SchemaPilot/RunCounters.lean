import SchemaPilot.Conservation
import SchemaPilot.RunVerdict
import SchemaPilot.SessionExclusion

namespace SchemaPilot.RunCounters

open Runs SessionTasks RunVerdict Conservation
open MonitorRunner (ApiEndpoint SchemaSnapshot DiffRow EndpointResult EndpointTask Tables finish driftRows getPriorSnapshot
  retentionSweep_eq_map)
open Fetcher (Outcome fetchEndpoint)

/-- The tables a run writes to. -/
inductive Table where
  | snapshots | diffs

def size : Table → Rows → Nat
  | .snapshots, rows => rows.snapshots.length
  | .diffs, rows => rows.diffs.length

def tableSize : Table → Tables → Nat
  | .snapshots, db => db.snapshots.length
  | .diffs, db => db.diffs.length

/-- The rows of a table that a task has added, as its local variables have it. -/
def added : Table → Task → Nat
  | .snapshots, t => if t.fetch.isSome then 1 else 0
  | .diffs, t => t.result.diffsDetected

/-- The rows that are written, that the session has yet to write, and that a flush writes. -/
def held (table : Table) (s : State) : Nat :=
  tableSize table s.view + size table s.added + (s.tasks.map (fun t => size table (batch t))).sum

/-- What a task reports goes with how far it has come. -/
def Reports (t : Task) : Prop :=
  match t.pc with
  | .fetch => t.fetch = none ∧ t.result.diffsDetected = 0
  | .flushSnapshot _ => t.fetch.isSome ∧ t.result.diffsDetected = 0
  | .selectPrior => t.fetch.isSome ∧ t.result.snapshotCreated = true ∧ t.result.diffsDetected = 0
  | .flushDiffs _ | .done => t.fetch.isSome ∧ t.result.snapshotCreated = true
  | .refused => t.fetch.isSome
  | .raised => t.fetch = none → t.result.diffsDetected = 0

structure Counted (db : Tables) (s : State) : Prop where
  reports : ∀ t ∈ s.tasks, Reports t
  held : ∀ table, held table s = tableSize table db + (s.tasks.map (added table)).sum

section Steps

variable {c : Config} {db : Tables} {s s' : State} {k : Nat} {task task' : Task}

theorem held_setTask (table : Table) (hk : s.tasks[k]? = some task) (task' : Task) :
    held table (s.setTask k task') + size table (batch task) = held table s + size table (batch task') := by
  have hsum := sum_set (fun t => size table (batch t)) hk task'
  simp only [held, State.setTask]
  omega

theorem size_empty (table : Table) : size table {} = 0 := by
  cases table <;> rfl

theorem held_write (table : Table) (s : State) (rows : Rows) :
    held table (s.write rows) = held table s + size table rows := by
  cases table <;> simp only [held, State.write, tableSize, size, List.length_append] <;> omega

/-- A flush takes over what the session has yet to write; a refused one takes nothing. -/
theorem held_flush (table : Table) {old : Task} (hk : s.tasks[k]? = some old) (hold : batch old = {})
    {pc : Rows → Pc} (hpc : ∀ rows, batch { task with pc := pc rows } = rows) :
    held table (s.flush k task pc) = held table s := by
  obtain ⟨heq, -⟩ | ⟨heq, -⟩ := flush_eq s k task pc
  · have hset := held_setTask table hk { task with pc := .refused }
    have hrefused : batch { task with pc := .refused } = {} := rfl
    rw [hold, hrefused, size_empty] at hset
    rw [heq]
    exact hset
  · have hset := held_setTask (s := { s with added := {} }) table hk { task with pc := pc s.added }
    rw [hpc, hold, size_empty] at hset
    rw [heq]
    have hempty : held table { s with added := {} } + size table s.added = held table s := by
      simp only [held, size_empty]
      omega
    omega

theorem reports_setTask (h : ∀ t ∈ s.tasks, Reports t) (htask : Reports task') :
    ∀ t ∈ s.tasks.set k task', Reports t := by
  intro t ht
  obtain ht | rfl := List.mem_or_eq_of_mem_set ht
  · exact h t ht
  · exact htask

/-- A task goes on: what is held grows by what the task adds. -/
theorem Counted.goOn (h : Counted db s) (hk : s.tasks[k]? = some task) (htasks : s'.tasks = s.tasks.set k task')
    (htask : Reports task')
    (hheld : ∀ table, RunCounters.held table s' + added table task = RunCounters.held table s + added table task') :
    Counted db s' := by
  refine ⟨htasks ▸ reports_setTask h.reports htask, fun table => ?_⟩
  have hsum := sum_set (added table) hk task'
  have hheld := hheld table
  have hold := h.held table
  rw [htasks]
  omega

theorem added_congr (table : Table) {t t' : Task} (hfetch : t'.fetch = t.fetch)
    (hdiffs : t'.result.diffsDetected = t.result.diffsDetected) : added table t' = added table t := by
  cases table
  · simp only [added, hfetch]
  · exact hdiffs

/-- A task adds rows and calls `flush`. -/
theorem Counted.flush (h : Counted db s) (hk : s.tasks[k]? = some task) (hold : batch task = {}) {s₁ : State}
    (htasks : s₁.tasks = s.tasks) {pc : Rows → Pc} (hpc : ∀ rows, batch { task' with pc := pc rows } = rows)
    (hrefused : Reports { task' with pc := .refused }) (hgranted : ∀ rows, Reports { task' with pc := pc rows })
    (hheld : ∀ table, RunCounters.held table s₁ + added table task = RunCounters.held table s + added table task') :
    Counted db (s₁.flush k task' pc) := by
  have hkeep : ∀ table, RunCounters.held table (s₁.flush k task' pc) = RunCounters.held table s₁ :=
    fun table => held_flush table (htasks.symm ▸ hk) hold hpc
  obtain ⟨heq, -⟩ | ⟨heq, -⟩ := flush_eq s₁ k task' pc
  · refine h.goOn hk ?_ hrefused fun table => ?_
    · rw [heq, ← htasks]
      rfl
    · rw [hkeep]
      exact (hheld table).trans (congrArg _ (added_congr table rfl rfl))
  · refine h.goOn hk ?_ (hgranted s₁.added) fun table => ?_
    · rw [heq, ← htasks]
      rfl
    · rw [hkeep]
      exact (hheld table).trans (congrArg _ (added_congr table rfl rfl))

/-- A flush comes back, and its task goes on without rows of its own. -/
theorem Counted.written (h : Counted db s) (hk : s.tasks[k]? = some task) (hempty : batch task' = {})
    (hfetch : task'.fetch = task.fetch) (hdiffs : task'.result.diffsDetected = task.result.diffsDetected)
    (htask : Reports task') : Counted db ((s.write (batch task)).setTask k task') := by
  apply h.goOn hk rfl htask
  intro table
  have hset := held_setTask (s := s.write (batch task)) table hk task'
  rw [held_write, hempty, size_empty] at hset
  rw [added_congr table hfetch hdiffs]
  omega

/-- A task goes on without a row. -/
theorem Counted.quiet (h : Counted db s) (hk : s.tasks[k]? = some task) (hold : batch task = {})
    (hempty : batch task' = {}) (hfetch : task'.fetch = task.fetch)
    (hdiffs : task'.result.diffsDetected = task.result.diffsDetected) (htask : Reports task') :
    Counted db (s.setTask k task') := by
  apply h.goOn hk rfl htask
  intro table
  have hset := held_setTask table hk task'
  rw [hold, hempty, size_empty] at hset
  rw [added_congr table hfetch hdiffs]
  omega

theorem counted_resume (h : Counted db s) (hk : s.tasks[k]? = some task) (hs : s.resume c k task = some s') :
    Counted db s' := by
  have hreports := h.reports task (List.mem_of_getElem? hk)
  unfold State.resume at hs
  unfold Reports at hreports
  split at hs
  · next rows o hpc hfetch =>
    obtain rfl : batch task = rows := by rw [batch, hpc]
    simp only [hpc] at hreports
    obtain ⟨hsome, hdiffs⟩ := hreports
    dsimp only at hs
    split at hs
    · cases hs
      -- the task calls `execute`, and is refused or runs it
      obtain ⟨heq, -⟩ | ⟨heq, -⟩ := select_eq (s.write (batch task)) k
        { task with result := { task.result with
          snapshotCreated := true, error := (fetchEndpoint c.fetchTimeoutSec o).error } }
      · rw [heq]
        exact h.written hk rfl rfl rfl hsome
      · rw [heq]
        exact h.written hk rfl rfl rfl ⟨hsome, rfl, hdiffs⟩
    · cases hs
      exact h.written hk rfl rfl rfl ⟨hsome, rfl⟩
  · next snap hpc hsnap =>
    simp only [hpc] at hreports
    obtain ⟨hsome, hcreated, hdiffs⟩ := hreports
    have hold : batch task = {} := by rw [batch, hpc]
    cases hs
    apply h.flush hk hold
    · rfl
    · exact fun _ => rfl
    · exact hsome
    · exact fun _ => ⟨hsome, hcreated⟩
    · intro table
      cases table
      · rfl
      · simp only [held, tableSize, size, added, List.length_append, hdiffs]
        omega
  · next rows hpc =>
    obtain rfl : batch task = rows := by rw [batch, hpc]
    simp only [hpc] at hreports
    cases hs
    exact h.written hk rfl rfl rfl hreports
  · next hpc =>
    simp only [hpc] at hreports
    have hold : batch task = {} := by rw [batch, hpc]
    cases hs
    refine h.quiet hk hold rfl rfl rfl fun hnone => ?_
    rw [hnone] at hreports
    cases hreports
  · cases hs

theorem counted_step {a : Action} (h : Counted db s) (hs : step c s a = some s') : Counted db s' := by
  cases a with
  | fetched k o =>
    obtain ⟨task, hk, hs⟩ := Option.bind_eq_some_iff.mp hs
    have hreports := h.reports task (List.mem_of_getElem? hk)
    unfold Reports at hreports
    split at hs
    · next hpc =>
      simp only [hpc] at hreports
      obtain ⟨hnone, hdiffs⟩ := hreports
      have hold : batch task = {} := by rw [batch, hpc]
      obtain rfl := Option.some.inj hs
      rw [State.fetched]
      apply h.flush hk hold
      · rfl
      · exact fun _ => rfl
      · rfl
      · exact fun _ => ⟨rfl, hdiffs⟩
      · intro table
        cases table
        · simp only [held, tableSize, size, added, List.length_append, List.length_singleton, hnone,
            Option.isSome_none, Option.isSome_some, Bool.false_eq_true, if_true, if_false]
          omega
        · rfl
    · cases hs
  | fetchRaises k =>
    obtain ⟨task, hk, hs⟩ := Option.bind_eq_some_iff.mp hs
    have hreports := h.reports task (List.mem_of_getElem? hk)
    unfold Reports at hreports
    split at hs
    · next hpc =>
      simp only [hpc] at hreports
      have hold : batch task = {} := by rw [batch, hpc]
      cases hs
      exact h.quiet hk hold rfl rfl rfl fun _ => hreports.2
    · cases hs
  | resume k =>
    obtain ⟨task, hk, hs⟩ := Option.bind_eq_some_iff.mp hs
    exact counted_resume h hk hs

theorem counted_gather (db : Tables) (nextId clock : Nat) (endpoints : List ApiEndpoint) :
    Counted db (gather db nextId clock endpoints) := by
  refine ⟨fun t ht => ?_, fun table => ?_⟩
  · obtain ⟨ep, -, rfl⟩ := List.mem_map.mp ht
    exact ⟨rfl, rfl⟩
  · have hzero : ∀ f : Task → Nat, (∀ ep, f (.start ep) = 0) →
        ((endpoints.map Task.start).map f).sum = 0 := by
      intro f hf
      rw [List.map_map, List.sum_eq_zero]
      intro n hn
      obtain ⟨ep, -, rfl⟩ := List.mem_map.mp hn
      exact hf ep
    rw [held, gather, hzero, hzero]
    · cases table <;> rfl
    · intro ep
      cases table <;> rfl
    · intro ep
      cases table <;> rfl

theorem reachable_counted {nextId clock : Nat} {endpoints : List ApiEndpoint}
    (h : Reachable (step c) always (gather db nextId clock endpoints) s) : Counted db s :=
  h.invariant (counted_gather db nextId clock endpoints) fun _ _ _ hi _ hs => counted_step hi hs

end Steps

section Counters

variable {t : Task}

def resultsOf (tasks : List Task) : List EndpointResult := (tasks.map gathered).filterMap EndpointTask.result

/-- What a task has added is in its result, unless it collided. -/
theorem result_of_finished (h : Reports t) (hfinished : t.finished) :
    (gathered t).result = some t.result ∧ collided t = false ∧ t.result.snapshotCreated = true ∧ added .snapshots t = 1 ∨
      (gathered t).result = none ∧ collided t = true ∧ added .snapshots t = 1 ∨
      (gathered t).result = none ∧ collided t = false ∧ added .snapshots t = 0 ∧ added .diffs t = 0 := by
  unfold Task.finished at hfinished
  unfold Reports at h
  split at hfinished
  · next hpc =>
    simp only [hpc] at h
    obtain ⟨hsome, hcreated⟩ := h
    refine .inl ⟨?_, ?_, hcreated, ?_⟩
    · simp only [gathered, EndpointTask.result, hpc]
    · simp only [collided, hpc]
    · rw [added, if_pos hsome]
  · next hpc =>
    simp only [hpc] at h
    have hnone : (gathered t).result = none := by simp only [gathered, EndpointTask.result, hpc]
    cases hfetch : t.fetch with
    | none =>
      refine .inr (.inr ⟨hnone, ?_, ?_, h hfetch⟩)
      · simp only [collided, hpc, hfetch]
      · simp only [added, hfetch, Option.isSome_none, Bool.false_eq_true, if_false]
    | some o =>
      refine .inr (.inl ⟨hnone, ?_, ?_⟩)
      · simp only [collided, hpc, hfetch]
      · simp only [added, hfetch, Option.isSome_some, if_true]
  · cases hfinished

theorem snapshots_added {tasks : List Task} (h : ∀ t ∈ tasks, Reports t) (hfinished : ∀ t ∈ tasks, t.finished) :
    (tasks.map (added .snapshots)).sum =
      (resultsOf tasks).countP EndpointResult.snapshotCreated + tasks.countP collided := by
  induction tasks with
  | nil => rfl
  | cons t tasks ih =>
    obtain ⟨ht, hrest⟩ := List.forall_mem_cons.mp h
    obtain ⟨hdone, hdones⟩ := List.forall_mem_cons.mp hfinished
    have ih := ih hrest hdones
    rw [resultsOf] at ih
    rw [resultsOf, List.map_cons, List.sum_cons, List.map_cons, List.countP_cons, ih]
    obtain ⟨hresult, hcollided, hcreated, hadded⟩ | ⟨hresult, hcollided, hadded⟩ | ⟨hresult, hcollided, hadded, -⟩ :=
      result_of_finished ht hdone
    · rw [List.filterMap_cons_some hresult, List.countP_cons, hcreated, hcollided, hadded, if_pos rfl,
        if_neg Bool.false_ne_true]
      omega
    · rw [List.filterMap_cons_none hresult, hcollided, hadded, if_pos rfl]
      omega
    · rw [List.filterMap_cons_none hresult, hcollided, hadded, if_neg Bool.false_ne_true]
      omega

theorem diffs_added {tasks : List Task} (h : ∀ t ∈ tasks, Reports t) (hfinished : ∀ t ∈ tasks, t.finished) :
    (tasks.map (added .diffs)).sum =
      ((resultsOf tasks).map EndpointResult.diffsDetected).sum +
        ((tasks.filter collided).map (added .diffs)).sum := by
  induction tasks with
  | nil => rfl
  | cons t tasks ih =>
    obtain ⟨ht, hrest⟩ := List.forall_mem_cons.mp h
    obtain ⟨hdone, hdones⟩ := List.forall_mem_cons.mp hfinished
    have ih := ih hrest hdones
    rw [resultsOf] at ih
    rw [resultsOf, List.map_cons, List.sum_cons, List.map_cons, ih]
    obtain ⟨hresult, hcollided, -⟩ | ⟨hresult, hcollided, -⟩ | ⟨hresult, hcollided, -, hadded⟩ :=
      result_of_finished ht hdone
    · rw [List.filterMap_cons_some hresult, List.map_cons, List.sum_cons,
        List.filter_cons_of_neg (by rw [hcollided]; decide), added]
      omega
    · rw [List.filterMap_cons_none hresult, List.filter_cons_of_pos hcollided, List.map_cons, List.sum_cons]
      omega
    · rw [List.filterMap_cons_none hresult, List.filter_cons_of_neg (by rw [hcollided]; decide), hadded]
      omega

variable {c : Config} {db : Tables} {s : State}

/-- Once all tasks are through no flush has a row left. -/
theorem tableSize_commit (h : Counted db s) (hfinished : ∀ t ∈ s.tasks, t.finished) (now : Nat) (table : Table) :
    tableSize table (commit c s now) = tableSize table db + (s.tasks.map (added table)).sum := by
  have hempty : (s.tasks.map (fun t => size table (batch t))).sum = 0 := by
    rw [List.sum_eq_zero]
    intro n hn
    obtain ⟨t, ht, rfl⟩ := List.mem_map.mp hn
    rw [batch_of_finished (hfinished t ht), size_empty]
  have hheld := h.held table
  rw [held, hempty, Nat.add_zero] at hheld
  rw [← hheld]
  cases table with
  | snapshots =>
    obtain ⟨g, -, heq⟩ := retentionSweep_eq_map c.toConfig s.view
    simp only [tableSize, size, commit, List.length_append, heq, List.length_map]
  | diffs => simp only [tableSize, size, commit, MonitorRunner.retentionSweep, List.length_append]

/-- Whatever the order in which the tasks of a run go on: its row has the endpoints, the snapshots
and the diffs of the run, less what those tasks have added that collided in the session. -/
theorem counters_short_by_collisions (c : Config) (db : Tables) (nextId clock : Nat)
    (endpoints : List ApiEndpoint) (s : State)
    (h : Reachable (step c) always (gather db nextId clock endpoints) s)
    (hfinished : ∀ t ∈ s.tasks, t.finished) (now : Nat) :
    ∃ row ∈ (commit c s now).runs, row.id = nextId ∧ row.endpointsChecked = endpoints.length ∧
      (commit c s now).snapshots.length =
        db.snapshots.length + row.snapshotsCreated + s.tasks.countP collided ∧
      (commit c s now).diffs.length = db.diffs.length + row.diffsDetected +
        ((s.tasks.filter collided).map (fun t => t.result.diffsDetected)).sum := by
  have hcounted := reachable_counted h
  obtain ⟨⟨row, hrow, hid⟩, hfinish⟩ : (∃ row ∈ (commit c s now).runs, row.id = nextId) ∧ _ :=
    runs_commit (reachable_runInv h)
  obtain ⟨row', rfl⟩ := hfinish row hrow hid
  refine ⟨_, hrow, hid, ?_, ?_, ?_⟩
  · rw [finish, List.length_map]
    exact SessionExclusion.length_tasks h
  · have hsize := tableSize_commit (c := c) hcounted hfinished now .snapshots
    rw [snapshots_added hcounted.reports hfinished, resultsOf] at hsize
    simp only [tableSize] at hsize
    simp only [finish]
    omega
  · have hsize := tableSize_commit (c := c) hcounted hfinished now .diffs
    rw [diffs_added hcounted.reports hfinished, resultsOf] at hsize
    simp only [tableSize] at hsize
    rw [show added .diffs = fun t => t.result.diffsDetected from rfl] at hsize
    simp only [finish]
    omega

/-- Two endpoints answer one after the other, and nothing is short. -/
theorem counters_two_answers :
    ∃ s, Reachable (step sampleConfig) always (gather .empty 0 0 [orders, users]) s ∧
      (commit sampleConfig s 1).snapshots.length = 2 ∧
      ∃ row ∈ (commit sampleConfig s 1).runs, row.endpointsChecked = 2 ∧ row.snapshotsCreated = 2 := by
  have hrun : (run (step sampleConfig) always (gather .empty 0 0 [orders, users]) (bothAnswer (.obj []))).map
      (fun s => (s.tasks.all Task.finished, s.tasks.countP collided, (commit sampleConfig s 1).snapshots.length)) =
        some (true, 0, 2) := by decide +kernel
  obtain ⟨s, hs, hrest⟩ := Option.map_eq_some_iff.mp hrun
  obtain ⟨hfinished, hrest⟩ := Prod.mk.inj hrest
  obtain ⟨hcollided, hlength⟩ := Prod.mk.inj hrest
  have hreach := reachable_run (step sampleConfig) always .start hs
  obtain ⟨row, hrow, -, hchecked, hsnapshots, -⟩ := counters_short_by_collisions sampleConfig .empty 0 0
    [orders, users] s hreach (List.all_eq_true.mp hfinished) 1
  refine ⟨s, hreach, hlength, row, hrow, hchecked, ?_⟩
  rw [hlength, hcollided] at hsnapshots
  simpa [Tables.empty] using hsnapshots.symm

end Counters

end SchemaPilot.RunCounters
