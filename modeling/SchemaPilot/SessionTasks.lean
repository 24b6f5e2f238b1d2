import SchemaPilot.Fetcher

namespace SchemaPilot.SessionTasks

open Runs
open MonitorRunner (ApiEndpoint MonitorRun SchemaSnapshot DiffRow Tables FetchResult EndpointResult EndpointTask
  getPriorSnapshot driftRows retentionSweep setRun finish)
open Fetcher (Outcome fetchEndpoint)

structure Config extends MonitorRunner.Config where
  fetchTimeoutSec : Nat

/-- Objects that a session has yet to write. -/
structure Rows where
  snapshots : List SchemaSnapshot := []
  diffs : List DiffRow := []

/-- Where `_process_endpoint` stands. Inside a flush it has the rows that the flush writes; a task
that calls the session while another one is inside an operation is refused, and raises. -/
inductive Pc where
  | fetch
  | flushSnapshot (batch : Rows)
  | selectPrior
  | flushDiffs (batch : Rows)
  | refused
  | done
  | raised

/-- A task with its local variables. -/
structure Task where
  endpoint : ApiEndpoint
  result : EndpointResult
  fetch : Option Outcome := none
  snap : Option SchemaSnapshot := none
  pc : Pc := .fetch

def Task.start (ep : ApiEndpoint) : Task :=
  { endpoint := ep, result := { endpointId := ep.id, name := ep.name } }

/-- The task runs an operation of the session. -/
def Task.holds (t : Task) : Bool :=
  match t.pc with
  | .flushSnapshot _ | .selectPrior | .flushDiffs _ => true
  | _ => false

/-- The task has called an operation of the session that has not come back. -/
def Task.inOperation (t : Task) : Bool :=
  match t.pc with
  | .flushSnapshot _ | .selectPrior | .flushDiffs _ | .refused => true
  | _ => false

def Task.finished (t : Task) : Bool :=
  match t.pc with
  | .done | .raised => true
  | _ => false

/-- The tasks that `gather` runs on the session of a run, with the tables as the transaction of the
session sees them. -/
structure State where
  view : Tables
  added : Rows
  nextId : Nat
  runId : Nat
  startedAt : Nat
  tasks : List Task

/-- The run row has been inserted and the registry upserted. -/
def gather (db : Tables) (nextId clock : Nat) (endpoints : List ApiEndpoint) : State where
  view := { db with runs := db.runs ++ [{ id := nextId, startedAt := clock, status := .running }] }
  added := {}
  nextId := nextId + 1
  runId := nextId
  startedAt := clock
  tasks := endpoints.map Task.start

/-- A task other than the `k`-th runs an operation of the session. -/
def State.busy (s : State) (k : Nat) : Bool := (s.tasks.eraseIdx k).any Task.holds

def State.setTask (s : State) (k : Nat) (task : Task) :
    State := { s with tasks := s.tasks.set k task }

/-- A task calls `flush`, which takes the objects that are added by then. -/
def State.flush (s : State) (k : Nat) (task : Task) (pc : Rows → Pc) : State :=
  if s.busy k then s.setTask k { task with pc := .refused }
  else { s with added := {} }.setTask k { task with pc := pc s.added }

/-- A task calls `execute`. -/
def State.select (s : State) (k : Nat) (task : Task) : State :=
  s.setTask k { task with pc := if s.busy k then .refused else .selectPrior }

/-- The end of a flush. -/
def State.write (s : State) (batch : Rows) : State :=
  { s with
    view := { s.view with
      snapshots := s.view.snapshots ++ batch.snapshots
      diffs := s.view.diffs ++ batch.diffs } }

/-- The fetch of a task returns, and it adds its snapshot. -/
def State.fetched (c : Config) (s : State) (k : Nat) (task : Task) (o : Outcome) : State :=
  let snap := (fetchEndpoint c.fetchTimeoutSec o).snapshot c.toConfig s.nextId task.endpoint.id s.runId s.startedAt
  let added := { s.added with snapshots := s.added.snapshots ++ [snap] }
  { s with added, nextId := s.nextId + 1 }.flush k { task with fetch := some o, snap := some snap } .flushSnapshot

/-- The operation that a task is inside comes back, and the task goes on to its next one. -/
def State.resume (c : Config) (s : State) (k : Nat) (task : Task) : Option State :=
  match task.pc, task.fetch, task.snap with
  | .flushSnapshot batch, some o, _ =>
    let s := s.write batch
    let fetch := fetchEndpoint c.fetchTimeoutSec o
    let result := { task.result with snapshotCreated := true, error := fetch.error }
    if fetch.ok then some (s.select k { task with result })
    else some (s.setTask k { task with result, pc := .done })
  | .selectPrior, _, some snap =>
    let prior := getPriorSnapshot s.view.snapshots task.endpoint.id snap.id
    let rows := driftRows c.toConfig prior snap
    let added := { s.added with diffs := s.added.diffs ++ rows }
    let result := { task.result with diffsDetected := rows.length }
    some ({ s with added }.flush k { task with result } .flushDiffs)
  | .flushDiffs batch, _, _ => some ((s.write batch).setTask k { task with pc := .done })
  | .refused, _, _ => some (s.setTask k { task with pc := .raised })
  | _, _, _ => none

inductive Action where
  | fetched (k : Nat) (o : Outcome)
  | fetchRaises (k : Nat)
  | resume (k : Nat)

def step (c : Config) (s : State) : Action → Option State
  | .fetched k o => s.tasks[k]?.bind fun task =>
    match task.pc with
    | .fetch => some (s.fetched c k task o)
    | _ => none
  | .fetchRaises k => s.tasks[k]?.bind fun task =>
    match task.pc with
    | .fetch => some (s.setTask k { task with pc := .raised })
    | _ => none
  | .resume k => s.tasks[k]?.bind (s.resume c k)

/-- What a step of a task can do. -/
inductive Change (c : Config) (s : State) (k : Nat) (task : Task) : State → Prop
  | fetched (o : Outcome) (hpc : task.pc = .fetch) : Change c s k task (s.fetched c k task o)
  | fetchRaises (hpc : task.pc = .fetch) : Change c s k task (s.setTask k { task with pc := .raised })
  | written (batch : Rows) (o : Outcome) (hpc : task.pc = .flushSnapshot batch) (hfetch : task.fetch = some o)
    (hok : (fetchEndpoint c.fetchTimeoutSec o).ok = true) (result : EndpointResult) (herror : result.error = none) :
    Change c s k task ((s.write batch).select k { task with result })
  | failed (batch : Rows) (o : Outcome) (hpc : task.pc = .flushSnapshot batch) (hfetch : task.fetch = some o)
    (hok : (fetchEndpoint c.fetchTimeoutSec o).ok = false) (result : EndpointResult)
    (herror : result.error = (fetchEndpoint c.fetchTimeoutSec o).error) :
    Change c s k task ((s.write batch).setTask k { task with result, pc := .done })
  | selected (snap : SchemaSnapshot) (hpc : task.pc = .selectPrior) (hsnap : task.snap = some snap)
    (rows : List DiffRow)
    (hrows : rows = driftRows c.toConfig (getPriorSnapshot s.view.snapshots task.endpoint.id snap.id) snap)
    (result : EndpointResult) (herror : result.error = task.result.error) :
    Change c s k task
      ({ s with added := { s.added with diffs := s.added.diffs ++ rows } }.flush k { task with result } .flushDiffs)
  | diffsWritten (batch : Rows) (hpc : task.pc = .flushDiffs batch) :
    Change c s k task ((s.write batch).setTask k { task with pc := .done })
  | refused (hpc : task.pc = .refused) : Change c s k task (s.setTask k { task with pc := .raised })

section Inversion

variable {c : Config} {s s' : State} {k : Nat} {task : Task}

theorem error_of_ok {fetch : FetchResult} (h : fetch.ok = true) : fetch.error = none :=
  (of_decide_eq_true h).1

theorem change_of_resume (hs : s.resume c k task = some s') : Change c s k task s' := by
  unfold State.resume at hs
  split at hs
  · next batch o hpc hfetch =>
    dsimp only at hs
    split at hs
    · next hok =>
      cases hs
      exact .written batch o hpc hfetch hok _ (error_of_ok hok)
    · next hok =>
      cases hs
      exact .failed batch o hpc hfetch (Bool.eq_false_iff.mpr hok) _ rfl
  · next snap hpc hsnap =>
    cases hs
    exact .selected snap hpc hsnap _ rfl _ rfl
  · next batch hpc =>
    cases hs
    exact .diffsWritten batch hpc
  · next hpc =>
    cases hs
    exact .refused hpc
  · cases hs

theorem step_cases {a : Action} (hs : step c s a = some s') :
    ∃ k task, s.tasks[k]? = some task ∧ Change c s k task s' := by
  cases a with
  | fetched k o =>
    obtain ⟨task, hk, hs⟩ := Option.bind_eq_some_iff.mp hs
    refine ⟨k, task, hk, ?_⟩
    split at hs
    · next hpc =>
      cases hs
      exact .fetched o hpc
    · cases hs
  | fetchRaises k =>
    obtain ⟨task, hk, hs⟩ := Option.bind_eq_some_iff.mp hs
    refine ⟨k, task, hk, ?_⟩
    split at hs
    · next hpc =>
      cases hs
      exact .fetchRaises hpc
    · cases hs
  | resume k =>
    obtain ⟨task, hk, hs⟩ := Option.bind_eq_some_iff.mp hs
    exact ⟨k, task, hk, change_of_resume hs⟩

/-- A call of `flush` changes its own task, which is then inside the operation or refused. -/
theorem flush_eq (s : State) (k : Nat) (task : Task) (pc : Rows → Pc) :
    s.flush k task pc = s.setTask k { task with pc := .refused } ∧ s.busy k = true ∨
      s.flush k task pc = { s with added := {} }.setTask k { task with pc := pc s.added } ∧ s.busy k = false := by
  unfold State.flush
  split
  · next h => exact .inl ⟨rfl, h⟩
  · next h => exact .inr ⟨rfl, Bool.eq_false_iff.mpr h⟩

theorem select_eq (s : State) (k : Nat) (task : Task) :
    s.select k task = s.setTask k { task with pc := .refused } ∧ s.busy k = true ∨
      s.select k task = s.setTask k { task with pc := .selectPrior } ∧ s.busy k = false := by
  unfold State.select
  split
  · next h => exact .inl ⟨rfl, h⟩
  · next h => exact .inr ⟨rfl, Bool.eq_false_iff.mpr h⟩

/-- A call of `flush` writes nothing by itself. -/
theorem flush_keeps (s : State) (k : Nat) (task : Task) (pc : Rows → Pc) :
    (s.flush k task pc).view = s.view ∧ (s.flush k task pc).nextId = s.nextId ∧
      (s.flush k task pc).runId = s.runId ∧ (s.flush k task pc).startedAt = s.startedAt := by
  obtain ⟨heq, -⟩ | ⟨heq, -⟩ := flush_eq s k task pc
  · rw [heq]
    exact ⟨rfl, rfl, rfl, rfl⟩
  · rw [heq]
    exact ⟨rfl, rfl, rfl, rfl⟩

theorem tasks_flush (s : State) (k : Nat) (task : Task) (pc : Rows → Pc) :
    ∃ task', (s.flush k task pc).tasks = s.tasks.set k task' := by
  obtain ⟨heq, -⟩ | ⟨heq, -⟩ := flush_eq s k task pc
  · exact ⟨_, congrArg State.tasks heq⟩
  · exact ⟨_, congrArg State.tasks heq⟩

theorem length_tasks_change (hs : Change c s k task s') : s'.tasks.length = s.tasks.length := by
  have hset : ∃ task', s'.tasks = s.tasks.set k task' := by
    cases hs with
    | fetched => exact tasks_flush _ k _ _
    | selected => exact tasks_flush _ k _ _
    | fetchRaises | written | failed | diffsWritten | refused => exact ⟨_, rfl⟩
  obtain ⟨task', htasks⟩ := hset
  rw [htasks, List.length_set]

end Inversion

/-- The snapshot that a task adds when its fetch returns. -/
def State.snapshotOf (c : Config) (s : State) (task : Task) (o : Outcome) (id : Nat) :
    SchemaSnapshot :=
  (fetchEndpoint c.fetchTimeoutSec o).snapshot c.toConfig id task.endpoint.id s.runId s.startedAt

end SchemaPilot.SessionTasks
