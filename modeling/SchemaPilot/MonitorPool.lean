import SchemaPilot.MonitorRunner

namespace SchemaPilot.MonitorPool

open Runs
open MonitorRunner (MonitorRun EndpointTask setRun finish recordFailed)

variable {κ : Type} [DecidableEq κ]

/-- How a call of `run_monitor` ends. A refusal is the 409 with its `monitor_run_id`. -/
inductive Outcome where
  | returned
  | refused (monitorRunId : Option Nat)
  | raised
  deriving DecidableEq

/-- The statement that a call is about to make. In the body of the `try` block stand the
statements up to the UPDATE of the run row. -/
inductive Pc where
  | tryLock
  | selectRunning
  | insertRun
  | body
  | commit
  | rollback (message : String)
  | recordFailure (message : String)
  | unlock (outcome : Outcome)
  | close (outcome : Outcome)
  | ended (outcome : Outcome)
  deriving DecidableEq

/-- A call with its session: the connection the session has checked out, and the one on which
the call has taken the lock that it has yet to release. A flush that fails breaks the session
until it is rolled back. -/
structure Call (κ : Type) where
  pc : Pc := .tryLock
  conn : Option κ := none
  lockedOn : Option κ := none
  broken : Bool := false
  runId : Option Nat := none
  draft : Option MonitorRun := none

def Call.inProgress (call : Call κ) : Bool :=
  match call.pc with
  | .ended _ => false
  | _ => true

/-- The database as all sessions see it: the connection that holds the advisory lock with the
number of times it has taken it, and the committed run rows. -/
structure Shared (κ : Type) where
  lock : Option (κ × Nat)
  committed : List MonitorRun
  nextId : Nat
  clock : Nat

structure State (κ : Type) extends Shared κ where
  calls : List (Call κ)

def init (rows : List MonitorRun) (nextId : Nat) : State κ := ⟨⟨none, rows, nextId, 0⟩, []⟩

/-- `pg_try_advisory_lock`, which the connection that holds the lock is granted again. -/
def tryAdvisoryLock (lock : Option (κ × Nat)) (k : κ) : Option (κ × Nat) :=
  match lock with
  | none => some (k, 1)
  | some (holder, n) => if holder = k then some (k, n + 1) else none

/-- `pg_advisory_unlock`, which warns and does nothing on a connection without the lock. -/
def advisoryUnlock (lock : Option (κ × Nat)) (k : κ) : Option (κ × Nat) :=
  match lock with
  | none => none
  | some (holder, n) => if holder = k then (if n = 1 then none else some (k, n - 1)) else some (holder, n)

/-- The id of the last run that is committed as running. -/
def latestRunning (rows : List MonitorRun) : Option Nat :=
  ((rows.filter (fun run => run.status = .running)).insertionSort
    (fun run run' => run'.startedAt ≤ run.startedAt)).head?.map MonitorRun.id

/-- A session keeps its connection, and without one may check out any that is idle. -/
def canUse (calls : List (Call κ)) (call : Call κ) (k : κ) : Prop :=
  call.conn = some k ∨ call.conn = none ∧ ∀ other ∈ calls, other.conn ≠ some k

instance (calls : List (Call κ)) (call : Call κ) (k : κ) : Decidable (canUse calls call k) :=
  inferInstanceAs (Decidable (_ ∨ _))

/-- The next statement of a call is executed on a connection. -/
def execute (d : Shared κ) (call : Call κ) (k : κ) : Option (Shared κ × Call κ) :=
  match call.pc with
  | .tryLock =>
    match tryAdvisoryLock d.lock k with
    | some lock =>
      some ({ d with lock := some lock }, { call with conn := some k, lockedOn := some k, pc := .insertRun })
    | none => some (d, { call with conn := some k, pc := .selectRunning })
  | .selectRunning =>
    some (d, { call with conn := some k, pc := .close (.refused (latestRunning d.committed)) })
  | .insertRun =>
    let row : MonitorRun := { id := d.nextId, startedAt := d.clock, status := .running }
    some ({ d with nextId := d.nextId + 1 },
      { call with conn := some k, runId := some row.id, draft := some row, pc := .body })
  | .body => some (d, { call with conn := some k })
  | .recordFailure message =>
    let committed := match call.runId with
      | some runId => setRun d.committed runId (recordFailed d.clock message)
      | none => d.committed
    some ({ d with committed }, { call with conn := none, pc := .unlock .raised })
  | .unlock outcome =>
    if call.broken then none
    else
      some ({ d with lock := advisoryUnlock d.lock k },
        { call with conn := some k, lockedOn := none, pc := .close outcome })
  | .commit | .rollback _ | .close _ | .ended _ => none

/-- What gives the connection back: commit, rollback, and the end of the session. -/
def advance (d : Shared κ) (call : Call κ) : Option (Shared κ × Call κ) :=
  match call.pc with
  | .commit =>
    some ({ d with committed := d.committed ++ call.draft.toList },
      { call with conn := none, draft := none, pc := .unlock .returned })
  | .rollback message =>
    some (d, { call with conn := none, draft := none, broken := false, pc := .recordFailure message })
  | .close outcome => some (d, { call with conn := none, draft := none, pc := .ended outcome })
  | _ => none

/-- The UPDATE of the run row, with the results of the endpoint tasks. -/
def updateRun (d : Shared κ) (call : Call κ) (k : κ) (tasks : List EndpointTask) :
    Option (Shared κ × Call κ) :=
  match call.pc with
  | .body => some (d, { call with conn := some k, draft := call.draft.map (finish d.clock tasks), pc := .commit })
  | _ => none

/-- The next statement of a call raises. -/
def raises (call : Call κ) (message : String) : Option (Call κ) :=
  match call.pc with
  | .tryLock | .selectRunning => some { call with pc := .close .raised }
  | .insertRun => some { call with broken := true, pc := .unlock .raised }
  | .body | .commit => some { call with pc := .rollback message }
  | .rollback _ => some { call with pc := .unlock .raised }
  | .recordFailure _ => some { call with conn := none, pc := .unlock .raised }
  | .unlock _ => some { call with lockedOn := none, pc := .close .raised }
  | .close _ | .ended _ => none

inductive Action (κ : Type) where
  | start
  | execute (i : Nat) (k : κ)
  | updateRun (i : Nat) (k : κ) (tasks : List EndpointTask)
  | advance (i : Nat)
  | raises (i : Nat) (message : String)
  | tick

def State.put (s : State κ) (i : Nat) (p : Shared κ × Call κ) : State κ := ⟨p.1, s.calls.set i p.2⟩

def step (s : State κ) : Action κ → Option (State κ)
  | .start => some { s with calls := s.calls ++ [{}] }
  | .execute i k => s.calls[i]?.bind fun call =>
    if canUse s.calls call k then (execute s.toShared call k).map (s.put i) else none
  | .updateRun i k tasks => s.calls[i]?.bind fun call =>
    if canUse s.calls call k then (updateRun s.toShared call k tasks).map (s.put i) else none
  | .advance i => s.calls[i]?.bind fun call => (advance s.toShared call).map (s.put i)
  | .raises i message => s.calls[i]?.bind fun call =>
    (raises call message).map fun call => s.put i (s.toShared, call)
  | .tick => some { s with clock := s.clock + 1 }

section Steps

variable {s s' : State κ} {i : Nat}

omit [DecidableEq κ] in
theorem mem_calls_put {p : Shared κ × Call κ} {call : Call κ} (h : call ∈ (s.put i p).calls) :
    call = p.2 ∨ call ∈ s.calls :=
  (List.mem_or_eq_of_mem_set h).symm

variable (s)

/-- What each action makes of a state. -/
inductive Change : Action κ → State κ → Prop
  | start : Change .start { s with calls := s.calls ++ [{}] }
  | execute {i : Nat} {k : κ} {call call' : Call κ} {d : Shared κ} (hi : s.calls[i]? = some call)
    (hexecute : MonitorPool.execute s.toShared call k = some (d, call')) :
    Change (.execute i k) (s.put i (d, call'))
  | updateRun {i : Nat} {k : κ} {tasks : List EndpointTask} {call call' : Call κ} {d : Shared κ}
    (hi : s.calls[i]? = some call)
    (hupdate : MonitorPool.updateRun s.toShared call k tasks = some (d, call')) :
    Change (.updateRun i k tasks) (s.put i (d, call'))
  | advance {i : Nat} {call call' : Call κ} {d : Shared κ} (hi : s.calls[i]? = some call)
    (hadvance : MonitorPool.advance s.toShared call = some (d, call')) :
    Change (.advance i) (s.put i (d, call'))
  | raises {i : Nat} {message : String} {call call' : Call κ} (hi : s.calls[i]? = some call)
    (hraises : MonitorPool.raises call message = some call') :
    Change (.raises i message) (s.put i (s.toShared, call'))
  | tick : Change .tick { s with clock := s.clock + 1 }

variable {s}

theorem step_cases {a : Action κ} (h : step s a = some s') : Change s a s' := by
  cases a with
  | start =>
    cases h
    exact .start
  | execute i k =>
    obtain ⟨call, hi, h⟩ := Option.bind_eq_some_iff.mp h
    split at h
    · obtain ⟨p, hp, rfl⟩ := Option.map_eq_some_iff.mp h
      exact .execute hi hp
    · cases h
  | updateRun i k tasks =>
    obtain ⟨call, hi, h⟩ := Option.bind_eq_some_iff.mp h
    split at h
    · obtain ⟨p, hp, rfl⟩ := Option.map_eq_some_iff.mp h
      exact .updateRun hi hp
    · cases h
  | advance i =>
    obtain ⟨call, hi, h⟩ := Option.bind_eq_some_iff.mp h
    obtain ⟨p, hp, rfl⟩ := Option.map_eq_some_iff.mp h
    exact .advance hi hp
  | raises i message =>
    obtain ⟨call, hi, h⟩ := Option.bind_eq_some_iff.mp h
    obtain ⟨call', hcall', rfl⟩ := Option.map_eq_some_iff.mp h
    exact .raises hi hcall'
  | tick =>
    cases h
    exact .tick

end Steps

end SchemaPilot.MonitorPool
