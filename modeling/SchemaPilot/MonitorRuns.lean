import SchemaPilot.RunVerdict

namespace SchemaPilot.MonitorRuns

open Runs
open MonitorRunner (RegistryEntry ApiEndpoint MonitorRun Tables upsertEndpoints retentionSweep setRun finish
  recordFailed)
open SessionTasks (Config Task)
open RunVerdict (gathered)

/-- Where `run_monitor` stands, from the creation of its run row on. -/
inductive Pc where
  | upsert (entries : List RegistryEntry)
  | gather
  | sweep
  | updateRun
  | commit
  | rollback (message : String)
  | recordFailure (message : String)

/-- A run in progress. Its session has the tables as its transaction sees them. -/
structure ActiveRun where
  session : SessionTasks.State
  pc : Pc

inductive Ending where
  | returned | raised
  deriving DecidableEq

/-- The ids of a run and its snapshots are drawn in its session, from the state's one on. -/
structure State where
  committed : Tables
  nextId : Nat
  nextEndpointId : Nat
  clock : Nat
  run : Option ActiveRun
  ended : List (Nat × Ending)

def init : State := ⟨.empty, 0, 0, 0, none, []⟩

inductive Action where
  | start (entries : List RegistryEntry)
  | task (a : SessionTasks.Action)
  | advance
  | raises (message : String)
  | tick

/-- The run goes on with its session. -/
def State.go (s : State) (session : SessionTasks.State) (pc : Pc) : State := { s with run := some ⟨session, pc⟩ }

/-- The run is over. -/
def State.finish (s : State) (run : ActiveRun) (committed : Tables) (ending : Ending) : State :=
  { s with
    committed
    nextId := run.session.nextId
    run := none
    ended := s.ended ++ [(run.session.runId, ending)] }

/-- The endpoints have been upserted, and `gather` starts their tasks. -/
def startTasks (session : SessionTasks.State) (table endpoints : List ApiEndpoint) : SessionTasks.State :=
  { session with view := { session.view with endpoints := table }, tasks := endpoints.map Task.start }

def sweep (c : Config) (session : SessionTasks.State) : SessionTasks.State :=
  { session with view := retentionSweep c.toConfig session.view }

def updateRun (now : Nat) (session : SessionTasks.State) : SessionTasks.State :=
  { session with
    view := { session.view with
      runs := setRun session.view.runs session.runId (MonitorRunner.finish now (session.tasks.map gathered)) } }

/-- The commit flushes what the session has yet to write. -/
def committedBy (session : SessionTasks.State) : Tables := (session.write session.added).view

def advance (c : Config) (s : State) (run : ActiveRun) : Option State :=
  match run.pc with
  | .upsert entries =>
    match upsertEndpoints s.nextEndpointId run.session.view.endpoints entries with
    | some (table, endpoints) =>
      some ({ s with nextEndpointId := s.nextEndpointId + entries.length }.go (startTasks run.session table endpoints)
        .gather)
    | none => some (s.go run.session (.rollback "IntegrityError"))
  | .gather => if run.session.tasks.all Task.finished then some (s.go run.session .sweep) else none
  | .sweep => some (s.go (sweep c run.session) .updateRun)
  | .updateRun => some (s.go (updateRun s.clock run.session) .commit)
  | .commit => some (s.finish run (committedBy run.session) .returned)
  | .rollback message =>
    some (s.go { run.session with view := s.committed, added := {}, tasks := [] } (.recordFailure message))
  | .recordFailure message =>
    let runs := setRun s.committed.runs run.session.runId (recordFailed s.clock message)
    some (s.finish run { s.committed with runs } .raised)

def Pc.inTry : Pc → Bool
  | .rollback _ | .recordFailure _ => false
  | _ => true

/-- One run at a time, as its lock has it. Every statement may raise: in the `try` block that leads
to the handler. What a task raises is caught by `gather`; a database error in a task breaks the
session, so that the statement after `gather` raises. -/
def step (c : Config) (s : State) : Action → Option State
  | .start entries =>
    match s.run with
    | some _ => none
    | none =>
      let s' := s.go (SessionTasks.gather s.committed s.nextId s.clock []) (.upsert entries)
      some { s' with clock := s.clock + 1 }
  | .task a =>
    s.run.bind fun run =>
      match run.pc with
      | .gather => (SessionTasks.step c run.session a).map fun session => s.go session .gather
      | _ => none
  | .advance => s.run.bind (advance c s)
  | .raises message =>
    s.run.bind fun run =>
      if run.pc.inTry then some (s.go run.session (.rollback message))
      else some (s.finish run s.committed .raised)
  | .tick => some { s with clock := s.clock + 1 }

/-- What a step of the run in progress can do. -/
inductive Change (c : Config) (s : State) (run : ActiveRun) : Action → State → Prop
  | upsert (entries : List RegistryEntry) (hpc : run.pc = .upsert entries)
    (table endpoints : List ApiEndpoint) (n : Nat) :
    Change c s run .advance
      ({ s with nextEndpointId := n }.go (startTasks run.session table endpoints) .gather)
  | task (hpc : run.pc = .gather) (a : SessionTasks.Action) (session : SessionTasks.State)
    (hs : SessionTasks.step c run.session a = some session) : Change c s run (.task a) (s.go session .gather)
  | gathered (hpc : run.pc = .gather) (hfinished : ∀ t ∈ run.session.tasks, t.finished) :
    Change c s run .advance (s.go run.session .sweep)
  | sweep (hpc : run.pc = .sweep) : Change c s run .advance (s.go (sweep c run.session) .updateRun)
  | updateRun (hpc : run.pc = .updateRun) :
    Change c s run .advance (s.go (updateRun s.clock run.session) .commit)
  | commit (hpc : run.pc = .commit) :
    Change c s run .advance (s.finish run (committedBy run.session) .returned)
  | raises (message : String) (a : Action) (ha : a = .advance ∨ a = .raises message) :
    Change c s run a (s.go run.session (.rollback message))
  | rollback (message : String) (hpc : run.pc = .rollback message) :
    Change c s run .advance
      (s.go { run.session with view := s.committed, added := {}, tasks := [] } (.recordFailure message))
  | recordFailure (message : String) (hpc : run.pc = .recordFailure message) :
    Change c s run .advance
      (s.finish run
        { s.committed with runs := setRun s.committed.runs run.session.runId (recordFailed s.clock message) } .raised)
  | handlerRaises (message : String) : Change c s run (.raises message) (s.finish run s.committed .raised)

section Inversion

variable {c : Config} {s s' : State} {run : ActiveRun}

theorem change_of_advance (hs : advance c s run = some s') : Change c s run .advance s' := by
  rw [advance] at hs
  split at hs
  · next entries hpc =>
    split at hs
    · next table endpoints hupsert =>
      cases hs
      exact .upsert entries hpc table endpoints _
    · cases hs
      exact .raises _ _ (.inl rfl)
  · next hpc =>
    split at hs
    · next hfinished =>
      cases hs
      exact .gathered hpc (List.all_eq_true.mp hfinished)
    · cases hs
  · next hpc =>
    cases hs
    exact .sweep hpc
  · next hpc =>
    cases hs
    exact .updateRun hpc
  · next hpc =>
    cases hs
    exact .commit hpc
  · next message hpc =>
    cases hs
    exact .rollback message hpc
  · next message hpc =>
    cases hs
    exact .recordFailure message hpc

/-- A step starts a run, lets the clock tick, or changes the run in progress. -/
theorem step_cases {a : Action} (hs : step c s a = some s') :
    (∃ entries, a = .start entries ∧ s.run = none ∧
      s' = { s.go (SessionTasks.gather s.committed s.nextId s.clock []) (.upsert entries) with
        clock := s.clock + 1 }) ∨
      (a = .tick ∧ s' = { s with clock := s.clock + 1 }) ∨
      ∃ run, s.run = some run ∧ Change c s run a s' := by
  cases a with
  | start entries =>
    simp only [step] at hs
    split at hs
    · cases hs
    · next hnone => exact .inl ⟨entries, rfl, hnone, (Option.some.inj hs).symm⟩
  | tick => exact .inr (.inl ⟨rfl, (Option.some.inj hs).symm⟩)
  | advance =>
    obtain ⟨run, hrun, hs⟩ := Option.bind_eq_some_iff.mp hs
    exact .inr (.inr ⟨run, hrun, change_of_advance hs⟩)
  | raises message =>
    obtain ⟨run, hrun, hs⟩ := Option.bind_eq_some_iff.mp hs
    refine .inr (.inr ⟨run, hrun, ?_⟩)
    split at hs
    · cases hs
      exact .raises message _ (.inr rfl)
    · cases hs
      exact .handlerRaises message
  | task a =>
    obtain ⟨run, hrun, hs⟩ := Option.bind_eq_some_iff.mp hs
    refine .inr (.inr ⟨run, hrun, ?_⟩)
    split at hs
    · next hpc =>
      obtain ⟨session, hsession, rfl⟩ := Option.map_eq_some_iff.mp hs
      exact .task hpc a session hsession
    · cases hs

end Inversion

section Gather

/-- The tasks of a run leave the run rows alone. -/
theorem task_keeps {a : SessionTasks.Action} {t t' : SessionTasks.State} (hs : SessionTasks.step c t a = some t') :
    t'.runId = t.runId ∧ t.nextId ≤ t'.nextId ∧ t'.view.runs = t.view.runs := by
  obtain ⟨k, task, -, hchange⟩ := SessionTasks.step_cases hs
  cases hchange with
  | fetched =>
    rw [SessionTasks.State.fetched]
    obtain ⟨hview, hnext, hid, -⟩ := SessionTasks.flush_keeps _ k _ .flushSnapshot
    exact ⟨hid, (Nat.le_succ _).trans hnext.ge, congrArg Tables.runs hview⟩
  | selected =>
    obtain ⟨hview, hnext, hid, -⟩ := SessionTasks.flush_keeps _ k _ .flushDiffs
    exact ⟨hid, hnext.ge, congrArg Tables.runs hview⟩
  | fetchRaises | written | failed | diffsWritten | refused => exact ⟨rfl, le_rfl, rfl⟩

variable {c : Config} {s s' : State} {run : ActiveRun}

/-- The session of a run is as its `gather` started it, or as its tasks have left it since. -/
def Gathers (c : Config) (run : ActiveRun) : Prop :=
  match run.pc with
  | .upsert _ => ∃ db, run.session = SessionTasks.gather db run.session.runId run.session.startedAt []
  | .gather => ∃ db endpoints, Reachable (SessionTasks.step c) always
      (SessionTasks.gather db run.session.runId run.session.startedAt endpoints) run.session
  | _ => True

theorem gathers_startTasks {table endpoints : List ApiEndpoint} {entries : List RegistryEntry}
    (h : Gathers c run) (hpc : run.pc = .upsert entries) :
    Gathers c ⟨startTasks run.session table endpoints, .gather⟩ := by
  simp only [Gathers, hpc] at h
  obtain ⟨db, hsession⟩ := h
  refine ⟨{ db with endpoints := table }, endpoints, ?_⟩
  rw [hsession]
  exact .start

theorem gathers_task {a : SessionTasks.Action} {session : SessionTasks.State} (h : Gathers c run)
    (hpc : run.pc = .gather) (hs : SessionTasks.step c run.session a = some session) :
    Gathers c ⟨session, .gather⟩ := by
  simp only [Gathers, hpc] at h
  obtain ⟨db, endpoints, hreach⟩ := h
  have hnext := hreach.step trivial hs
  have hinv := RunVerdict.reachable_runInv hnext
  refine ⟨db, endpoints, ?_⟩
  rw [hinv.id, hinv.started]
  exact hnext

/-- While a run gathers, its session is a state that its tasks reach. -/
theorem reachable_gathers (h : Reachable (step c) always init s) :
    ∀ run, s.run = some run → Gathers c run := by
  refine h.invariant (I := fun s => ∀ run, s.run = some run → Gathers c run) (fun run hrun => by cases hrun)
    fun s a s' hi _ hs run hrun => ?_
  obtain ⟨entries, -, -, rfl⟩ | ⟨-, rfl⟩ | ⟨run₀, hrun₀, hchange⟩ := step_cases hs
  · cases hrun
    exact ⟨s.committed, rfl⟩
  · exact hi run hrun
  · have hold := hi run₀ hrun₀
    cases hchange with
    | upsert entries hpc =>
      cases hrun
      exact gathers_startTasks hold hpc
    | task hpc a session hsession =>
      cases hrun
      exact gathers_task hold hpc hsession
    | gathered | sweep | updateRun | raises | rollback =>
      cases hrun
      trivial
    | commit | recordFailure | handlerRaises => cases hrun

/-- A run whose tasks are through goes on to commit what the verdict is about. -/
theorem run_commit (c : Config) (s : State) (hrun : s.run = some run) (hpc : run.pc = .gather)
    (hfinished : ∀ t ∈ run.session.tasks, t.finished) :
    (Runs.run (step c) always s (List.replicate 4 .advance)).map State.committed =
      some (RunVerdict.commit c run.session s.clock) := by
  obtain ⟨session, pc⟩ := run
  obtain rfl : pc = .gather := hpc
  have hgather : step c s .advance = some (s.go session .sweep) := by
    rw [step, hrun]
    exact if_pos (List.all_eq_true.mpr hfinished)
  have hsweep : step c (s.go session .sweep) .advance = some (s.go (sweep c session) .updateRun) := rfl
  simp only [List.replicate, Runs.run, hgather, hsweep]
  rfl

end Gather

end SchemaPilot.MonitorRuns
