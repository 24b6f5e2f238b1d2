import SchemaPilot.SessionTasks

namespace SchemaPilot.SessionExclusion

open Runs SessionTasks
open MonitorRunner (ApiEndpoint SchemaSnapshot DiffRow Tables getPriorSnapshot driftRows)
open Fetcher (Outcome fetchEndpoint)

variable {c : Config} {db : Tables} {s s' : State} {k : Nat} {task : Task}

theorem length_tasks {nextId clock : Nat} {endpoints : List ApiEndpoint}
    (h : Reachable (step c) always (gather db nextId clock endpoints) s) :
    s.tasks.length = endpoints.length := by
  apply h.invariant (I := fun s => s.tasks.length = endpoints.length)
  · exact List.length_map _
  · intro s s' a hi _ hs
    obtain ⟨k, task, -, hchange⟩ := step_cases hs
    exact (length_tasks_change hchange).trans hi

/-- The rows of a task are stored as its own fetch and the snapshots before the run have them. -/
def Stored (c : Config) (db : Tables) (s : State) (task : Task) (o : Outcome) : Prop :=
  ∃ id, s.snapshotOf c task o id ∈ s.view.snapshots ∧
    ((fetchEndpoint c.fetchTimeoutSec o).ok = true →
      ∀ row ∈ driftRows c.toConfig (getPriorSnapshot db.snapshots task.endpoint.id id) (s.snapshotOf c task o id),
        row ∈ s.view.diffs)

section Single

/-- How far the only task has come. -/
inductive Stage (c : Config) (db : Tables) (s : State) (task : Task) : Prop
  | fetch (hpc : task.pc = .fetch) (hfetch : task.fetch = none) (hadded : s.added = {})
    (hview : s.view.snapshots = db.snapshots) : Stage c db s task
  | flushSnapshot (o : Outcome) (id : Nat) (hfetch : task.fetch = some o)
    (hsnap : task.snap = some (s.snapshotOf c task o id))
    (hpc : task.pc = .flushSnapshot { snapshots := [s.snapshotOf c task o id] }) (hadded : s.added = {})
    (hview : s.view.snapshots = db.snapshots) : Stage c db s task
  | selectPrior (o : Outcome) (id : Nat) (hfetch : task.fetch = some o)
    (hsnap : task.snap = some (s.snapshotOf c task o id)) (hpc : task.pc = .selectPrior) (hadded : s.added = {})
    (hview : s.view.snapshots = db.snapshots ++ [s.snapshotOf c task o id]) : Stage c db s task
  | flushDiffs (o : Outcome) (id : Nat) (hfetch : task.fetch = some o)
    (hpc : task.pc = .flushDiffs
      { diffs := driftRows c.toConfig (getPriorSnapshot db.snapshots task.endpoint.id id) (s.snapshotOf c task o id) })
    (hview : s.view.snapshots = db.snapshots ++ [s.snapshotOf c task o id]) : Stage c db s task
  | done (o : Outcome) (hfetch : task.fetch = some o) (hpc : task.pc = .done) (hstored : Stored c db s task o) :
    Stage c db s task
  | raised (hfetch : task.fetch = none) (hpc : task.pc = .raised) : Stage c db s task

def OneTask (c : Config) (db : Tables) (s : State) :
    Prop := ∃ task, s.tasks = [task] ∧ Stage c db s task

/-- The snapshot of a task is no prior one of its own. -/
theorem getPriorSnapshot_append_self (snapshots : List SchemaSnapshot) (e : Nat)
    (r : SchemaSnapshot) :
    getPriorSnapshot (snapshots ++ [r]) e r.id = getPriorSnapshot snapshots e r.id := by
  unfold getPriorSnapshot
  rw [List.filter_append]
  simp

theorem flush_free (h : s.busy k = false) (pc : Rows → Pc) :
    s.flush k task pc = { s with added := {} }.setTask k { task with pc := pc s.added } := by
  rw [State.flush, if_neg (Bool.eq_false_iff.mp h)]

theorem select_free (h : s.busy k = false) :
    s.select k task = s.setTask k { task with pc := .selectPrior } := by
  rw [State.select, if_neg (Bool.eq_false_iff.mp h)]

theorem oneTask_change (htasks : s.tasks = [task]) (h : Stage c db s task)
    (hs : Change c s 0 task s') :
    OneTask c db s' := by
  have hone : ∀ task', s.tasks.set 0 task' = [task'] := fun task' => by rw [htasks]; rfl
  have hfree : ∀ s₁ : State, s₁.tasks = s.tasks → s₁.busy 0 = false := by
    intro s₁ heq
    simp [State.busy, heq, htasks]
  cases hs with
  | fetched o hpc =>
    cases h with
    | fetch _ _ hadded hview =>
      rw [State.fetched, flush_free]
      · refine ⟨_, hone _, .flushSnapshot o s.nextId rfl rfl ?_ rfl hview⟩
        rw [hadded]
        rfl
      · exact hfree _ rfl
    | _ => cases hpc.symm.trans ‹task.pc = _›
  | fetchRaises hpc =>
    cases h with
    | fetch _ hfetch => exact ⟨_, hone _, .raised hfetch rfl⟩
    | _ => cases hpc.symm.trans ‹task.pc = _›
  | written batch o hpc hfetch hok result =>
    cases h with
    | flushSnapshot o' id hfetch' hsnap hpc' hadded hview =>
      obtain rfl : batch = _ := Pc.flushSnapshot.inj (hpc.symm.trans hpc')
      rw [select_free]
      · refine ⟨_, hone _, .selectPrior o' id hfetch' hsnap rfl hadded ?_⟩
        exact congrArg (· ++ _) hview
      · exact hfree _ rfl
    | _ => cases hpc.symm.trans ‹task.pc = _›
  | failed batch o hpc hfetch hok result =>
    cases h with
    | flushSnapshot o' id hfetch' hsnap hpc' hadded hview =>
      obtain rfl : batch = _ := Pc.flushSnapshot.inj (hpc.symm.trans hpc')
      obtain rfl : o = o' := Option.some.inj (hfetch.symm.trans hfetch')
      refine ⟨_, hone _, .done o hfetch' rfl ⟨id, List.mem_append_right _ List.mem_cons_self, fun hok' => ?_⟩⟩
      cases hok.symm.trans hok'
    | _ => cases hpc.symm.trans ‹task.pc = _›
  | selected snap hpc hsnap rows hrows result =>
    cases h with
    | selectPrior o id hfetch hsnap' _ hadded hview =>
      obtain rfl : snap = _ := Option.some.inj (hsnap.symm.trans hsnap')
      have hrows' : rows = driftRows c.toConfig (getPriorSnapshot db.snapshots task.endpoint.id id)
          (s.snapshotOf c task o id) := by
        rw [hrows, hview]
        exact congrArg (driftRows c.toConfig · _) (getPriorSnapshot_append_self db.snapshots _ _)
      rw [flush_free]
      · refine ⟨_, hone _, .flushDiffs o id hfetch ?_ hview⟩
        rw [hrows', hadded]
        rfl
      · exact hfree _ rfl
    | _ => cases hpc.symm.trans ‹task.pc = _›
  | diffsWritten batch hpc =>
    cases h with
    | flushDiffs o id hfetch hpc' hview =>
      obtain rfl : batch = _ := Pc.flushDiffs.inj (hpc.symm.trans hpc')
      refine ⟨_, hone _, .done o hfetch rfl ⟨id, List.mem_append_left _ ?_, fun _ row hrow => ?_⟩⟩
      · rw [hview]
        exact List.mem_concat_self
      · exact List.mem_append_right _ hrow
    | _ => cases hpc.symm.trans ‹task.pc = _›
  | refused hpc =>
    cases h with
    | _ => cases hpc.symm.trans ‹task.pc = _›

theorem oneTask_gather (c : Config) (db : Tables) (nextId clock : Nat) (ep : ApiEndpoint) :
    OneTask c db (gather db nextId clock [ep]) :=
  ⟨_, rfl, .fetch rfl rfl rfl rfl⟩

theorem oneTask_step {a : Action} (h : OneTask c db s) (hs : step c s a = some s') :
    OneTask c db s' := by
  obtain ⟨task, htasks, hstage⟩ := h
  obtain ⟨k, task', hk, hchange⟩ := step_cases hs
  obtain rfl : k = 0 := by
    have hlt := (List.getElem?_eq_some_iff.mp hk).1
    rw [htasks] at hlt
    exact Nat.lt_one_iff.mp hlt
  obtain rfl : task = task' := by
    rw [htasks] at hk
    exact Option.some.inj hk
  exact oneTask_change htasks hstage hchange

theorem OneTask.stored (h : OneTask c db s) (hfinished : ∀ t ∈ s.tasks, t.finished)
    (hmem : task ∈ s.tasks)
    {o : Outcome} (hfetch : task.fetch = some o) : Stored c db s task o := by
  obtain ⟨t, htasks, hstage⟩ := h
  obtain rfl : task = t := by
    rw [htasks] at hmem
    exact List.mem_singleton.mp hmem
  have hdone := hfinished task hmem
  unfold Task.finished at hdone
  cases hstage with
  | done o' hfetch' _ hstored =>
    obtain rfl := Option.some.inj (hfetch.symm.trans hfetch')
    exact hstored
  | raised hnone => cases hfetch.symm.trans hnone
  | _ => simp [*] at hdone

end Single

section Collision

/-- A task whose fetch returns calls `flush`, whatever the other tasks do. -/
theorem inOperation_fetched (s : State) (k : Nat) (task : Task) (o : Outcome) :
    ∃ task' : Task, (s.fetched c k task o).tasks = s.tasks.set k task' ∧ task'.inOperation = true := by
  unfold State.fetched
  dsimp only
  obtain ⟨heq, -⟩ | ⟨heq, -⟩ := flush_eq _ k _ .flushSnapshot
  · exact ⟨_, congrArg State.tasks heq, rfl⟩
  · exact ⟨_, congrArg State.tasks heq, rfl⟩

/-- The fetches of the first two endpoints return one after the other. -/
theorem exists_collision (c : Config) (db : Tables) (nextId clock : Nat) (ep ep' : ApiEndpoint)
    (endpoints : List ApiEndpoint) (o : Outcome) :
    ∃ s, Reachable (step c) always (gather db nextId clock (ep :: ep' :: endpoints)) s ∧
      2 ≤ s.tasks.countP Task.inOperation := by
  let s := gather db nextId clock (ep :: ep' :: endpoints)
  have hstart : s.tasks = .start ep :: .start ep' :: endpoints.map .start := rfl
  obtain ⟨first, htasks, hfirst⟩ := inOperation_fetched (c := c) s 0 (.start ep) o
  rw [hstart, List.set_cons_zero] at htasks
  let s' := s.fetched c 0 (.start ep) o
  obtain ⟨second, htasks', hsecond⟩ := inOperation_fetched (c := c) s' 1 (.start ep') o
  rw [htasks, List.set_cons_succ, List.set_cons_zero] at htasks'
  have hnext : step c s' (.fetched 1 o) = some (s'.fetched c 1 (.start ep') o) := by
    rw [step, htasks]
    rfl
  have hreach : Reachable (step c) always s (s'.fetched c 1 (.start ep') o) :=
    .step (.step .start trivial (rfl : step c s (.fetched 0 o) = some s')) trivial hnext
  refine ⟨_, hreach, ?_⟩
  rw [htasks', List.countP_cons_of_pos hfirst, List.countP_cons_of_pos hsecond]
  omega

end Collision

/-- No two tasks are inside the session at a time, and their rows are stored, for registries with
at most one active endpoint only. -/
theorem exclusive_iff_le_one (c : Config) (db : Tables) (nextId clock : Nat)
    (endpoints : List ApiEndpoint) :
    (∀ s, Reachable (step c) always (gather db nextId clock endpoints) s →
      s.tasks.countP Task.inOperation ≤ 1 ∧
        ((∀ t ∈ s.tasks, t.finished) → ∀ t ∈ s.tasks, ∀ o, t.fetch = some o → Stored c db s t o)) ↔
      endpoints.length ≤ 1 := by
  constructor
  · intro h
    match endpoints, h with
    | [], _ => exact Nat.zero_le 1
    | [ep], _ => exact le_rfl
    | ep :: ep' :: endpoints, h =>
      obtain ⟨s, hreach, hcount⟩ := exists_collision c db nextId clock ep ep' endpoints (.timeout 0)
      exact absurd (hcount.trans (h s hreach).1) (by decide)
  · intro hle s hreach
    refine ⟨List.countP_le_length.trans ((length_tasks hreach).trans_le hle), fun hfinished t ht o hfetch => ?_⟩
    match endpoints, hle with
    | [], _ =>
      have hnil := List.eq_nil_of_length_eq_zero (length_tasks hreach)
      rw [hnil] at ht
      cases ht
    | [ep], _ =>
      have hone : OneTask c db s :=
        hreach.invariant (oneTask_gather c db nextId clock ep) fun _ _ _ hi _ hs => oneTask_step hi hs
      exact hone.stored hfinished ht hfetch

def sampleConfig : Config := ⟨⟨fun _ => "", fun _ => true, id, 10⟩, 10⟩

/-- Two endpoints answer, and the second task calls `flush` while the first one is inside it. -/
theorem two_tasks_collide :
    ¬∀ s, Reachable (step sampleConfig) always (gather .empty 0 0 [⟨0, "orders", true⟩, ⟨1, "users", true⟩]) s →
      s.tasks.countP Task.inOperation ≤ 1 := by
  intro h
  have hrun : (run (step sampleConfig) always (gather .empty 0 0 [⟨0, "orders", true⟩, ⟨1, "users", true⟩])
      [.fetched 0 (.response 12 200 8 "application/json" (some (.obj []))),
        .fetched 1 (.response 15 200 8 "application/json" (some (.obj [])))]).map
      (fun s => s.tasks.countP Task.inOperation) = some 2 := by decide +kernel
  obtain ⟨s, hs, hcount⟩ := Option.map_eq_some_iff.mp hrun
  have hle := h s (reachable_run (step sampleConfig) always .start hs)
  rw [hcount] at hle
  exact absurd hle (by decide)

end SchemaPilot.SessionExclusion
