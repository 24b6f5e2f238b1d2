import SchemaPilot.RunVerdict
import SchemaPilot.SnapshotHistory

namespace SchemaPilot.GatherHistory

open SnapshotHistory
open MonitorRunner (MonitorRun Tables SchemaSnapshot DiffRow driftRows getPriorSnapshot)
open SessionTasks (Config Rows Task)
open RunVerdict (batch Kept)
open Fetcher (Outcome fetchEndpoint)

/-- What the flushes of the tasks are writing. -/
def inFlight (s : SessionTasks.State) : Rows where
  snapshots := s.tasks.flatMap (fun t => (batch t).snapshots)
  diffs := s.tasks.flatMap (fun t => (batch t).diffs)

/-- The tables as they are once all that the tasks have added is written. -/
def whole (s : SessionTasks.State) : Tables := ((s.write (inFlight s)).write s.added).view

/-- The snapshot that a task has added and not yet compared. -/
def comparing (t : Task) : Option SchemaSnapshot :=
  match t.pc with
  | .flushSnapshot _ | .selectPrior => t.snap
  | _ => none

/-- The task that added the snapshot was refused by the flush that it called for it, or has not compared
it yet. -/
def Uncompared (refused : List Nat) (tasks : List Task) (id : Nat) : Prop :=
  id ∈ refused ∨ ∃ t ∈ tasks, ∃ snap, comparing t = some snap ∧ snap.id = id

/-- One task at most is inside the session. -/
def Alone (tasks : List Task) : Prop :=
  ∀ (i j : Nat) t t', tasks[i]? = some t → tasks[j]? = some t' → t.holds = true → t'.holds = true → i = j

section Session

variable {s : SessionTasks.State} {k : Nat} {task task' : Task}

theorem busy_iff : s.busy k = true ↔ ∃ j, j ≠ k ∧ ∃ t, s.tasks[j]? = some t ∧ t.holds = true := by
  rw [SessionTasks.State.busy, List.any_eq_true]
  constructor
  · rintro ⟨t, ht, hholds⟩
    obtain ⟨j, hj, hjt⟩ := List.mem_eraseIdx_iff_getElem?.mp ht
    exact ⟨j, hj, t, hjt, hholds⟩
  · rintro ⟨j, hj, t, hjt, hholds⟩
    exact ⟨t, List.mem_eraseIdx_iff_getElem?.mpr ⟨j, hj, hjt⟩, hholds⟩

theorem Alone.busy (h : Alone s.tasks) (hk : s.tasks[k]? = some task) (hholds : task.holds = true) :
    s.busy k = false := by
  rw [Bool.eq_false_iff]
  intro hbusy
  obtain ⟨j, hj, t, hjt, ht⟩ := busy_iff.mp hbusy
  exact hj (h j k t task hjt hk ht hholds)

theorem Alone.eq (h : Alone s.tasks) (hk : s.tasks[k]? = some task) (hholds : task.holds = true) {t : Task}
    (ht : t ∈ s.tasks) (htholds : t.holds = true) : t = task := by
  obtain ⟨j, hj⟩ := List.mem_iff_getElem?.mp ht
  obtain rfl := h j k t task hj hk htholds hholds
  exact Option.some.inj (hj.symm.trans hk)

theorem Alone.set (h : Alone s.tasks) (hk : s.tasks[k]? = some task)
    (hfree : task'.holds = true → s.busy k = false) : Alone (s.tasks.set k task') := by
  have hlt : k < s.tasks.length := (List.getElem?_eq_some_iff.mp hk).1
  have hother : ∀ (j : Nat) t, k ≠ j → (s.tasks.set k task')[j]? = some t → s.tasks[j]? = some t :=
    fun j t hne ht => (List.getElem?_set_ne hne).symm.trans ht
  have hself : ∀ t, (s.tasks.set k task')[k]? = some t → t = task' := fun t ht =>
    Option.some.inj (ht.symm.trans (List.getElem?_set_self hlt))
  -- no other task is inside the session when this one is
  have hnone : ∀ (j : Nat) t, k ≠ j → (s.tasks.set k task')[j]? = some t → task'.holds = true → t.holds ≠ true := by
    intro j t hne ht hholds hthen
    cases (hfree hholds).symm.trans (busy_iff.mpr ⟨j, hne.symm, t, hother j t hne ht, hthen⟩)
  intro i j t t' hi hj ht ht'
  by_cases hki : k = i <;> by_cases hkj : k = j
  · exact hki.symm.trans hkj
  · subst hki
    obtain rfl := hself t hi
    exact absurd ht' (hnone j t' hkj hj ht)
  · subst hkj
    obtain rfl := hself t' hj
    exact absurd ht (hnone i t hki hi ht')
  · exact h i j t t' (hother i t hki hi) (hother j t' hkj hj) ht ht'

theorem batch_of_not_holds {t : Task} (h : t.holds ≠ true) : batch t = {} := by
  unfold Task.holds at h
  unfold batch
  split at h <;> simp_all

theorem holds_of_comparing {t : Task} {snap : SchemaSnapshot} (h : comparing t = some snap) : t.holds = true := by
  unfold comparing at h
  unfold Task.holds
  split at h <;> simp_all

theorem flatMap_eq_of_other {α β : Type} (f : α → List β) {xs : List α} {x : α} (hk : xs[k]? = some x)
    (hother : ∀ j, j ≠ k → ∀ y, xs[j]? = some y → f y = []) : xs.flatMap f = f x := by
  induction xs generalizing k with
  | nil => cases hk
  | cons y xs ih =>
    rw [List.flatMap_cons]
    cases k with
    | zero =>
      obtain rfl : y = x := Option.some.inj hk
      have hrest : xs.flatMap f = [] := by
        rw [List.flatMap_eq_nil_iff]
        intro z hz
        obtain ⟨j, hj⟩ := List.mem_iff_getElem?.mp hz
        exact hother (j + 1) (Nat.succ_ne_zero j) z hj
      rw [hrest, List.append_nil]
    | succ k =>
      rw [hother 0 (Nat.succ_ne_zero k).symm y rfl, List.nil_append]
      exact ih hk fun j hj z hz => hother (j + 1) (fun heq => hj (Nat.succ.inj heq)) z hz

/-- What is in flight is the batch of the task that is alone inside the session. -/
theorem inFlight_eq (hk : s.tasks[k]? = some task) (hfree : s.busy k = false) : inFlight s = batch task := by
  have hother : ∀ j, j ≠ k → ∀ t, s.tasks[j]? = some t → batch t = {} := by
    intro j hj t ht
    apply batch_of_not_holds
    intro hholds
    cases hfree.symm.trans (busy_iff.mpr ⟨j, hj, t, ht, hholds⟩)
  rw [inFlight, flatMap_eq_of_other (fun t => (batch t).snapshots) hk fun j hj t ht => by rw [hother j hj t ht],
    flatMap_eq_of_other (fun t => (batch t).diffs) hk fun j hj t ht => by rw [hother j hj t ht]]

theorem inFlight_setTask (hk : s.tasks[k]? = some task) (hfree : s.busy k = false) (task' : Task) :
    inFlight (s.setTask k task') = batch task' := by
  have hlt : k < s.tasks.length := (List.getElem?_eq_some_iff.mp hk).1
  apply inFlight_eq (k := k)
  · exact List.getElem?_set_self hlt
  · rw [SessionTasks.State.busy, SessionTasks.State.setTask, List.eraseIdx_set_eq]
    exact hfree

theorem map_set_of_eq {α β : Type} (f : α → β) {xs : List α} {x y : α} (hk : xs[k]? = some x) (h : f y = f x) :
    (xs.set k y).map f = xs.map f := by
  obtain ⟨hlt, rfl⟩ := List.getElem?_eq_some_iff.mp hk
  have hmap : k < (xs.map f).length := by rwa [List.length_map]
  have hget : (xs.map f)[k] = f xs[k] := List.getElem_map f
  rw [List.map_set, h, ← hget, List.set_getElem_self]

/-- A task that has the batch it had leaves the whole as it is. -/
theorem whole_setTask (hk : s.tasks[k]? = some task) (hbatch : batch task' = batch task) :
    whole (s.setTask k task') = whole s := by
  have hflight : inFlight (s.setTask k task') = inFlight s := by
    simp only [inFlight, SessionTasks.State.setTask, List.flatMap_def]
    rw [map_set_of_eq (fun t => (batch t).snapshots) hk (congrArg Rows.snapshots hbatch),
      map_set_of_eq (fun t => (batch t).diffs) hk (congrArg Rows.diffs hbatch)]
  rw [whole, whole, hflight]
  rfl

/-- What a flush takes over goes in flight. -/
theorem whole_flush (hk : s.tasks[k]? = some task) (hold : batch task = {}) {pc : Rows → SessionTasks.Pc}
    (hpc : ∀ rows, batch { task' with pc := pc rows } = rows) : whole (s.flush k task' pc) = whole s := by
  obtain ⟨heq, -⟩ | ⟨heq, hfree⟩ := SessionTasks.flush_eq s k task' pc
  · rw [heq]
    exact whole_setTask hk hold.symm
  · have hbefore : inFlight s = {} := (inFlight_eq hk hfree).trans hold
    have hafter : inFlight ({ s with added := {} }.setTask k { task' with pc := pc s.added }) = s.added := by
      rw [inFlight_setTask (s := { s with added := {} }) hk hfree, hpc]
    rw [heq, whole, whole, hbefore, hafter]
    simp only [SessionTasks.State.setTask, SessionTasks.State.write, List.append_nil]

/-- What a flush has written stays part of the whole. -/
theorem whole_written (hk : s.tasks[k]? = some task) (hfree : s.busy k = false) (hempty : batch task' = {}) :
    whole ((s.write (batch task)).setTask k task') = whole s := by
  have hbefore : inFlight s = batch task := inFlight_eq hk hfree
  have hafter : inFlight ((s.write (batch task)).setTask k task') = {} := by
    rw [inFlight_setTask (s := s.write (batch task)) hk hfree, hempty]
  rw [whole, whole, hbefore, hafter]
  simp only [SessionTasks.State.setTask, SessionTasks.State.write, List.append_nil]

theorem mem_whole_of_kept {snap : SchemaSnapshot} (h : Kept s snap) : snap ∈ (whole s).snapshots := by
  obtain hview | hadded | ⟨t, ht, hmem⟩ := h
  · exact List.mem_append_left _ (List.mem_append_left _ hview)
  · exact List.mem_append_right _ hadded
  · exact List.mem_append_left _ (List.mem_append_right _ (List.mem_flatMap.mpr ⟨t, ht, hmem⟩))

theorem mem_set_or {xs : List Task} (hk : xs[k]? = some task) (task' : Task) {t : Task} (ht : t ∈ xs) :
    t ∈ xs.set k task' ∨ t = task := by
  obtain ⟨j, hj⟩ := List.mem_iff_getElem?.mp ht
  by_cases hkj : k = j
  · subst hkj
    exact .inr (Option.some.inj (hj.symm.trans hk))
  · exact .inl (List.mem_iff_getElem?.mpr ⟨j, (List.getElem?_set_ne hkj).trans hj⟩)

theorem uncompared_set (hk : s.tasks[k]? = some task) (hcomparing : comparing task' = comparing task)
    (refused : List Nat) (id : Nat) :
    Uncompared refused (s.tasks.set k task') id ↔ Uncompared refused s.tasks id := by
  have hlt : k < s.tasks.length := (List.getElem?_eq_some_iff.mp hk).1
  refine or_congr_right ⟨?_, ?_⟩
  · rintro ⟨t, ht, snap, hsnap, hid⟩
    obtain ht | rfl := List.mem_or_eq_of_mem_set ht
    · exact ⟨t, ht, snap, hsnap, hid⟩
    · exact ⟨task, List.mem_of_getElem? hk, snap, hcomparing.symm.trans hsnap, hid⟩
  · rintro ⟨t, ht, snap, hsnap, hid⟩
    obtain ht | rfl := mem_set_or hk task' ht
    · exact ⟨t, ht, snap, hsnap, hid⟩
    · exact ⟨task', List.mem_set hlt _, snap, hcomparing.trans hsnap, hid⟩

end Session

/-- What holds of a session that its tasks run on. -/
structure GatherOk (c : Config) (refused : List Nat) (s : SessionTasks.State) : Prop where
  history : HistoryOk c.toConfig (whole s) s.nextId (s.startedAt + 1) (Uncompared refused s.tasks)
  alone : Alone s.tasks
  apart : ∀ t ∈ s.tasks, ∀ snap, comparing t = some snap → snap.id < s.nextId ∧ snap.id ∉ refused
  past : ∀ id ∈ refused, id < s.nextId
  written : ∀ r ∈ (whole s).snapshots, r.createdAt < s.startedAt → r ∈ s.view.snapshots

section Gather

variable {c : Config} {refused : List Nat} {s s' : SessionTasks.State} {k : Nat} {task task' : Task}

/-- A task goes on, and the whole and what is compared stay as they are. -/
theorem GatherOk.quiet (h : GatherOk c refused s) (hk : s.tasks[k]? = some task)
    (htasks : s'.tasks = s.tasks.set k task') (hwhole : whole s' = whole s) (hnext : s'.nextId = s.nextId)
    (hstarted : s'.startedAt = s.startedAt) (hview : ∀ r ∈ s.view.snapshots, r ∈ s'.view.snapshots)
    (hcomparing : comparing task' = comparing task) (hfree : task'.holds = true → s.busy k = false) :
    GatherOk c refused s' := by
  refine ⟨?_, htasks ▸ h.alone.set hk hfree, fun t ht snap hsnap => ?_, hnext ▸ h.past, fun r hr hlt => ?_⟩
  · rw [hwhole, hnext, hstarted, htasks]
    exact h.history.congr rfl rfl fun id => uncompared_set hk hcomparing refused id
  · rw [hnext]
    obtain ht | rfl := List.mem_or_eq_of_mem_set (htasks ▸ ht)
    · exact h.apart t ht snap hsnap
    · exact h.apart task (List.mem_of_getElem? hk) snap (hcomparing.symm.trans hsnap)
  · exact hview r (h.written r (hwhole ▸ hr) (hstarted ▸ hlt))

theorem uncompared_of_mem_set (hk : s.tasks[k]? = some task) (task' : Task) (hidle : comparing task = none)
    {id : Nat} (h : Uncompared refused s.tasks id) : Uncompared refused (s.tasks.set k task') id := by
  refine h.imp_right fun ⟨t, ht, snap, hsnap, hid⟩ => ?_
  obtain ht | rfl := mem_set_or hk task' ht
  · exact ⟨t, ht, snap, hsnap, hid⟩
  · cases hidle.symm.trans hsnap

/-- A task adds its snapshot, and is refused or is to compare it. -/
theorem GatherOk.insert (h : GatherOk c refused s) (hk : s.tasks[k]? = some task) (hidle : comparing task = none)
    {snap : SchemaSnapshot} (hid : snap.id = s.nextId) (hnow : snap.createdAt = s.startedAt)
    (hshape : SnapshotOk c.toConfig snap) (htasks : s'.tasks = s.tasks.set k task')
    (hwhole : whole s' = { whole s with snapshots := (whole s).snapshots ++ [snap] })
    (hnext : s'.nextId = s.nextId + 1) (hstarted : s'.startedAt = s.startedAt)
    (hview : s'.view.snapshots = s.view.snapshots) (hfree : task'.holds = true → s.busy k = false)
    {refused' : List Nat}
    (hcase : (refused' = refused ++ [s.nextId] ∧ comparing task' = none) ∨
      (refused' = refused ∧ comparing task' = some snap)) : GatherOk c refused' s' := by
  have hlt : k < s.tasks.length := (List.getElem?_eq_some_iff.mp hk).1
  have hmem : ∀ t ∈ s'.tasks, t ∈ s.tasks ∨ t = task' := fun t ht => List.mem_or_eq_of_mem_set (htasks ▸ ht)
  have hold : ∀ id ∈ refused', id ∈ refused ∨ id = s.nextId := by
    intro id hmem
    obtain ⟨rfl, -⟩ | ⟨rfl, -⟩ := hcase
    · exact (List.mem_append.mp hmem).imp_right List.mem_singleton.mp
    · exact .inl hmem
  have hkeep : ∀ id, Uncompared refused s.tasks id → Uncompared refused' s'.tasks id := by
    intro id hopen
    have hset := uncompared_of_mem_set hk task' hidle hopen
    rw [htasks]
    obtain ⟨rfl, -⟩ | ⟨rfl, -⟩ := hcase
    · exact hset.imp_left fun hmem => List.mem_append_left _ hmem
    · exact hset
  have hself : Uncompared refused' s'.tasks s.nextId := by
    obtain ⟨rfl, -⟩ | ⟨-, hcomparing⟩ := hcase
    · exact .inl List.mem_concat_self
    · refine .inr ⟨task', ?_, snap, hcomparing, hid⟩
      rw [htasks]
      exact List.mem_set hlt _
  refine ⟨?_, htasks ▸ h.alone.set hk hfree, fun t ht snap' hsnap' => ?_, fun id hmem' => ?_,
    fun r hr hlt => ?_⟩
  · rw [hwhole, hnext, hstarted]
    refine h.history.insert hid hnow hshape (fun id hopen => ?_) hkeep fun _ => hself
    obtain hopen | ⟨t, ht, snap', hsnap', hid'⟩ := hopen
    · exact (hold id hopen).imp_left .inl
    · obtain ht | rfl := hmem t ht
      · exact .inl (.inr ⟨t, ht, snap', hsnap', hid'⟩)
      · obtain ⟨-, hnone⟩ | ⟨-, hcomparing⟩ := hcase
        · cases hnone.symm.trans hsnap'
        · obtain rfl := Option.some.inj (hcomparing.symm.trans hsnap')
          exact .inr (hid'.symm.trans hid)
  · rw [hnext]
    obtain ht | rfl := hmem t ht
    · obtain ⟨hbound, hapart⟩ := h.apart t ht snap' hsnap'
      refine ⟨Nat.lt_succ_of_lt hbound, fun hmem' => ?_⟩
      obtain hmem' | heq := hold _ hmem'
      · exact hapart hmem'
      · exact hbound.ne heq
    · obtain ⟨-, hnone⟩ | ⟨rfl, hcomparing⟩ := hcase
      · cases hnone.symm.trans hsnap'
      · obtain rfl := Option.some.inj (hcomparing.symm.trans hsnap')
        rw [hid]
        exact ⟨Nat.lt_succ_self _, fun hmem' => lt_irrefl _ (h.past _ hmem')⟩
  · rw [hnext]
    obtain hmem' | rfl := hold id hmem'
    · exact Nat.lt_succ_of_lt (h.past id hmem')
    · exact Nat.lt_succ_self _
  · rw [hview]
    rw [hwhole] at hr
    obtain hr | hr := List.mem_append.mp hr
    · exact h.written r hr (hstarted ▸ hlt)
    · rw [List.mem_singleton.mp hr, hnow, hstarted] at hlt
      exact absurd hlt (lt_irrefl _)

/-- The snapshot whose task is refused by the flush that it calls for it. -/
def refusedBy (s : SessionTasks.State) : SessionTasks.Action → List Nat
  | .fetched k _ => if s.busy k then [s.nextId] else []
  | .fetchRaises _ | .resume _ => []

theorem mem_refusedBy {a : SessionTasks.Action} {id : Nat} (h : id ∈ refusedBy s a) : id = s.nextId := by
  cases a with
  | fetched k o =>
    rw [refusedBy] at h
    split at h
    · exact List.mem_singleton.mp h
    · cases h
  | fetchRaises k => cases h
  | resume k => cases h

theorem GatherOk.fetched (h : GatherOk c refused s) (hk : s.tasks[k]? = some task) (hpc : task.pc = .fetch)
    (o : Outcome) : GatherOk c (refused ++ refusedBy s (.fetched k o)) (s.fetched c k task o) := by
  let snap := s.snapshotOf c task o s.nextId
  let s₁ : SessionTasks.State :=
    { s with added := { s.added with snapshots := s.added.snapshots ++ [snap] }, nextId := s.nextId + 1 }
  let task' : Task := { task with fetch := some o, snap := some snap }
  have hempty : batch task = {} := by rw [batch, hpc]
  have hidle : comparing task = none := by rw [comparing, hpc]
  have hflush : whole (s₁.flush k task' .flushSnapshot) = whole s₁ :=
    whole_flush (s := s₁) hk hempty fun _ => rfl
  have hwhole : whole s₁ = { whole s with snapshots := (whole s).snapshots ++ [snap] } := by
    simp only [whole, SessionTasks.State.write, List.append_assoc]
    rfl
  have hshape : SnapshotOk c.toConfig snap := (snapshotOk_fetch c.toConfig _ _ _ _ _).1
  have heq : s.fetched c k task o = s₁.flush k task' .flushSnapshot := rfl
  obtain ⟨hview, hnext, -, hstarted⟩ := SessionTasks.flush_keeps s₁ k task' .flushSnapshot
  rw [heq, refusedBy]
  obtain ⟨hrefused, hbusy⟩ | ⟨hgranted, hfree⟩ := SessionTasks.flush_eq s₁ k task' .flushSnapshot
  · have hbusy : s.busy k = true := hbusy
    rw [if_pos hbusy]
    refine h.insert hk hidle rfl rfl hshape (congrArg SessionTasks.State.tasks hrefused) (hflush.trans hwhole)
      hnext hstarted (congrArg Tables.snapshots hview) (fun hholds => ?_) (.inl ⟨rfl, rfl⟩)
    cases hholds
  · have hfree : s.busy k = false := hfree
    rw [if_neg (Bool.eq_false_iff.mp hfree), List.append_nil]
    refine h.insert hk hidle rfl rfl hshape (congrArg SessionTasks.State.tasks hgranted) (hflush.trans hwhole)
      hnext hstarted (congrArg Tables.snapshots hview) (fun _ => hfree) (.inr ⟨rfl, rfl⟩)

/-- The snapshot of a fetch that failed is not compared. -/
theorem GatherOk.failed (h : GatherOk c refused s) (hk : s.tasks[k]? = some task) (hholds : task.holds = true)
    {snap : SchemaSnapshot} (hcomparing : comparing task = some snap) (hfailed : ¬Succeeded snap)
    (hsnap : snap ∈ (whole s).snapshots)
    (hempty : batch task' = {}) (hdone : comparing task' = none) (hidle : task'.holds ≠ true) :
    GatherOk c refused ((s.write (batch task)).setTask k task') := by
  have hfree := h.alone.busy hk hholds
  have hwhole : whole ((s.write (batch task)).setTask k task') = whole s := whole_written hk hfree hempty
  have hmem : ∀ t ∈ s.tasks.set k task', ∀ snap', comparing t = some snap' → t ∈ s.tasks := by
    intro t ht snap' hsnap'
    obtain ht | rfl := List.mem_or_eq_of_mem_set ht
    · exact ht
    · cases hdone.symm.trans hsnap'
  refine ⟨?_, h.alone.set hk fun hholds' => absurd hholds' hidle, fun t ht snap' hsnap' => ?_, h.past,
    fun r hr hlt => ?_⟩
  · rw [hwhole]
    refine h.history.recount (fun id hopen => .inl ?_) fun snap' hsnap' hok hopen => ?_
    · exact hopen.imp_right fun ⟨t, ht, snap', hsnap', hid⟩ => ⟨t, hmem t ht snap' hsnap', snap', hsnap', hid⟩
    · obtain hopen | ⟨t, ht, snap₁, hsnap₁, hid⟩ := hopen
      · exact .inl hopen
      · -- the task is the only one that compares, and what it compares has no schema
        obtain rfl := h.alone.eq hk hholds ht (holds_of_comparing hsnap₁)
        obtain rfl := Option.some.inj (hcomparing.symm.trans hsnap₁)
        rw [List.inj_on_of_nodup_map h.history.ids hsnap' hsnap hid.symm] at hok
        exact absurd hok hfailed
  · exact h.apart t (hmem t ht snap' hsnap') snap' hsnap'
  · exact List.mem_append_left _ (h.written r (hwhole ▸ hr) hlt)

/-- A task inserts the drift of its snapshot from the prior one. -/
theorem GatherOk.compared (h : GatherOk c refused s) (hk : s.tasks[k]? = some task) (hholds : task.holds = true)
    (hempty : batch task = {}) {snap : SchemaSnapshot} (hcomparing : comparing task = some snap)
    (hsnap : snap ∈ (whole s).snapshots) (hend : snap.endpointId = task.endpoint.id)
    (hnow : snap.createdAt = s.startedAt) {rows : List DiffRow}
    (hrows : rows = driftRows c.toConfig (getPriorSnapshot s.view.snapshots task.endpoint.id snap.id) snap)
    (hpc : ∀ batch, comparing { task' with pc := .flushDiffs batch } = none) :
    GatherOk c refused
      ({ s with added := { s.added with diffs := s.added.diffs ++ rows } }.flush k task' .flushDiffs) := by
  let s₁ : SessionTasks.State := { s with added := { s.added with diffs := s.added.diffs ++ rows } }
  have hfree : s.busy k = false := h.alone.busy hk hholds
  obtain ⟨-, hbusy⟩ | ⟨hgranted, -⟩ := SessionTasks.flush_eq s₁ k task' .flushDiffs
  · cases hfree.symm.trans hbusy
  have hflush : whole (s₁.flush k task' .flushDiffs) = whole s₁ :=
    whole_flush (s := s₁) hk hempty fun _ => rfl
  have hwhole : whole s₁ = { whole s with
      diffs := (whole s).diffs ++
        driftRows c.toConfig (getPriorSnapshot s.view.snapshots task.endpoint.id snap.id) snap } := by
    rw [← hrows]
    simp only [whole, SessionTasks.State.write, List.append_assoc]
    rfl
  obtain ⟨hview, hnext, -, hstarted⟩ := SessionTasks.flush_keeps s₁ k task' .flushDiffs
  have htasks : (s₁.flush k task' .flushDiffs).tasks = s.tasks.set k { task' with pc := .flushDiffs s₁.added } :=
    congrArg SessionTasks.State.tasks hgranted
  have hidle := hpc s₁.added
  -- the task was the only one that compares, and is done with it
  have hnone : ∀ t ∈ (s₁.flush k task' .flushDiffs).tasks, comparing t = none := by
    intro t ht
    obtain ⟨j, hj⟩ := List.mem_iff_getElem?.mp ht
    by_cases hkj : k = j
    · subst hkj
      rw [htasks, List.getElem?_set_self (List.getElem?_eq_some_iff.mp hk).1] at hj
      exact Option.some.inj hj ▸ hidle
    · rw [htasks, List.getElem?_set_ne hkj] at hj
      by_contra hne
      obtain ⟨snap', hsnap'⟩ := Option.ne_none_iff_exists'.mp hne
      exact hkj (h.alone k j task t hk hj hholds (holds_of_comparing hsnap'))
  have huncompared : ∀ id, Uncompared refused (s₁.flush k task' .flushDiffs).tasks id ↔
      Uncompared refused s.tasks id ∧ id ≠ snap.id := by
    intro id
    constructor
    · rintro (hmem | ⟨t, ht, snap', hsnap', -⟩)
      · refine ⟨.inl hmem, ?_⟩
        rintro rfl
        exact (h.apart task (List.mem_of_getElem? hk) snap hcomparing).2 hmem
      · cases (hnone t ht).symm.trans hsnap'
    · rintro ⟨hmem | ⟨t, ht, snap', hsnap', rfl⟩, hne⟩
      · exact .inl hmem
      · obtain rfl := h.alone.eq hk hholds ht (holds_of_comparing hsnap')
        obtain rfl := Option.some.inj (hcomparing.symm.trans hsnap')
        exact absurd rfl hne
  change GatherOk c refused (s₁.flush k task' .flushDiffs)
  refine ⟨?_, ?_, fun t ht snap' hsnap' => ?_, hnext ▸ h.past, fun r hr hlt => ?_⟩
  · rw [hflush.trans hwhole, hnext, hstarted]
    refine h.history.insertDiffs hsnap (.inr ⟨task, List.mem_of_getElem? hk, snap, hcomparing, rfl⟩)
      (fun prior hinc hprior => ?_) huncompared
    rw [← hend]
    exact getPriorSnapshot_eq h.history (fun r hr => List.mem_append_left _ (List.mem_append_left _ hr)) h.written
      hsnap hnow hinc hprior
  · rw [htasks]
    exact h.alone.set hk fun _ => hfree
  · cases (hnone t ht).symm.trans hsnap'
  · rw [hview]
    rw [hflush.trans hwhole] at hr
    exact h.written r hr (hstarted ▸ hlt)

theorem gatherOk_resume (h : GatherOk c refused s) {runId startedAt : Nat} {runs : List MonitorRun}
    (hinv : RunVerdict.RunInv c runId startedAt runs s) (hk : s.tasks[k]? = some task)
    (hs : s.resume c k task = some s') : GatherOk c refused s' := by
  have hmem : task ∈ s.tasks := List.mem_of_getElem? hk
  have hcomparing : ∀ snap, task.snap = some snap → snap ∈ (whole s).snapshots ∧ snap.endpointId = task.endpoint.id ∧
      snap.createdAt = s.startedAt := by
    intro snap hsnap
    refine ⟨mem_whole_of_kept (hinv.kept task hmem snap hsnap), ?_⟩
    cases hfetch : task.fetch with
    | none => cases ((hinv.tasks task hmem).raised hfetch).symm.trans hsnap
    | some o =>
      obtain ⟨id, hsnap'⟩ := (hinv.tasks task hmem).fetched o hfetch
      obtain rfl := Option.some.inj (hsnap.symm.trans hsnap')
      exact ⟨rfl, hinv.started.symm⟩
  unfold SessionTasks.State.resume at hs
  split at hs
  · next rows o hpc hfetch =>
    obtain rfl : batch task = rows := by rw [batch, hpc]
    have hholds : task.holds = true := by rw [Task.holds, hpc]
    have hfree := h.alone.busy hk hholds
    obtain ⟨id, hsnap⟩ := (hinv.tasks task hmem).fetched o hfetch
    have hview : ∀ r ∈ s.view.snapshots, r ∈ (s.write (batch task)).view.snapshots :=
      fun r hr => List.mem_append_left _ hr
    dsimp only at hs
    split at hs
    · cases hs
      obtain ⟨-, hbusy⟩ | ⟨heq, -⟩ := SessionTasks.select_eq (s.write (batch task)) k
        { task with result := { task.result with
          snapshotCreated := true, error := (fetchEndpoint c.fetchTimeoutSec o).error } }
      · cases hfree.symm.trans hbusy
      · rw [heq]
        refine h.quiet hk rfl (whole_written hk hfree rfl) rfl rfl hview ?_ fun _ => hfree
        rw [comparing, comparing, hpc]
    · next hok =>
      cases hs
      have hidle : comparing task = task.snap := by rw [comparing, hpc]
      refine h.failed hk hholds (hidle.trans hsnap) ?_ (hcomparing _ hsnap).1 rfl rfl (by simp [Task.holds])
      rwa [(snapshotOk_fetch c.toConfig _ _ _ _ _).2]
  · next snap hpc hsnap =>
    cases hs
    have hholds : task.holds = true := by rw [Task.holds, hpc]
    obtain ⟨hwhole, hend, hnow⟩ := hcomparing snap hsnap
    refine h.compared hk hholds (by rw [batch, hpc]) (by rw [comparing, hpc, hsnap]) hwhole hend hnow rfl fun _ => ?_
    rfl
  · next rows hpc =>
    obtain rfl : batch task = rows := by rw [batch, hpc]
    have hholds : task.holds = true := by rw [Task.holds, hpc]
    cases hs
    refine h.quiet hk rfl (whole_written hk (h.alone.busy hk hholds) rfl) rfl rfl
      (fun r hr => List.mem_append_left _ hr) ?_ fun hthen => ?_
    · rw [comparing, comparing, hpc]
    · cases hthen
  · next hpc =>
    cases hs
    refine h.quiet hk rfl (whole_setTask hk ?_) rfl rfl (fun r hr => hr) ?_ fun hthen => ?_
    · rw [batch, batch, hpc]
    · rw [comparing, comparing, hpc]
    · cases hthen
  · cases hs

theorem gatherOk_step (h : GatherOk c refused s) {runId startedAt : Nat} {runs : List MonitorRun}
    (hinv : RunVerdict.RunInv c runId startedAt runs s) {a : SessionTasks.Action}
    (hs : SessionTasks.step c s a = some s') : GatherOk c (refused ++ refusedBy s a) s' := by
  cases a with
  | fetched k o =>
    obtain ⟨task, hk, hs⟩ := Option.bind_eq_some_iff.mp hs
    split at hs
    · next hpc =>
      obtain rfl := Option.some.inj hs
      exact h.fetched hk hpc o
    · cases hs
  | fetchRaises k =>
    obtain ⟨task, hk, hs⟩ := Option.bind_eq_some_iff.mp hs
    split at hs
    · next hpc =>
      cases hs
      rw [refusedBy, List.append_nil]
      refine h.quiet hk rfl (whole_setTask hk ?_) rfl rfl (fun r hr => hr) ?_ fun hthen => ?_
      · rw [batch, batch, hpc]
      · rw [comparing, comparing, hpc]
      · cases hthen
    · cases hs
  | resume k =>
    obtain ⟨task, hk, hs⟩ := Option.bind_eq_some_iff.mp hs
    rw [refusedBy, List.append_nil]
    exact gatherOk_resume h hinv hk hs

end Gather

end SchemaPilot.GatherHistory
