import SchemaPilot.MonitorPool

namespace SchemaPilot.RefusedDetail

open Runs MonitorPool
open MonitorRunner (MonitorRun EndpointTask setRun finish recordFailed)

variable {κ : Type}

/-- No call's row is ever committed as running. -/
structure RowsInv (s : State κ) : Prop where
  committed_lt : ∀ row ∈ s.committed, row.id < s.nextId
  runId_lt : ∀ call ∈ s.calls, ∀ r, call.runId = some r → r < s.nextId
  draft : ∀ call ∈ s.calls, ∀ row, call.draft = some row →
    call.runId = some row.id ∧ (call.pc = .commit → row.status ≠ .running)
  hidden : ∀ call ∈ s.calls, ∀ row ∈ s.committed, call.runId = some row.id → row.status ≠ .running

theorem rowsInv_init {rows : List MonitorRun} {nextId : Nat} (h : ∀ row ∈ rows, row.id < nextId) :
    RowsInv (init rows nextId : State κ) := by
  refine ⟨h, fun call hc => ?_, fun call hc => ?_, fun call hc => ?_⟩
  · cases hc
  · cases hc
  · cases hc

section Effects

/-- What a statement does to the run rows. -/
inductive RowEffect (d : Shared κ) (call : Call κ) (d' : Shared κ) (call' : Call κ) : Prop
  | kept (hcommitted : d'.committed = d.committed) (hnext : d'.nextId = d.nextId)
    (hrunId : call'.runId = call.runId) (hdraft : ∀ row, call'.draft = some row → call.draft = some row)
    (hpc : call'.pc ≠ .commit) : RowEffect d call d' call'
  | inserted (row : MonitorRun) (hcommitted : d'.committed = d.committed) (hnext : d'.nextId = d.nextId + 1)
    (hid : row.id = d.nextId) (hrunId : call'.runId = some row.id) (hdraft : call'.draft = some row)
    (hpc : call'.pc ≠ .commit) : RowEffect d call d' call'
  | updated (tasks : List EndpointTask) (hcommitted : d'.committed = d.committed) (hnext : d'.nextId = d.nextId)
    (hrunId : call'.runId = call.runId) (hdraft : call'.draft = call.draft.map (finish d.clock tasks)) :
    RowEffect d call d' call'
  | committed (hpc : call.pc = .commit) (hcommitted : d'.committed = d.committed ++ call.draft.toList)
    (hnext : d'.nextId = d.nextId) (hrunId : call'.runId = call.runId) (hdraft : call'.draft = none) :
    RowEffect d call d' call'
  | failed (runId : Nat) (message : String)
    (hcommitted : d'.committed = setRun d.committed runId (recordFailed d.clock message))
    (hnext : d'.nextId = d.nextId) (hrunId : call'.runId = call.runId) (hdraft : call'.draft = call.draft)
    (hpc : call'.pc ≠ .commit) : RowEffect d call d' call'

variable {d d' : Shared κ} {call call' : Call κ} {k : κ}

theorem rowEffect_execute [DecidableEq κ] (h : execute d call k = some (d', call')) :
    RowEffect d call d' call' := by
  unfold execute at h
  split at h
  · split at h
    · cases h
      exact .kept rfl rfl rfl (fun _ => id) nofun
    · cases h
      exact .kept rfl rfl rfl (fun _ => id) nofun
  · cases h
    exact .kept rfl rfl rfl (fun _ => id) nofun
  · cases h
    exact .inserted _ rfl rfl rfl rfl rfl nofun
  · next hpc =>
    cases h
    refine .kept rfl rfl rfl (fun _ => id) ?_
    rw [hpc]
    nofun
  · next message hpc =>
    cases h
    cases hr : call.runId with
    | some runId => exact .failed runId message rfl rfl hr.symm rfl nofun
    | none => exact .kept rfl rfl hr.symm (fun _ => id) nofun
  · split at h
    · cases h
    · cases h
      exact .kept rfl rfl rfl (fun _ => id) nofun
  all_goals cases h

theorem rowEffect_updateRun {tasks : List EndpointTask}
    (h : updateRun d call k tasks = some (d', call')) :
    RowEffect d call d' call' := by
  unfold updateRun at h
  split at h
  · cases h
    exact .updated tasks rfl rfl rfl rfl
  · cases h

theorem rowEffect_advance (h : advance d call = some (d', call')) : RowEffect d call d' call' := by
  unfold advance at h
  split at h
  · next hpc =>
    cases h
    exact .committed hpc rfl rfl rfl rfl
  · cases h
    exact .kept rfl rfl rfl nofun nofun
  · cases h
    exact .kept rfl rfl rfl nofun nofun
  · cases h

theorem rowEffect_raises {message : String} (h : raises call message = some call') :
    RowEffect d call d call' := by
  unfold raises at h
  split at h <;> cases h
  all_goals exact .kept rfl rfl rfl (fun _ => id) nofun

theorem status_finish (now : Nat) (tasks : List EndpointTask) (run : MonitorRun) :
    (finish now tasks run).id = run.id ∧ (finish now tasks run).status ≠ .running := by
  refine ⟨rfl, ?_⟩
  unfold finish
  dsimp only
  split <;> nofun

theorem status_of_latestRunning {rows : List MonitorRun} {id : Nat}
    (h : latestRunning rows = some id) :
    ∃ row ∈ rows, row.id = id ∧ row.status = .running := by
  obtain ⟨row, hrow, hid⟩ := Option.map_eq_some_iff.mp h
  have hmem := (List.perm_insertionSort _ _).mem_iff.mp (List.mem_of_mem_head? hrow)
  obtain ⟨hm, hs⟩ := List.mem_filter.mp hmem
  exact ⟨row, hm, hid, of_decide_eq_true hs⟩

end Effects

section Invariant

variable {s s' : State κ}

/-- A statement of a call that keeps the id of its run. -/
theorem RowsInv.put_kept (h : RowsInv s) {i : Nat} {call call' : Call κ} {d' : Shared κ}
    (hi : s.calls[i]? = some call) (hnext : d'.nextId = s.nextId)
    (hrunId : call'.runId = call.runId)
    (hlt : ∀ row ∈ d'.committed, row.id < s.nextId)
    (hdraft : ∀ row, call'.draft = some row → call.runId = some row.id ∧ (call'.pc = .commit → row.status ≠ .running))
    (hhidden : ∀ c ∈ s.calls, ∀ row ∈ d'.committed, c.runId = some row.id → row.status ≠ .running) :
    RowsInv (s.put i (d', call')) := by
  have hmem := List.mem_of_getElem? hi
  refine ⟨fun row hrow => (hlt row hrow).trans_eq hnext.symm, fun c hc r hr => ?_, fun c hc => ?_, fun c hc => ?_⟩
  · obtain rfl | hc := mem_calls_put hc
    · exact (h.runId_lt call hmem r (hrunId ▸ hr)).trans_eq hnext.symm
    · exact (h.runId_lt c hc r hr).trans_eq hnext.symm
  · obtain rfl | hc := mem_calls_put hc
    · rw [hrunId]
      exact hdraft
    · exact h.draft c hc
  · obtain rfl | hc := mem_calls_put hc
    · rw [hrunId]
      exact hhidden call hmem
    · exact hhidden c hc

theorem RowsInv.put_inserted (h : RowsInv s) {i : Nat} {call' : Call κ} {d' : Shared κ}
    {row : MonitorRun}
    (hcommitted : d'.committed = s.committed) (hnext : d'.nextId = s.nextId + 1)
    (hid : row.id = s.nextId)
    (hrunId : call'.runId = some row.id) (hdraft : call'.draft = some row)
    (hpc : call'.pc ≠ .commit) : RowsInv (s.put i (d', call')) := by
  refine ⟨fun r hr => ?_, fun c hc r hr => ?_, fun c hc => ?_, fun c hc r hr heq => ?_⟩
  · have hlt := h.committed_lt r (hcommitted ▸ hr)
    exact hlt.trans (by omega : s.nextId < d'.nextId)
  · obtain rfl | hc := mem_calls_put hc
    · obtain rfl := Option.some.inj (hrunId.symm.trans hr)
      exact (by omega : row.id < d'.nextId)
    · exact (h.runId_lt c hc r hr).trans (by omega : s.nextId < d'.nextId)
  · obtain rfl | hc := mem_calls_put hc
    · intro r hr
      obtain rfl := Option.some.inj (hdraft.symm.trans hr)
      exact ⟨hrunId, fun hcommit => absurd hcommit hpc⟩
    · exact h.draft c hc
  · have hrow : r ∈ s.committed := hcommitted ▸ hr
    obtain rfl | hc := mem_calls_put hc
    · have hlt := h.committed_lt r hrow
      rw [hrunId, Option.some.injEq] at heq
      omega
    · exact h.hidden c hc r hrow heq

theorem RowsInv.put (h : RowsInv s) {i : Nat} {call call' : Call κ} {d' : Shared κ}
    (hi : s.calls[i]? = some call)
    (he : RowEffect s.toShared call d' call') : RowsInv (s.put i (d', call')) := by
  have hmem := List.mem_of_getElem? hi
  cases he with
  | kept hcommitted hnext hrunId hdraft hpc =>
    refine h.put_kept hi hnext hrunId (hcommitted ▸ h.committed_lt) (fun row hrow => ?_) (hcommitted ▸ h.hidden)
    exact ⟨(h.draft call hmem row (hdraft row hrow)).1, fun hcommit => absurd hcommit hpc⟩
  | inserted row hcommitted hnext hid hrunId hdraft hpc =>
    exact h.put_inserted hcommitted hnext hid hrunId hdraft hpc
  | updated tasks hcommitted hnext hrunId hdraft =>
    refine h.put_kept hi hnext hrunId (hcommitted ▸ h.committed_lt) (fun row hrow => ?_) (hcommitted ▸ h.hidden)
    rw [hdraft] at hrow
    obtain ⟨row', hrow', rfl⟩ := Option.map_eq_some_iff.mp hrow
    exact ⟨(h.draft call hmem row' hrow').1, fun _ => (status_finish _ tasks row').2⟩
  | committed hpc hcommitted hnext hrunId hdraft =>
    have hmem' : ∀ row ∈ d'.committed, row ∈ s.committed ∨ call.draft = some row := by
      intro row hrow
      rw [hcommitted] at hrow
      exact (List.mem_append.mp hrow).imp_right Option.mem_toList.mp
    refine h.put_kept hi hnext hrunId (fun row hrow => ?_) (fun row hrow => ?_) fun c hc row hrow heq => ?_
    · obtain hrow | hrow := hmem' row hrow
      · exact h.committed_lt row hrow
      · exact h.runId_lt call hmem row.id (h.draft call hmem row hrow).1
    · rw [hdraft] at hrow
      cases hrow
    · obtain hrow | hrow := hmem' row hrow
      · exact h.hidden c hc row hrow heq
      · exact (h.draft call hmem row hrow).2 hpc
  | failed runId message hcommitted hnext hrunId hdraft hpc =>
    have hmem' : ∀ row ∈ d'.committed,
        row ∈ s.committed ∨ (∃ row' ∈ s.committed, row'.id = row.id) ∧ row.status = .failed := by
      intro row hrow
      rw [hcommitted] at hrow
      obtain ⟨row', hrow', rfl⟩ := List.mem_map.mp hrow
      split
      · exact .inr ⟨⟨row', hrow', rfl⟩, rfl⟩
      · exact .inl hrow'
    refine h.put_kept hi hnext hrunId (fun row hrow => ?_) (fun row hrow => ?_) fun c hc row hrow heq => ?_
    · obtain hrow | ⟨⟨row', hrow', hid⟩, -⟩ := hmem' row hrow
      · exact h.committed_lt row hrow
      · exact hid ▸ h.committed_lt row' hrow'
    · exact ⟨(h.draft call hmem row (hdraft ▸ hrow)).1, fun hcommit => absurd hcommit hpc⟩
    · obtain hrow | ⟨-, hfailed⟩ := hmem' row hrow
      · exact h.hidden c hc row hrow heq
      · rw [hfailed]
        nofun

theorem rowsInv_step [DecidableEq κ] (h : RowsInv s) {a : Action κ} (hs : step s a = some s') :
    RowsInv s' := by
  cases step_cases hs with
  | start =>
    refine ⟨h.committed_lt, forall_mem_concat h.runId_lt fun r hr => ?_,
      forall_mem_concat h.draft fun row hrow => ?_, forall_mem_concat h.hidden fun row _ hr => ?_⟩
    · cases hr
    · cases hrow
    · cases hr
  | execute hi hexecute => exact h.put hi (rowEffect_execute hexecute)
  | updateRun hi hupdate => exact h.put hi (rowEffect_updateRun hupdate)
  | advance hi hadvance => exact h.put hi (rowEffect_advance hadvance)
  | raises hi hraises => exact h.put hi (rowEffect_raises hraises)
  | tick => exact ⟨h.committed_lt, h.runId_lt, h.draft, h.hidden⟩

theorem reachable_rowsInv [DecidableEq κ] {rows : List MonitorRun} {nextId : Nat}
    (hrows : ∀ row ∈ rows, row.id < nextId) (h : Reachable step always (init rows nextId) s) :
    RowsInv s :=
  h.invariant (rowsInv_init hrows) fun _ _ _ hi _ hs => rowsInv_step hi hs

/-- While a call runs its row is not committed as running, so a call that is refused never
names it. -/
theorem refused_detail_ne [DecidableEq κ] (rows : List MonitorRun) (nextId : Nat)
    (hrows : ∀ row ∈ rows, row.id < nextId) (s s' : State κ)
    (h : Reachable step always (init rows nextId) s) (i j r : Nat) (k : κ) (first second : Call κ)
    (hi : s.calls[i]? = some first) (hrunId : first.runId = some r) (hj : s.calls[j]? = some second)
    (hpc : second.pc = .selectRunning) (hs : step s (.execute j k) = some s') :
    ∃ detail, s'.calls[j]?.map Call.pc = some (.close (.refused detail)) ∧ detail ≠ some r := by
  have hinv := reachable_rowsInv hrows h
  obtain ⟨call, hcall, hs⟩ := Option.bind_eq_some_iff.mp hs
  obtain rfl := Option.some.inj (hj.symm.trans hcall)
  split at hs
  · obtain ⟨p, hp, rfl⟩ := Option.map_eq_some_iff.mp hs
    rw [execute, hpc] at hp
    cases hp
    have hlt : j < s.calls.length := (List.getElem?_eq_some_iff.mp hj).1
    refine ⟨latestRunning s.committed, by simp [State.put, hlt], fun hdetail => ?_⟩
    obtain ⟨row, hrow, hid, hstatus⟩ := status_of_latestRunning hdetail
    exact hinv.hidden first (List.mem_of_getElem? hi) row hrow (hid ▸ hrunId) hstatus
  · cases hs

end Invariant

section Sample

/-- A call has inserted the row of its run when a second one is refused the lock. -/
def refusedWhileRunning : List (Action Nat) :=
  [.start, .start, .execute 0 0, .execute 0 0, .execute 1 1]

theorem run_refusedWhileRunning :
    ∃ (s s' : State Nat) (first second : Call Nat), Reachable step always (init [] 0) s ∧
      step s (.execute 1 1) = some s' ∧ (s.calls[0]? = some first ∧ first.runId = some 0 ∧ first.inProgress) ∧
      (s.calls[1]? = some second ∧ second.pc = .selectRunning) ∧
      s'.calls[1]?.map Call.pc = some (.close (.refused none)) := by
  have hrun : (run step always (init [] 0) refusedWhileRunning).map
      (fun s => (s.calls.map fun call => (call.runId, call.pc),
        (step s (.execute 1 1)).map fun s' => s'.calls[1]?.map Call.pc)) =
      some ([(some 0, .body), (none, .selectRunning)], some (some (.close (.refused none)))) := by decide +kernel
  obtain ⟨s, hs, hrest⟩ := Option.map_eq_some_iff.mp hrun
  obtain ⟨hcalls, hnext⟩ := Prod.mk.inj hrest
  obtain ⟨s', hs', hdetail⟩ := Option.map_eq_some_iff.mp hnext
  have hat : ∀ (i : Nat) (runId : Option Nat) (pc : Pc),
      [(some 0, Pc.body), (none, .selectRunning)][i]? = some (runId, pc) →
      ∃ call, s.calls[i]? = some call ∧ call.runId = runId ∧ call.pc = pc := by
    intro i runId pc hp
    rw [← hcalls, List.getElem?_map] at hp
    obtain ⟨call, hcall, heq⟩ := Option.map_eq_some_iff.mp hp
    exact ⟨call, hcall, Prod.mk.inj heq⟩
  obtain ⟨first, hfirst, hrunId, hbody⟩ := hat 0 _ _ rfl
  obtain ⟨second, hsecond, -, hselect⟩ := hat 1 _ _ rfl
  have hprogress : first.inProgress := by
    unfold Call.inProgress
    rw [hbody]
  exact ⟨s, s', first, second, reachable_run step always .start hs, hs', ⟨hfirst, hrunId, hprogress⟩,
    ⟨hsecond, hselect⟩, hdetail⟩

theorem refused_detail_ne_second_call :
    ∃ (s : State Nat) (detail : Option Nat), s.calls[1]?.map Call.pc = some (.close (.refused detail)) ∧
      detail ≠ some 0 := by
  obtain ⟨s, s', first, second, h, hs, ⟨hfirst, hrunId, -⟩, ⟨hsecond, hpc⟩, -⟩ := run_refusedWhileRunning
  exact ⟨s', refused_detail_ne [] 0 (fun _ hrow => absurd hrow List.not_mem_nil) s s' h 0 1 0 1 first second
    hfirst hrunId hsecond hpc hs⟩

/-- The first call's row is still uncommitted, and the refusal names no run. -/
theorem refused_without_first_row :
    ¬∀ s s' : State Nat, Reachable step always (init [] 0) s → step s (.execute 1 1) = some s' →
      ∀ first second, s.calls[0]? = some first → s.calls[1]? = some second → first.inProgress →
        second.pc = .selectRunning → ∀ r, first.runId = some r →
          s'.calls[1]?.map Call.pc = some (.close (.refused (some r))) := by
  intro h
  obtain ⟨s, s', first, second, hreach, hs, ⟨hfirst, hrunId, hprogress⟩, ⟨hsecond, hpc⟩, hdetail⟩ :=
    run_refusedWhileRunning
  have hclaim := h s s' hreach hs first second hfirst hsecond hprogress hpc 0 hrunId
  rw [hdetail] at hclaim
  cases hclaim

end Sample

end SchemaPilot.RefusedDetail
