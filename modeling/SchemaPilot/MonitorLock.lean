import SchemaPilot.MonitorPool

namespace SchemaPilot.MonitorLock

open Runs MonitorPool

variable {κ : Type} [DecidableEq κ]

/-- How often a connection has taken the advisory lock and not released it. -/
def timesHeld (lock : Option (κ × Nat)) (k : κ) : Nat :=
  match lock with
  | some (holder, n) => if holder = k then n else 0
  | none => 0

/-- The call stands before the release of its lock. -/
def unlocking (call : Call κ) : Bool :=
  match call.pc with
  | .unlock _ => true
  | _ => false

/-- A call that has the lock releases it on the connection that it took it on, and the release
does not raise. -/
def ownUnlock (s : State κ) : Action κ → Bool
  | .execute i k => s.calls[i]?.all fun call => !unlocking call || call.lockedOn = some k
  | .raises i _ => s.calls[i]?.all fun call => !unlocking call
  | _ => true

/-- The call has yet to take the lock, or will not release it any more. -/
def unlocked (call : Call κ) : Bool :=
  match call.pc with
  | .tryLock | .selectRunning | .close _ | .ended _ => true
  | _ => false

structure LockInv (s : State κ) : Prop where
  count : ∀ k, s.calls.countP (fun call => call.lockedOn = some k) = timesHeld s.lock k
  positive : ∀ k n, s.lock = some (k, n) → 0 < n
  calls : ∀ call ∈ s.calls, unlocked call → call.lockedOn = none

theorem lockInv_init (rows : List MonitorRunner.MonitorRun) (nextId : Nat) :
    LockInv (init rows nextId : State κ) := by
  refine ⟨fun _ => rfl, fun k n h => ?_, fun call h => ?_⟩
  · cases h
  · cases h

section Lock

variable {lock lock' : Option (κ × Nat)} {k : κ}

theorem timesHeld_tryAdvisoryLock {p : κ × Nat} (h : tryAdvisoryLock lock k = some p) (j : κ) :
    timesHeld (some p) j = timesHeld lock j + if k = j then 1 else 0 := by
  unfold tryAdvisoryLock at h
  split at h
  · cases h
    simp [timesHeld]
  · split at h
    · next heq =>
      cases h
      simp only [timesHeld, heq]
      split <;> rfl
    · cases h

theorem timesHeld_advisoryUnlock (hk : 0 < timesHeld lock k) (j : κ) :
    timesHeld (advisoryUnlock lock k) j + (if k = j then 1 else 0) = timesHeld lock j := by
  cases lock with
  | none => cases hk
  | some p =>
    obtain ⟨holder, n⟩ := p
    simp only [timesHeld] at hk
    split at hk
    · next heq =>
      subst heq
      simp only [advisoryUnlock, if_true, timesHeld]
      by_cases h1 : n = 1
      · simp [h1]
      · simp only [h1, if_false]
        split <;> omega
    · cases hk

theorem positive_tryAdvisoryLock {j : κ} {n : Nat} (h : tryAdvisoryLock lock k = some (j, n)) :
    0 < n := by
  unfold tryAdvisoryLock at h
  split at h
  · cases h
    exact Nat.one_pos
  · split at h
    · cases h
      exact Nat.succ_pos _
    · cases h

theorem positive_advisoryUnlock (hlock : ∀ j n, lock = some (j, n) → 0 < n) {j : κ} {n : Nat}
    (h : advisoryUnlock lock k = some (j, n)) : 0 < n := by
  unfold advisoryUnlock at h
  split at h
  · cases h
  · next holder m =>
    have hm := hlock holder m rfl
    split at h
    · split at h
      · cases h
      · cases h
        omega
    · cases h
      exact hm

theorem countP_set_add {α : Type} {p : α → Bool} {l : List α} {i : Nat} {x : α}
    (h : l[i]? = some x) (y : α) :
    (l.set i y).countP p + (if p x then 1 else 0) = l.countP p + if p y then 1 else 0 := by
  induction l generalizing i with
  | nil => cases h
  | cons z l ih =>
    cases i with
    | zero =>
      obtain rfl := Option.some.inj h
      rw [List.set_cons_zero, List.countP_cons, List.countP_cons]
      omega
    | succ i =>
      have hi := ih (i := i) h
      rw [List.set_cons_succ, List.countP_cons, List.countP_cons]
      omega

end Lock

section Effects

/-- What a statement does to the lock and to what its call has of it. -/
inductive LockEffect (d : Shared κ) (call : Call κ) (d' : Shared κ) (call' : Call κ) : Prop
  | kept (hlock : d'.lock = d.lock) (hon : call'.lockedOn = call.lockedOn)
    (hunlocked : unlocked call' → unlocked call) : LockEffect d call d' call'
  | taken (k : κ) (p : κ × Nat) (hlock : tryAdvisoryLock d.lock k = some p) (hlock' : d'.lock = some p)
    (hpc : unlocked call) (hon : call'.lockedOn = some k) (hunlocked : unlocked call' = false) :
    LockEffect d call d' call'
  | released (k : κ) (hlock : d'.lock = advisoryUnlock d.lock k) (hown : call.lockedOn = some k)
    (hon : call'.lockedOn = none) : LockEffect d call d' call'

variable {d d' : Shared κ} {call call' : Call κ} {k : κ}

theorem lockEffect_execute (hown : unlocking call → call.lockedOn = some k)
    (h : execute d call k = some (d', call')) : LockEffect d call d' call' := by
  unfold execute at h
  cases hpc : call.pc with
  | tryLock =>
    simp only [hpc] at h
    split at h
    · next p hp =>
      cases h
      exact .taken k p hp rfl (by rw [unlocked, hpc]) rfl rfl
    · cases h
      exact .kept rfl rfl fun _ => by rw [unlocked, hpc]
  | selectRunning =>
    simp only [hpc] at h
    cases h
    exact .kept rfl rfl fun _ => by rw [unlocked, hpc]
  | insertRun =>
    simp only [hpc] at h
    cases h
    exact .kept rfl rfl nofun
  | body =>
    simp only [hpc] at h
    cases h
    exact .kept rfl rfl nofun
  | recordFailure message =>
    simp only [hpc] at h
    cases h
    exact .kept rfl rfl nofun
  | unlock outcome =>
    simp only [hpc] at h
    split at h
    · cases h
    · cases h
      exact .released k rfl (hown (by rw [unlocking, hpc])) rfl
  | commit | rollback message | close outcome | ended outcome =>
    simp only [hpc] at h
    cases h

theorem lockEffect_updateRun {tasks : List MonitorRunner.EndpointTask}
    (h : updateRun d call k tasks = some (d', call')) : LockEffect d call d' call' := by
  unfold updateRun at h
  split at h
  · cases h
    exact .kept rfl rfl nofun
  · cases h

theorem lockEffect_advance (h : advance d call = some (d', call')) :
    LockEffect d call d' call' := by
  unfold advance at h
  split at h
  · cases h
    exact .kept rfl rfl nofun
  · cases h
    exact .kept rfl rfl nofun
  · next outcome hpc =>
    cases h
    exact .kept rfl rfl fun _ => by rw [unlocked, hpc]
  · cases h

theorem lockEffect_raises {message : String} (hown : unlocking call = false)
    (h : raises call message = some call') : LockEffect d call d call' := by
  unfold raises at h
  cases hpc : call.pc with
  | tryLock | selectRunning =>
    simp only [hpc] at h
    cases h
    exact .kept rfl rfl fun _ => by rw [unlocked, hpc]
  | insertRun | body | commit | rollback m | recordFailure m =>
    simp only [hpc] at h
    cases h
    exact .kept rfl rfl nofun
  | unlock outcome => simp [unlocking, hpc] at hown
  | close outcome | ended outcome =>
    simp only [hpc] at h
    cases h

end Effects

section Invariant

variable {s s' : State κ}

theorem LockInv.put (h : LockInv s) {i : Nat} {call call' : Call κ} {d' : Shared κ}
    (hi : s.calls[i]? = some call)
    (he : LockEffect s.toShared call d' call') : LockInv (s.put i (d', call')) := by
  have hmem := List.mem_of_getElem? hi
  have hcount : ∀ k, (s.calls.set i call').countP (fun call => call.lockedOn = some k) +
      (if call.lockedOn = some k then 1 else 0) = timesHeld s.lock k + if call'.lockedOn = some k then 1 else 0 := by
    intro k
    have hset := countP_set_add (p := fun call : Call κ => decide (call.lockedOn = some k)) hi call'
    simp only [decide_eq_true_eq] at hset
    rw [hset, h.count k]
  cases he with
  | kept hlock hon hunlocked =>
    refine ⟨fun k => ?_, fun k n hk => ?_, fun c hc hu => ?_⟩
    · have hk := hcount k
      rw [hon] at hk
      change (s.calls.set i call').countP _ = timesHeld d'.lock k
      rw [hlock]
      omega
    · exact h.positive k n (hlock ▸ hk)
    · obtain rfl | hc := mem_calls_put hc
      · rw [hon]
        exact h.calls call hmem (hunlocked hu)
      · exact h.calls c hc hu
  | taken k p hlock hlock' hpc hon hunlocked =>
    have hnone := h.calls call hmem hpc
    refine ⟨fun j => ?_, fun j n hj => ?_, fun c hc hu => ?_⟩
    · have hj := hcount j
      rw [hnone, hon] at hj
      change (s.calls.set i call').countP _ = timesHeld d'.lock j
      rw [hlock', timesHeld_tryAdvisoryLock hlock j]
      simpa using hj
    · obtain rfl := Option.some.inj (hlock'.symm.trans hj)
      exact positive_tryAdvisoryLock hlock
    · obtain rfl | hc := mem_calls_put hc
      · rw [hunlocked] at hu
        cases hu
      · exact h.calls c hc hu
  | released k hlock hown hon =>
    have hheld : 0 < timesHeld s.lock k := by
      rw [← h.count k, List.countP_pos_iff]
      exact ⟨call, hmem, by simpa using hown⟩
    refine ⟨fun j => ?_, fun j n hj => ?_, fun c hc hu => ?_⟩
    · have hj := hcount j
      rw [hown, hon] at hj
      have hlocked := timesHeld_advisoryUnlock hheld j
      change (s.calls.set i call').countP _ = timesHeld d'.lock j
      rw [hlock]
      simp only [Option.some.injEq, reduceCtorEq, if_false] at hj
      omega
    · exact positive_advisoryUnlock h.positive (hlock.symm.trans hj)
    · obtain rfl | hc := mem_calls_put hc
      · exact hon
      · exact h.calls c hc hu

theorem lockInv_step (h : LockInv s) {a : Action κ} (hown : ownUnlock s a)
    (hs : step s a = some s') :
    LockInv s' := by
  cases step_cases hs with
  | start =>
    refine ⟨fun k => ?_, h.positive, forall_mem_concat h.calls fun _ => rfl⟩
    have hk := h.count k
    simpa using hk
  | execute hi hexecute =>
    refine h.put hi (lockEffect_execute (fun hu => ?_) hexecute)
    simpa [ownUnlock, hi, hu] using hown
  | updateRun hi hupdate => exact h.put hi (lockEffect_updateRun hupdate)
  | advance hi hadvance => exact h.put hi (lockEffect_advance hadvance)
  | raises hi hraises =>
    refine h.put hi (lockEffect_raises ?_ hraises)
    simpa [ownUnlock, hi] using hown
  | tick => exact ⟨h.count, h.positive, h.calls⟩

/-- When each call releases its lock where it took it, an idle monitor leaves no lock behind. -/
theorem idle_lock_free (rows : List MonitorRunner.MonitorRun) (nextId : Nat) (s : State κ)
    (h : Reachable step (fun s a => ownUnlock s a) (init rows nextId) s)
    (hidle : ∀ call ∈ s.calls, ¬call.inProgress) :
    (∀ k, timesHeld s.lock k = 0) ∧ ∀ k, (tryAdvisoryLock s.lock k).isSome := by
  have hinv : LockInv s := h.invariant (lockInv_init rows nextId) fun _ _ _ hi hown hs => lockInv_step hi hown hs
  have hfree : ∀ call ∈ s.calls, call.lockedOn = none := by
    intro call hc
    apply hinv.calls call hc
    have hended := hidle call hc
    unfold Call.inProgress at hended
    unfold unlocked
    split at hended
    · next hpc => rw [hpc]
    · exact absurd rfl hended
  have hheld : ∀ k, timesHeld s.lock k = 0 := by
    intro k
    rw [← hinv.count k, List.countP_eq_zero]
    intro call hc
    simp [hfree call hc]
  refine ⟨hheld, fun k => ?_⟩
  cases hlock : s.lock with
  | none => rfl
  | some p =>
    have hpos := hinv.positive p.1 p.2 hlock
    have hzero := hheld p.1
    simp only [hlock, timesHeld, if_true] at hzero
    omega

end Invariant

section Sample

/-- A call that another connection refuses while the first one runs and unlocks on connection `k`. -/
def runThenUnlockOn (k : Nat) : List (Action Nat) :=
  [.start, .start, .execute 0 0, .execute 1 1, .execute 1 1, .advance 1, .execute 0 0, .execute 0 0,
    .updateRun 0 0 [], .advance 0, .execute 0 k, .advance 0]

theorem idle_lock_free_same_connection :
    ∃ s : State Nat, Reachable step (fun s a => ownUnlock s a) (init [] 0) s ∧ s.calls.length = 2 ∧
      ∀ k, timesHeld s.lock k = 0 := by
  have hrun : (run step (fun s a => ownUnlock s a) (init [] 0) (runThenUnlockOn 0)).map
      (fun s => (s.calls.length, s.calls.all fun call => !call.inProgress)) = some (2, true) := by decide +kernel
  obtain ⟨s, hs, hrest⟩ := Option.map_eq_some_iff.mp hrun
  obtain ⟨hlength, hidle⟩ := Prod.mk.inj hrest
  have hreach := reachable_run step (fun s a => ownUnlock s a) .start hs
  refine ⟨s, hreach, hlength, (idle_lock_free [] 0 s hreach fun call hc => ?_).1⟩
  simpa using List.all_eq_true.mp hidle call hc

/-- The commit gives the connection back, and the unlock runs on another one. -/
theorem lock_left_behind :
    ¬∀ s : State Nat, Reachable step always (init [] 0) s → (∀ call ∈ s.calls, ¬call.inProgress) →
      (∀ k, timesHeld s.lock k = 0) ∧ ∀ k, (tryAdvisoryLock s.lock k).isSome := by
  intro h
  have hrun : (run step always (init [] 0) (runThenUnlockOn 1)).map
      (fun s => (s.lock, s.calls.all fun call => !call.inProgress)) = some (some (0, 1), true) := by decide +kernel
  obtain ⟨s, hs, hrest⟩ := Option.map_eq_some_iff.mp hrun
  obtain ⟨hlock, hidle⟩ := Prod.mk.inj hrest
  have hfree := h s (reachable_run step always .start hs) fun call hc => by
    simpa using List.all_eq_true.mp hidle call hc
  have hheld := hfree.1 0
  rw [hlock] at hheld
  cases hheld

end Sample

end SchemaPilot.MonitorLock
