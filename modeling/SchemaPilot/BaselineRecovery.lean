import SchemaPilot.BaselineStability

namespace SchemaPilot.BaselineRecovery

open Runs TrackPayload LegacyRegistry BaselineElection BaselineStability

variable {ι : Type}

/-- The endpoint that a request will elect a baseline for, if it finds none. -/
def awaited : Pc → Option Nat
  | .selectBaseline e true | .clearBaselines e | .setBaseline e | .commitBaseline e => some e
  | _ => none

/-- An endpoint has a baseline, or some request is about to elect one. -/
def Covered (s : State ι) (e : Nat) : Prop := HasBaseline s.db e ∨ ∃ i, awaited (s.call i).pc = some e

/-- No request fails between its two commits while its endpoint has no baseline and no other
request will elect one. -/
def NoLostElection (s : State ι) : Action ι → Prop
  | .fail i => ∀ e ∈ awaited (s.call i).pc, HasBaseline s.db e ∨ ∃ j, j ≠ i ∧ awaited (s.call j).pc = some e
  | .advance _ | .tick => True

instance (db : Tables) (e : Nat) : Decidable (HasBaseline db e) :=
  inferInstanceAs (Decidable (∃ r ∈ db.snapshots, r.endpointId = e ∧ r.isActiveBaseline = true))

instance [Fintype ι] [DecidableEq ι] (s : State ι) (a : Action ι) : Decidable (NoLostElection s a) :=
  match a with
  | .fail i => inferInstanceAs (Decidable (∀ e ∈ awaited (s.call i).pc,
      HasBaseline s.db e ∨ ∃ j, j ≠ i ∧ awaited (s.call j).pc = some e))
  | .advance _ | .tick => inferInstanceAs (Decidable True)

/-- Every request has ended or not begun. -/
def Idle (s : State ι) : Prop := ∀ i, (s.call i).pc = .contract ∨ (s.call i).pc.active = false

structure CoveredInv (c : Config ι) (s : State ι) : Prop where
  base : ElectionInv c s
  covered : ∀ r ∈ s.db.snapshots, Covered s r.endpointId

theorem coveredInv_init (c : Config ι) : CoveredInv c init :=
  ⟨electionInv_init c, fun _ hr => absurd hr List.not_mem_nil⟩

variable {c : Config ι} {s : State ι} {i : ι} {db : Tables} {w : Call} [Fintype ι] [DecidableEq ι]

/-- A baseline may be replaced, but an endpoint that has one never loses it. -/
theorem hasBaseline_change (h : ElectionInv c s) (hs : Change c s i db w) {e : Nat}
    (hb : HasBaseline s.db e) : HasBaseline db e := by
  obtain ⟨r, hr, hre, ha⟩ := hb
  obtain ⟨hsnapshots, -⟩ | ⟨rfl, hpc | ⟨e', hpc⟩⟩ := db_of_change hs
  · exact ⟨r, hsnapshots ▸ hr, hre, ha⟩
  · obtain ⟨hc, hel⟩ := h.untouched hpc
    exact ⟨r, (mem_commit_snapshots hc hel r).mpr (.inl hr), hre, ha⟩
  · by_cases he : r.endpointId = e'
    · rw [← hre, he]
      exact h.hasBaseline_commit hpc
    · exact ⟨r, (h.mem_commit_election hpc he).mpr hr, hre, ha⟩

/-- A request that is about to elect finds a baseline, or goes on, or elects. -/
theorem awaited_change (h : ElectionInv c s) (hs : Change c s i db w) {e : Nat}
    (he : awaited (s.call i).pc = some e) : HasBaseline db e ∨ awaited w.pc = some e := by
  cases hs with
  | compare e' inserted hpc r diffs hfind hne hdiffs =>
    rw [hpc] at he
    cases inserted with
    | true =>
      cases he
      exact .inl ⟨r, h.found hpc hfind⟩
    | false => cases he
  | sameBaseline e' inserted hpc r hfind heq =>
    rw [hpc] at he
    cases inserted with
    | true =>
      cases he
      exact .inl ⟨r, h.found hpc hfind⟩
    | false => cases he
  | noBaseline e' hpc hfind =>
    rw [hpc] at he
    exact .inr he
  | clearBaselines e' hpc ids hids =>
    rw [hpc] at he
    exact .inr he
  | setBaseline e' hpc ids hids =>
    rw [hpc] at he
    exact .inr he
  | commitBaseline e' hpc =>
    rw [hpc] at he
    cases he
    exact .inl (h.hasBaseline_commit hpc)
  | contract hpc | begin hpc | lock hpc _ | foundEndpoint hpc _ _ | noEndpoint hpc _
  | endpointConflict hpc _ _ _ | insertEndpoint hpc _ | foundSnapshot _ hpc _ _ | noSnapshot _ hpc _
  | snapshotConflict _ hpc _ _ _ _ | insertSnapshot _ hpc | commitSnapshot _ _ hpc
  | noBaselineKnown _ hpc _ | logged _ _ _ hpc | skipItem _ _ _ _ _ hpc _ | logItem _ _ _ _ _ hpc _ _
  | commitViolations _ _ _ hpc =>
    rw [hpc] at he
    cases he

/-- A snapshot that a step adds belongs to an endpoint for which its request is about to elect. -/
theorem snapshot_change (h : ElectionInv c s) (hs : Change c s i db w) {r : SchemaSnapshot}
    (hr : r ∈ db.snapshots) :
    (∃ r' ∈ s.db.snapshots, r'.endpointId = r.endpointId) ∨ awaited w.pc = some r.endpointId := by
  have hl := h.base.calls i
  rw [LocalOk] at hl
  have hcommit : r ∈ (commit s.db (s.call i).session).snapshots →
      (∃ r' ∈ s.db.snapshots, r'.endpointId = r.endpointId) ∨ (s.call i).session.snapshot = some r := by
    intro hr
    rw [commit, List.mem_append, Option.mem_toList] at hr
    refine hr.imp_left fun hr => ?_
    obtain ⟨r', hr', rfl⟩ := List.mem_map.mp hr
    exact ⟨r', hr', (update_endpointId _ _).symm⟩
  have hnone : (s.call i).session.snapshot = none → (s.call i).session.snapshot = some r →
      awaited w.pc = some r.endpointId := fun hn hsome => by
    rw [hn] at hsome
    cases hsome
  cases hs with
  | commitSnapshot e inserted hpc =>
    simp only [hpc] at hl
    refine (hcommit hr).imp_right fun hdraft => ?_
    cases inserted with
    | true =>
      obtain ⟨-, -, -, r', hr', rfl, -⟩ := hl
      obtain rfl := Option.some.inj (hdraft.symm.trans hr')
      rfl
    | false => exact hnone hl.2.2.1 hdraft
  | commitBaseline e hpc =>
    simp only [hpc] at hl
    exact (hcommit hr).imp_right (hnone hl.2.snapshot)
  | commitViolations e inserted diffs hpc =>
    simp only [hpc] at hl
    exact (hcommit hr).imp_right (hnone hl.2.snapshot)
  | _ => exact .inl ⟨r, hr, rfl⟩

theorem covered_change (h : CoveredInv c s) (hs : Change c s i db w) : CoveredInv c (s.set db i w) := by
  have hkeep : ∀ e, Covered s e → Covered (s.set db i w) e := by
    rintro e (hb | ⟨j, hj⟩)
    · exact .inl (hasBaseline_change h.base hs hb)
    · by_cases hji : j = i
      · subst hji
        refine (awaited_change h.base hs hj).imp_right fun hw => ⟨j, ?_⟩
        rw [set_call, if_pos rfl]
        exact hw
      · refine .inr ⟨j, ?_⟩
        rw [set_call, if_neg hji]
        exact hj
  refine ⟨electionInv_change h.base hs, fun r hr => ?_⟩
  obtain ⟨r', hr', he⟩ | hw := snapshot_change h.base hs hr
  · exact he ▸ hkeep _ (h.covered r' hr')
  · refine .inr ⟨i, ?_⟩
    rw [set_call, if_pos rfl]
    exact hw

theorem coveredInv_step {a : Action ι} {s' : State ι} (h : CoveredInv c s) (hok : NoLostElection s a)
    (hs : step c s a = some s') : CoveredInv c s' := by
  have hbase := electionInv_step h.base hs
  cases a with
  | advance i =>
    obtain ⟨db, w, hchange, rfl⟩ := change_of_advance hs
    exact covered_change h hchange
  | fail i =>
    rw [step] at hs
    split at hs
    · cases hs
      refine ⟨hbase, fun r hr => ?_⟩
      have hother : ∀ {e j}, j ≠ i → awaited (s.call j).pc = some e →
          Covered (s.set s.db i ((s.call i).finish (.failed false))) e := by
        intro e j hji hj
        refine .inr ⟨j, ?_⟩
        rw [set_call, if_neg hji]
        exact hj
      obtain hb | ⟨j, hj⟩ := h.covered r hr
      · exact .inl hb
      · by_cases hji : j = i
        · subst hji
          obtain hb | ⟨k, hkj, hk⟩ := hok _ hj
          · exact .inl hb
          · exact hother hkj hk
        · exact hother hji hj
    · cases hs
  | tick =>
    cases hs
    exact ⟨hbase, h.covered⟩

/-- As long as no election is lost, an endpoint that has a snapshot has a baseline whenever no
request is in flight. -/
theorem baseline_elected (c : Config ι) (s : State ι) (h : Reachable (step c) NoLostElection init s)
    (hidle : Idle s) : ∀ r ∈ s.db.snapshots, HasBaseline s.db r.endpointId := by
  have hinv : CoveredInv c s :=
    h.invariant (coveredInv_init c) fun _ _ _ hi hok hs => coveredInv_step hi hok hs
  intro r hr
  obtain hb | ⟨i, hi⟩ := hinv.covered r hr
  · exact hb
  · obtain hpc | hpc := hidle i
    · rw [hpc] at hi
      cases hi
    · cases hp : (s.call i).pc with
      | finished result | failed u =>
        rw [hp] at hi
        cases hi
      | _ =>
        rw [hp] at hpc
        cases hpc

section Lost

/-- One of two requests fails after it has registered its snapshot; the other elects. -/
theorem baseline_elected_by_the_other :
    let c := sampleConfig (fun i : Fin 2 => if i = 0 then intSubmission else floatSubmission)
    ∃ s, Reachable (step c) NoLostElection init s ∧ (s.call 0).pc = .failed false ∧ Idle s ∧
      ∃ r ∈ s.db.snapshots, r.fingerprint = (c.request 0).fingerprint ∧ HasBaseline s.db r.endpointId := by
  intro c
  let acts := List.replicate 8 (Action.advance (0 : Fin 2)) ++ List.replicate 7 (Action.advance 1) ++
    Action.fail 0 :: List.replicate 4 (Action.advance 1)
  have hrun : (run (step c) NoLostElection init acts).map (fun s => ((s.call 0).pc, (s.call 1).pc,
      s.db.snapshots.map SchemaSnapshot.fingerprint)) = some
        (.failed false, .finished (some ⟨0, true, 0, 0, 0, 0⟩),
          [(c.request 0).fingerprint, (c.request 1).fingerprint]) := by decide +kernel
  obtain ⟨s, hs, hpcs⟩ := Option.map_eq_some_iff.mp hrun
  obtain ⟨hpc, hrest⟩ := Prod.mk.inj hpcs
  obtain ⟨hpc', hsnapshots⟩ := Prod.mk.inj hrest
  have hreach : Reachable (step c) NoLostElection init s := reachable_run (step c) NoLostElection .start hs
  have hidle : Idle s := Fin.forall_fin_two.mpr ⟨.inr (by rw [hpc]; rfl), .inr (by rw [hpc']; rfl)⟩
  obtain ⟨r, hr, hf⟩ := List.mem_map.mp (hsnapshots ▸ List.mem_cons_self)
  exact ⟨s, hreach, hpc, hidle, r, hr, hf, baseline_elected c s hreach hidle r hr⟩

def columns (s : State (Fin 2)) : List (Nat × String × Bool) :=
  s.db.snapshots.map (fun r => (r.endpointId, r.fingerprint, r.isActiveBaseline))

theorem lost_of_columns {s : State (Fin 2)} {e : Nat} {f : String} (h : columns s = [(e, f, false)]) :
    ∃ r ∈ s.db.snapshots, r.fingerprint = f ∧ ¬HasBaseline s.db r.endpointId := by
  have hrow : ∀ r ∈ s.db.snapshots, r.fingerprint = f ∧ r.isActiveBaseline = false := by
    intro r hr
    have hm : (r.endpointId, r.fingerprint, r.isActiveBaseline) ∈ [(e, f, false)] :=
      h ▸ List.mem_map_of_mem hr
    exact Prod.mk.inj (Prod.mk.inj (List.mem_singleton.mp hm)).2
  obtain ⟨r, hr, -⟩ := List.mem_map.mp (h ▸ List.mem_cons_self)
  refine ⟨r, hr, (hrow r hr).1, ?_⟩
  rintro ⟨r', hr', -, ha⟩
  rw [(hrow r' hr').2] at ha
  cases ha

/-- The first request fails between its commits, and its payload, sent again, elects nothing:
no request is in flight, before and after, and the endpoint has a snapshot and no baseline. -/
theorem election_lost :
    let c := sampleConfig (fun _ : Fin 2 => intSubmission)
    ∃ s s', Reachable (step c) always init s ∧ Reachable (step c) always s s' ∧ Idle s ∧ Idle s' ∧
      (s.call 1).pc = .contract ∧ (s'.call 1).pc = .finished (some ⟨0, false, 0, 0, 0, 0⟩) ∧
      (∃ r ∈ s.db.snapshots, r.fingerprint = (c.request 1).fingerprint ∧ ¬HasBaseline s.db r.endpointId) ∧
      ∃ r ∈ s'.db.snapshots, ¬HasBaseline s'.db r.endpointId := by
  intro c
  let first := List.replicate 8 (Action.advance (0 : Fin 2)) ++ [.fail 0]
  let second := List.replicate 7 (Action.advance (1 : Fin 2))
  have hfirst : (run (step c) always init first).map (fun s =>
      ((s.call 0).pc, (s.call 1).pc, columns s)) = some
        (.failed false, .contract, [(0, (c.request 1).fingerprint, false)]) := by decide +kernel
  have hsecond : (run (step c) always init (first ++ second)).map (fun s =>
      ((s.call 0).pc, (s.call 1).pc, columns s)) = some
        (.failed false, .finished (some ⟨0, false, 0, 0, 0, 0⟩),
          [(0, (c.request 1).fingerprint, false)]) := by decide +kernel
  obtain ⟨s, hs, hpcs⟩ := Option.map_eq_some_iff.mp hfirst
  obtain ⟨s', hs', hpcs'⟩ := Option.map_eq_some_iff.mp hsecond
  obtain ⟨hpc0, hrest⟩ := Prod.mk.inj hpcs
  obtain ⟨hpc1, hsnapshots⟩ := Prod.mk.inj hrest
  obtain ⟨hpc0', hrest'⟩ := Prod.mk.inj hpcs'
  obtain ⟨hpc1', hsnapshots'⟩ := Prod.mk.inj hrest'
  have hlater : run (step c) always s second = some s' := by
    rwa [run_append, hs] at hs'
  have hidle : Idle s := Fin.forall_fin_two.mpr ⟨.inr (by rw [hpc0]; rfl), .inl hpc1⟩
  have hidle' : Idle s' := Fin.forall_fin_two.mpr ⟨.inr (by rw [hpc0']; rfl), .inr (by rw [hpc1']; rfl)⟩
  obtain ⟨r', hr', -, hb'⟩ := lost_of_columns hsnapshots'
  exact ⟨s, s', reachable_run (step c) always .start hs, reachable_run (step c) always .start hlater, hidle,
    hidle', hpc1, hpc1', lost_of_columns hsnapshots, r', hr', hb'⟩

end Lost

end SchemaPilot.BaselineRecovery
