import SchemaPilot.Conservation
import SchemaPilot.LegacyRegistry

namespace SchemaPilot.ResponseLedger

open Conservation Engine LegacyRegistry Runs TrackPayload

structure RuntimeMetrics where
  endpointCount : Nat
  snapshotCount : Nat
  severityCounts : List (ChangeSeverity × Nat)
  deriving DecidableEq

def tally (violations : List Violation) (severity : ChangeSeverity) : Nat :=
  violations.countP (fun v => v.severity = severity)

/-- A row for every severity that occurs. -/
def severityCounts (violations : List Violation) : List (ChangeSeverity × Nat) :=
  (violations.map Violation.severity).dedup.map (fun severity => (severity, tally violations severity))

def getRuntimeMetrics (db : Tables) : RuntimeMetrics where
  endpointCount := db.endpoints.length
  snapshotCount := db.snapshots.length
  severityCounts := severityCounts db.violations

/-- The `severities` of an answer. -/
def severitiesOf (result : TrackResult) : ChangeSeverity → Nat
  | .SAFE => result.safe
  | .RISKY => result.risky
  | .BREAKING => result.breaking

/-- What a request has answered; one that skips the legacy tables answers nothing about them. -/
def answered (severity : ChangeSeverity) (w : Call) : Nat :=
  match w.pc with
  | .finished (some result) => severitiesOf result severity
  | _ => 0

def graded (diffs : List DriftItem) (severity : ChangeSeverity) : Nat :=
  diffs.countP (fun d => d.severity = some severity)

theorem severitiesOf_trackResult (e : Nat) (inserted : Bool) (diffs : List DriftItem)
    (severity : ChangeSeverity) : severitiesOf (trackResult e inserted diffs) severity = graded diffs severity := by
  cases severity <;> rfl

theorem answered_finished {w : Call} {e : Nat} {inserted : Bool} {diffs : List DriftItem}
    (h : w.pc = .finished (some (trackResult e inserted diffs))) (severity : ChangeSeverity) :
    answered severity w = graded diffs severity := by
  simp only [answered, h]
  exact severitiesOf_trackResult e inserted diffs severity

theorem tally_append (vs ws : List Violation) (severity : ChangeSeverity) :
    tally (vs ++ ws) severity = tally vs severity + tally ws severity :=
  List.countP_append

theorem lookup_severityCounts (violations : List Violation) (severity : ChangeSeverity) :
    ((severityCounts violations).lookup severity).getD 0 = tally violations severity := by
  have hkeys : Keyed.keys (severityCounts violations) = (violations.map Violation.severity).dedup := by
    rw [severityCounts, Keyed.keys, List.map_map]
    exact List.map_id _
  by_cases h : severity ∈ violations.map Violation.severity
  · have hmem : (severity, tally violations severity) ∈ severityCounts violations :=
      List.mem_map.mpr ⟨severity, List.mem_dedup.mpr h, rfl⟩
    rw [(Keyed.lookup_eq_some_iff_mem (hkeys ▸ List.nodup_dedup _)).mpr hmem, Option.getD_some]
  · have hnone : severity ∉ Keyed.keys (severityCounts violations) := by
      rw [hkeys, List.mem_dedup]
      exact h
    rw [(Keyed.lookup_eq_none_iff_not_mem _ _).mpr hnone, Option.getD_none, tally, eq_comm,
      List.countP_eq_zero]
    intro v hv he
    exact h (List.mem_map.mpr ⟨v, hv, of_decide_eq_true he⟩)

/-- What a request has written of its report, and what it still has to write. -/
def Drafted (w : Call) : Prop :=
  match w.pc with
  | .logViolations _ _ diffs todo =>
    ∀ severity, tally w.session.violations severity + graded todo severity = graded diffs severity
  | .commitViolations _ _ diffs => ∀ severity, tally w.session.violations severity = graded diffs severity
  | _ => w.session.violations = []

variable {ι : Type} [Fintype ι] {c : Config ι} {s s' : State ι}

structure LedgerInv (s : State ι) : Prop where
  drafts : ∀ i, Drafted (s.call i)
  total : ∀ severity, tally s.db.violations severity = ∑ i, answered severity (s.call i)

theorem ledgerInv_init : LedgerInv (init (ι := ι)) := by
  refine ⟨fun _ => rfl, fun severity => ?_⟩
  exact (Finset.sum_eq_zero fun i _ => rfl).symm

variable [DecidableEq ι]

/-- A statement adds to the ledger what the request then answers. -/
structure Posted (s : State ι) (i : ι) (db : Tables) (w : Call) : Prop where
  drafted : Drafted w
  before : ∀ severity, answered severity (s.call i) = 0
  after : ∀ severity, tally db.violations severity = tally s.db.violations severity + answered severity w

theorem graded_cons (item : DriftItem) (todo : List DriftItem) (severity : ChangeSeverity) :
    graded (item :: todo) severity = graded todo severity + if item.severity = some severity then 1 else 0 := by
  rw [graded, List.countP_cons]
  simp only [decide_eq_true_eq]
  rfl

theorem posted_change {i : ι} {db : Tables} {w : Call} (h : Drafted (s.call i))
    (hchange : Change c s i db w) : Posted s i db w := by
  cases hchange with
  | contract hpc =>
    simp only [Drafted, hpc] at h
    constructor <;> cases (c.request i).benchmark <;> simp [Drafted, answered, hpc, h]
  | begin hpc | lock hpc hfree | foundEndpoint hpc e hfind | noEndpoint hpc hfind | endpointConflict hpc e he hkey
  | insertEndpoint hpc hfree | foundSnapshot e hpc r hfind | noSnapshot e hpc hfind
  | snapshotConflict e hpc r hr he hf | insertSnapshot e hpc | noBaseline e hpc hfind
  | clearBaselines e hpc ids hids | setBaseline e hpc ids hids =>
    simp only [Drafted, hpc] at h
    constructor <;> simp [Drafted, answered, hpc, h, Call.finish, Session.closed]
  | sameBaseline e inserted hpc r hfind heq =>
    refine ⟨rfl, fun severity => ?_, fun severity => ?_⟩
    · rw [answered, hpc]
    · rw [answered_finished rfl]
      rfl
  | noBaselineKnown e hpc hfind =>
    refine ⟨rfl, fun severity => ?_, fun severity => ?_⟩
    · rw [answered, hpc]
    · rw [answered_finished rfl]
      rfl
  | commitSnapshot e inserted hpc =>
    simp only [Drafted, hpc] at h
    constructor <;> simp [Drafted, answered, hpc, h, commit, Session.closed]
  | commitBaseline e hpc =>
    simp only [Drafted, hpc] at h
    refine ⟨rfl, fun severity => ?_, fun severity => ?_⟩
    · rw [answered, hpc]
    · change tally (s.db.violations ++ (s.call i).session.violations) severity = _
      rw [h, List.append_nil, answered_finished rfl]
      rfl
  | compare e inserted hpc r diffs hfind hne hdiffs =>
    simp only [Drafted, hpc] at h
    constructor <;> simp [Drafted, answered, hpc, h, tally]
  | logged e inserted diffs hpc =>
    simp only [Drafted, hpc] at h
    refine ⟨fun severity => h severity, fun severity => ?_, fun severity => rfl⟩
    rw [answered, hpc]
  | skipItem e inserted diffs item todo hpc hseverity =>
    simp only [Drafted, hpc, graded_cons, hseverity] at h
    refine ⟨fun severity => h severity, fun severity => ?_, fun severity => rfl⟩
    rw [answered, hpc]
  | logItem e inserted diffs item todo hpc severity hseverity =>
    simp only [Drafted, hpc, graded_cons, hseverity, Option.some.injEq] at h
    refine ⟨fun sev => ?_, fun sev => ?_, fun sev => rfl⟩
    · rw [← h sev, tally_append, Nat.add_assoc, Nat.add_comm (graded todo sev)]
      simp [tally, List.countP_cons]
    · rw [answered, hpc]
  | commitViolations e inserted diffs hpc =>
    simp only [Drafted, hpc] at h
    refine ⟨rfl, fun severity => ?_, fun severity => ?_⟩
    · rw [answered, hpc]
    · change tally (s.db.violations ++ (s.call i).session.violations) severity = _
      rw [tally_append, h severity, answered_finished rfl]

theorem LedgerInv.move (h : LedgerInv s) {i : ι} {db : Tables} {w : Call} (hp : Posted s i db w) :
    LedgerInv (s.set db i w) := by
  refine ⟨fun j => ?_, fun severity => ?_⟩
  · change Drafted (Function.update s.call i w j)
    by_cases hj : j = i
    · subst hj
      rw [Function.update_self]
      exact hp.drafted
    · rw [Function.update_of_ne hj]
      exact h.drafts j
  · have hsum := sum_update_add (f := answered severity) (g := s.call) (i := i) (a := w)
      (n := answered severity w) (by rw [hp.before, Nat.zero_add])
    exact (hp.after severity).trans ((congrArg (· + _) (h.total severity)).trans hsum.symm)

theorem ledgerInv_step {a : Action ι} (h : LedgerInv s) (hs : step c s a = some s') : LedgerInv s' := by
  cases a with
  | advance i =>
    obtain ⟨db, w, hchange, rfl⟩ := change_of_advance hs
    exact h.move (posted_change (h.drafts i) hchange)
  | fail i =>
    rw [step] at hs
    split at hs
    · next hactive =>
      cases hs
      refine h.move ⟨rfl, fun severity => ?_, fun severity => rfl⟩
      rw [answered]
      split
      · next hpc =>
        rw [hpc] at hactive
        cases hactive
      · rfl
    · cases hs
  | tick =>
    cases hs
    exact ⟨h.drafts, h.total⟩

section Registrations

omit [DecidableEq ι] in
theorem endpointCount_eq (h : Inv c s) : s.db.endpoints.length =
    ((Finset.univ.filter (fun i => (s.call i).registered.isSome)).image (fun i => (c.request i).key)).card := by
  rw [← List.length_map ApiEndpoint.key, ← List.toFinset_card_of_nodup h.keys]
  congr 1
  ext key
  simp only [List.mem_toFinset, List.mem_map, Finset.mem_image, Finset.mem_filter, Finset.mem_univ, true_and,
    Option.isSome_iff_exists]
  constructor
  · rintro ⟨ep, hep, rfl⟩
    obtain ⟨i, inserted, hkey, hreg⟩ := h.endpointOwner ep hep
    exact ⟨i, ⟨_, hreg⟩, hkey⟩
  · rintro ⟨i, ⟨⟨e, inserted⟩, hreg⟩, rfl⟩
    obtain ⟨ep, hep, -, hkey⟩ := (h.registered i e inserted hreg).1
    exact ⟨ep, hep, hkey⟩

/-- The request has been told that its snapshot is a new one. -/
def wasInserted (w : Call) : Bool := w.registered.any Prod.snd

theorem wasInserted_iff (w : Call) : wasInserted w = true ↔ ∃ e, w.registered = some (e, true) := by
  rw [wasInserted]
  cases w.registered with
  | none => simp
  | some p =>
    obtain ⟨e, inserted⟩ := p
    simp

theorem snapshotCount_eq (h : Inv c s) :
    s.db.snapshots.length = (Finset.univ.filter (fun i => wasInserted (s.call i))).card := by
  let place : ι → Option Nat × String := fun i => ((s.call i).registered.map Prod.fst, (c.request i).fingerprint)
  let row : SchemaSnapshot → Option Nat × String := fun r => (some r.endpointId, r.fingerprint)
  have hrows : (s.db.snapshots.map row).Nodup := by
    refine List.Nodup.of_map (f := fun p : Option Nat × String => (p.1.getD 0, p.2)) ?_
    rw [List.map_map]
    exact h.fingerprints
  have hinj : Set.InjOn place (Finset.univ.filter (fun i => wasInserted (s.call i))) := by
    intro i hi j hj he
    simp only [Finset.coe_filter, Finset.mem_univ, true_and, Set.mem_ofPred_eq, wasInserted_iff] at hi hj
    obtain ⟨e, hi⟩ := hi
    obtain ⟨e', hj⟩ := hj
    simp only [place, hi, hj, Option.map_some, Prod.mk.injEq, Option.some.injEq] at he
    obtain ⟨rfl, hf⟩ := he
    by_contra hne
    exact h.once i j e hne hi hj hf
  rw [← Finset.card_image_of_injOn hinj, ← List.length_map row, ← List.toFinset_card_of_nodup hrows]
  congr 1
  ext p
  simp only [List.mem_toFinset, List.mem_map, Finset.mem_image, Finset.mem_filter, Finset.mem_univ, true_and,
    wasInserted_iff]
  constructor
  · rintro ⟨r, hr, rfl⟩
    obtain ⟨i, hf, hreg⟩ := h.snapshotOwner r hr
    exact ⟨i, ⟨_, hreg⟩, by simp only [place, row, hreg, hf, Option.map_some]⟩
  · rintro ⟨i, ⟨e, hreg⟩, rfl⟩
    obtain ⟨r, hr, he, hf⟩ := (h.registered i e true hreg).2
    exact ⟨r, hr, by simp only [place, row, hreg, he, hf, Option.map_some]⟩

end Registrations

/-- At every moment of any interleaving the metrics are what the requests have been answered: the
violations of a severity are those counted in the answers, the snapshots are the registrations
that were told of a new one, and the endpoints are the routes registered. -/
theorem metrics_are_answers (c : Config ι) (s : State ι) (h : Reachable (step c) always init s) :
    let metrics := getRuntimeMetrics s.db
    (∀ severity, (metrics.severityCounts.lookup severity).getD 0 = ∑ i, answered severity (s.call i)) ∧
      metrics.snapshotCount = (Finset.univ.filter (fun i => wasInserted (s.call i))).card ∧
      metrics.endpointCount = ((Finset.univ.filter (fun i => (s.call i).registered.isSome)).image
        (fun i => (c.request i).key)).card := by
  have hinv : LedgerInv s := h.invariant ledgerInv_init fun _ _ _ hi _ hs => ledgerInv_step hi hs
  refine ⟨fun severity => ?_, snapshotCount_eq (reachable_inv h), endpointCount_eq (reachable_inv h)⟩
  exact (lookup_severityCounts _ _).trans (hinv.total severity)

/-- The second request widens a field of the first: one violation, and one in its answer. -/
theorem metrics_are_answers_widened :
    let c := sampleConfig (fun i : Fin 2 => if i = 0 then intSubmission else floatSubmission)
    ∃ s : State (Fin 2), Reachable (step c) always init s ∧ severityCounts s.db.violations = [(.RISKY, 1)] ∧
      ((getRuntimeMetrics s.db).severityCounts.lookup .RISKY).getD 0 = ∑ i, answered .RISKY (s.call i) := by
  intro c
  let acts := List.replicate 12 (Action.advance (0 : Fin 2)) ++ List.replicate 11 (Action.advance 1)
  have hcounts : (run (step c) always init acts).map (fun s => severityCounts s.db.violations) =
      some [(.RISKY, 1)] := by decide +kernel
  obtain ⟨s, hs, hcounts⟩ := Option.map_eq_some_iff.mp hcounts
  have hreach : Reachable (step c) always init s := reachable_run (step c) always .start hs
  exact ⟨s, hreach, hcounts, (metrics_are_answers c s hreach).1 .RISKY⟩

end SchemaPilot.ResponseLedger
