import SchemaPilot.DraftRows
import SchemaPilot.TrackRuns

namespace SchemaPilot.TrackRuns

open Classifier Registry RegistryTxn RegistryHistory DraftRows

variable {ι : Type}

/-- An uncommitted row is the version that its call has inserted. -/
structure Draft (c : Config ι) (i : ι) (new r : SchemaVersionRecord) : Prop where
  id : r.id = new.id
  endpointId : r.endpointId = new.endpointId
  version : r.version = new.version
  previous : r.previousVersionId = new.previousVersionId
  fingerprint : r.fingerprint = c.fingerprint i
  stored : c.base.jsonb (c.schema i) = some r.canonicalSchema

/-- What a transaction has written while its call is inside the upsert. -/
def UpsertOk (c : Config ι) (i : ι) (t : Txn) : Prop :=
  match t.pc with
  | .done new true =>
    ∃ r, t.row = some r ∧ Draft c i new r ∧ r.compatibilityClassification = .SAFE
  | .committed _ _ => False
  | _ => t.row = none

/-- The places of an upsert whose transaction has inserted nothing. -/
def NothingInserted : RegistryTxn.Pc → Prop
  | .done _ true | .committed _ _ => False
  | _ => True

theorem upsertOk_nothing {c : Config ι} {i : ι} {t : Txn} (hrow : t.row = none)
    (hpc : NothingInserted t.pc) : UpsertOk c i t := by
  rw [UpsertOk]
  split
  · next h =>
    rw [h] at hpc
    exact hpc.elim
  · next h =>
    rw [h] at hpc
    exact hpc.elim
  · exact hrow

section Advance

variable [DecidableEq ι]

theorem txn_set_self (registry : RegistryTxn.State ι) (i : ι) (t : Txn) :
    (registry.set i t).txn i = t := by
  simp [RegistryTxn.State.set]

theorem txn_set_of_ne (registry : RegistryTxn.State ι) {i j : ι} (t : Txn) (h : j ≠ i) :
    (registry.set i t).txn j = registry.txn j := by
  simp [RegistryTxn.State.set, h]

/-- A statement of an upsert changes no committed version, and nothing of other transactions;
a row it inserts has the next id. -/
structure Moved (c : Config ι) (s s' : RegistryTxn.State ι) (i : ι) : Prop where
  versions : s'.db.versions = s.db.versions
  others : ∀ j, j ≠ i → s'.txn j = s.txn j
  upsert : UpsertOk c i (s'.txn i)
  row : (s'.txn i).row = none ∧ s.db.nextId ≤ s'.db.nextId ∨
    ∃ r, (s'.txn i).row = some r ∧ r.id = s.db.nextId ∧ s'.db.nextId = s.db.nextId + 1

theorem Moved.quiet {c : Config ι} {s : RegistryTxn.State ι} {i : ι} {t : Txn} (db : Db)
    (hv : db.versions = s.db.versions) (hn : s.db.nextId ≤ db.nextId) (hrow : t.row = none)
    (hpc : NothingInserted t.pc) : Moved c s ({ s with db }.set i t) i := by
  refine ⟨hv, fun j hj => txn_set_of_ne _ t hj, ?_, .inl ⟨?_, hn⟩⟩
  · rw [txn_set_self]
    exact upsertOk_nothing hrow hpc
  · rw [txn_set_self, hrow]

theorem Moved.goto {c : Config ι} {s : RegistryTxn.State ι} {i : ι} {pc : RegistryTxn.Pc}
    (hrow : (s.txn i).row = none) (hpc : NothingInserted pc) : Moved c s (s.goto i pc) i :=
  Moved.quiet s.db rfl (le_refl _) hrow hpc

theorem conflicts_relabel (id : Nat) (classification : Compatibility) (r v : SchemaVersionRecord) :
    conflicts (relabel id classification r) v = conflicts r v := by
  rw [relabel]
  split <;> rfl

theorem relabel_id (id : Nat) (classification : Compatibility) (r : SchemaVersionRecord) :
    (relabel id classification r).id = r.id := by
  rw [relabel]
  split <;> rfl

theorem inv_setClassification {registry : RegistryTxn.State ι} (h : Inv registry) {i : ι}
    {new : SchemaVersionRecord} {b : Bool} (hpc : (registry.txn i).pc = .done new b) (id : Nat)
    (classification : Compatibility) : Inv (setClassification registry i id classification) := by
  have ht := h.txn i
  rw [TxnOk] at ht
  simp only [hpc] at ht
  have hrow : ∀ r, (registry.txn i).row.map (relabel id classification) = some r →
      ∃ r₀, (registry.txn i).row = some r₀ ∧ r = relabel id classification r₀ := by
    intro r hr
    obtain ⟨r₀, hr₀, he⟩ := Option.map_eq_some_iff.mp hr
    exact ⟨r₀, hr₀, he.symm⟩
  refine h.update registry.db rfl ?_ ?_ ?_
  · rw [TxnOk]
    simp only [hpc]
    refine ht.imp (fun hc => ⟨by rw [hc.1]; rfl, hc.2⟩) ?_
    rintro ⟨r, current, hw⟩
    refine ⟨relabel id classification r, current, ?_⟩
    have hcols : (relabel id classification r).endpointId = r.endpointId ∧
        (relabel id classification r).version = r.version ∧
        (relabel id classification r).previousVersionId = r.previousVersionId ∧
        (relabel id classification r).isCurrent = r.isCurrent := by
      rw [relabel]
      split <;> exact ⟨rfl, rfl, rfl, rfl⟩
    obtain ⟨he, hv, hp, hc⟩ := hcols
    exact ⟨by rw [hw.row]; rfl, he ▸ hw.only, he ▸ hw.read, he ▸ hw.covered, hv ▸ hw.version,
      hp ▸ hw.previous, hc ▸ hw.isCurrent⟩
  · intro r hr v hv
    obtain ⟨r₀, hr₀, rfl⟩ := hrow r hr
    rw [conflicts_relabel]
    exact h.free i r₀ hr₀ v hv
  · intro j r r' hj hr hr'
    obtain ⟨r₀, hr₀, rfl⟩ := hrow r hr
    rw [conflicts_relabel]
    exact h.apart i j r₀ r' (Ne.symm hj) hr₀ hr'

variable [Fintype ι]

theorem moved_insertEndpoint {c : Config ι} {s s' : RegistryTxn.State ι} {i : ι}
    (hrow : (s.txn i).row = none) (hs : insertEndpoint c.registry s i = some s') :
    Moved c s s' i := by
  rw [insertEndpoint] at hs
  dsimp only at hs
  split_ifs at hs <;> cases hs
  · exact .goto hrow trivial
  · exact .quiet _ rfl (Nat.le_succ _) hrow trivial

theorem moved_insertRow {c : Config ι} {s s' : RegistryTxn.State ι} {i : ι} {e : Endpoint}
    {current : Option SchemaVersionRecord}
    (hs : insertRow c.registry s i e current = some s') : Moved c s s' i := by
  rw [insertRow] at hs
  split at hs
  · cases hs
    exact .quiet s.db rfl (le_refl _) rfl trivial
  · next stored hstored =>
    dsimp only at hs
    split_ifs at hs <;> cases hs
    · exact .quiet s.db rfl (le_refl _) rfl trivial
    · refine ⟨rfl, fun j hj => txn_set_of_ne _ _ hj, ?_, .inr ?_⟩
      · rw [txn_set_self]
        exact ⟨_, rfl, ⟨rfl, rfl, rfl, rfl, rfl, hstored⟩, rfl⟩
      · rw [txn_set_self]
        exact ⟨_, rfl, rfl, rfl⟩

theorem moved_advance {c : Config ι} {s s' : RegistryTxn.State ι} {i : ι} (h : Inv s)
    (hdone : ∀ new b, (s.txn i).pc ≠ .done new b) (hs : advance c.registry s i = some s') :
    Moved c s s' i := by
  have ht := h.txn i
  rw [TxnOk] at ht
  rw [advance] at hs
  cases hpc : (s.txn i).pc with
  | selectEndpoint =>
    simp only [hpc] at hs ht
    split at hs <;> cases hs <;>
      exact .goto ht.1 trivial
  | insertEndpoint =>
    simp only [hpc] at hs ht
    exact moved_insertEndpoint ht.1 hs
  | reselectEndpoint =>
    simp only [hpc] at hs ht
    split at hs <;> cases hs
    · exact .goto ht.1 trivial
    · exact .quiet s.db rfl (le_refl _) rfl trivial
  | selectFingerprint e =>
    simp only [hpc] at hs ht
    split at hs <;> cases hs <;>
      exact .goto ht.1 trivial
  | lock e =>
    simp only [hpc] at hs ht
    split at hs
    · cases hs
    · cases hs
      exact .quiet s.db rfl (le_refl _) ht.1 trivial
  | selectCurrent e =>
    simp only [hpc] at hs ht
    cases hs
    exact .goto ht.1 trivial
  | recheck e current =>
    simp only [hpc] at hs ht
    split at hs
    · cases hs
      exact .goto ht.1.1 trivial
    · cases current with
      | some cur =>
        cases hs
        exact .goto ht.1.1 trivial
      | none =>
        cases hs
        exact .goto ht.1.1 trivial
  | clear e current =>
    simp only [hpc] at hs ht
    cases hs
    exact .goto ht.1.1 trivial
  | clearing e current todo =>
    simp only [hpc] at hs ht
    cases todo with
    | nil =>
      cases hs
      exact .goto ht.1 trivial
    | cons v todo =>
      dsimp only at hs
      split at hs
      · cases hs
      · cases hs
        exact .quiet s.db rfl (le_refl _) ht.1 trivial
  | insert e current =>
    simp only [hpc] at hs
    exact moved_insertRow hs
  | done record inserted => exact absurd hpc (hdone record inserted)
  | committed record inserted =>
    simp only [hpc] at hs
    cases hs
  | aborted u =>
    simp only [hpc] at hs
    cases hs

theorem commitSession_done {c : Config ι} {registry : RegistryTxn.State ι} {i : ι}
    {record : SchemaVersionRecord} {b : Bool} (hpc : (registry.txn i).pc = .done record b) :
    commitSession c registry i =
      { registry with db := RegistryTxn.commit registry.db (registry.txn i) }.set i
        (.finish (.committed record b)) := by
  simp only [commitSession, advance, hpc, Option.getD_some]

theorem commitSession_committed {c : Config ι} {registry : RegistryTxn.State ι} {i : ι}
    {record : SchemaVersionRecord} {b : Bool} (hpc : (registry.txn i).pc = .committed record b) :
    commitSession c registry i = registry := by
  simp only [commitSession, advance, hpc, Option.getD_none]

theorem inv_commitSession {c : Config ι} {registry : RegistryTxn.State ι} (h : Inv registry)
    (i : ι) : Inv (commitSession c registry i) := by
  rw [commitSession]
  cases hs : advance c.registry registry i with
  | none => exact h
  | some registry' => exact inv_advance h hs

end Advance

/-- Two states of one row, which differ at most in `is_current`. -/
def Same (r r' : SchemaVersionRecord) : Prop := clearCurrent r' = clearCurrent r

/-- A column that clearing does not touch is the same in both. -/
theorem Same.column {β : Type} {r r' : SchemaVersionRecord} (h : Same r r')
    (f : SchemaVersionRecord → β) (hf : ∀ r, f (clearCurrent r) = f r) : f r' = f r := by
  rw [← hf r', ← hf r, show clearCurrent r' = clearCurrent r from h]

/-- No row is lost, and none changes but in `is_current`. -/
def Keeps (old new : List SchemaVersionRecord) : Prop := ∀ r ∈ old, ∃ r' ∈ new, Same r r'

theorem Keeps.refl (versions : List SchemaVersionRecord) : Keeps versions versions :=
  fun r hr => ⟨r, hr, rfl⟩

theorem Keeps.trans {versions versions' versions'' : List SchemaVersionRecord}
    (h : Keeps versions versions') (h' : Keeps versions' versions'') : Keeps versions versions'' := by
  intro r hr
  obtain ⟨r', hr', hs⟩ := h r hr
  obtain ⟨r'', hr'', hs'⟩ := h' r' hr'
  exact ⟨r'', hr'', Eq.trans hs' hs⟩

theorem same_applyClears (cleared : List (Nat × Nat)) (r : SchemaVersionRecord) :
    Same r (if (r.endpointId, r.version) ∈ cleared then clearCurrent r else r) := by
  split <;> rfl

theorem keeps_commit (db : Db) (t : Txn) : Keeps db.versions (commit db t).versions := by
  intro r hr
  exact ⟨_, List.mem_append_left _ (List.mem_map_of_mem hr), same_applyClears t.cleared r⟩

theorem mem_commit {db : Db} {t : Txn} {r : SchemaVersionRecord} (h : r ∈ (commit db t).versions) :
    (∃ r₀ ∈ db.versions, Same r₀ r) ∨ t.row = some r := by
  obtain h | h := List.mem_append.mp h
  · obtain ⟨r₀, hr₀, rfl⟩ := List.mem_map.mp h
    exact .inl ⟨r₀, hr₀, same_applyClears t.cleared r₀⟩
  · exact .inr (Option.mem_toList.mp h)

section Drafts

/-- Version rows, committed or not, have ids of their own. -/
abbrev Drafts (registry : RegistryTxn.State ι) : Prop :=
  DraftsOk SchemaVersionRecord.id registry.db.versions (fun i => (registry.txn i).row)
    registry.db.nextId

variable [DecidableEq ι] {registry registry' : RegistryTxn.State ι} {i : ι}

theorem rows_eq_update (registry registry' : RegistryTxn.State ι)
    (h : ∀ j, j ≠ i → registry'.txn j = registry.txn j) :
    (fun j => (registry'.txn j).row) =
      Function.update (fun j => (registry.txn j).row) i (registry'.txn i).row := by
  funext j
  by_cases hj : j = i
  · subst hj
    simp
  · rw [Function.update_of_ne hj, h j hj]

theorem Drafts.set (h : Drafts registry) {t : Txn} (ht : t.row = none) :
    Drafts (registry.set i t) := by
  have hrows := rows_eq_update registry (registry.set i t) fun j hj => txn_set_of_ne registry t hj
  rw [txn_set_self, ht] at hrows
  rw [Drafts]
  rw [hrows]
  exact h.drop i

theorem Drafts.moved {c : Config ι} (h : Drafts registry) (hm : Moved c registry registry' i) :
    Drafts registry' := by
  have hrows := rows_eq_update registry registry' hm.others
  rw [Drafts]
  rw [hrows, hm.versions]
  obtain ⟨hrow, hle⟩ | ⟨r, hrow, hid, hnext⟩ := hm.row
  · rw [hrow]
    exact (h.drop i).mono hle
  · rw [hrow, hnext]
    exact h.insert i hid

theorem Drafts.setClassification (h : Drafts registry) (id : Nat) (classification : Compatibility) :
    Drafts (setClassification registry i id classification) := by
  have hrows := rows_eq_update registry (TrackRuns.setClassification registry i id classification)
    fun j hj => txn_set_of_ne registry _ hj
  rw [TrackRuns.setClassification, txn_set_self] at hrows
  unfold Drafts TrackRuns.setClassification
  rw [hrows]
  exact h.revise i (relabel_id id classification)

theorem Drafts.commit (h : Drafts registry) (pc : RegistryTxn.Pc) :
    Drafts ({ registry with db := RegistryTxn.commit registry.db (registry.txn i) }.set i
      (.finish pc)) := by
  have hrows := rows_eq_update registry
    ({ registry with db := RegistryTxn.commit registry.db (registry.txn i) }.set i (.finish pc))
    fun j hj => txn_set_of_ne _ _ hj
  rw [txn_set_self] at hrows
  rw [Drafts]
  rw [hrows]
  have hclear : ∀ r, (if (r.endpointId, r.version) ∈ (registry.txn i).cleared then clearCurrent r
      else r).id = r.id := by
    intro r
    split <;> rfl
  exact (h.map hclear).commit i

end Drafts

end SchemaPilot.TrackRuns
