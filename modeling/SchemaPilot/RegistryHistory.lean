import SchemaPilot.RegistryTxn

namespace SchemaPilot.RegistryHistory

open Classifier Registry Runs RegistryTxn

/-- What was read as the current version is still there, as far as its columns never change. -/
def Read (versions : List SchemaVersionRecord) (e : Nat) (current : Option SchemaVersionRecord) : Prop :=
  ∀ c, current = some c → ∃ r ∈ versionsOf versions e, r.version = c.version ∧ r.id = c.id

def Clean (t : Txn) : Prop := t.row = none ∧ t.cleared = []

def ClearsOnly (t : Txn) (e : Nat) : Prop := ∀ p ∈ t.cleared, p.1 = e

/-- Every version up to the one that was read is cleared, or still to be cleared. -/
def Covered (versions : List SchemaVersionRecord) (t : Txn) (e : Nat)
    (current : Option SchemaVersionRecord) (todo : List Nat) : Prop :=
  ∀ r ∈ versionsOf versions e, r.version < nextVersion current →
    r.version ∈ todo ∨ (e, r.version) ∈ t.cleared

/-- An uncommitted version row, and what its transaction did before it. -/
structure Wrote (versions : List SchemaVersionRecord) (t : Txn) (r : SchemaVersionRecord)
    (current : Option SchemaVersionRecord) : Prop where
  row : t.row = some r
  only : ClearsOnly t r.endpointId
  read : Read versions r.endpointId current
  covered : Covered versions t r.endpointId current []
  version : r.version = nextVersion current
  previous : r.previousVersionId = previousId current
  isCurrent : r.isCurrent = true

/-- What a transaction knows and has written at each statement. -/
def TxnOk (versions : List SchemaVersionRecord) (t : Txn) : Prop :=
  match t.pc with
  | .recheck e current => Clean t ∧ Read versions e.id current
  | .clear e current => Clean t ∧ Read versions e.id (some current)
  | .clearing e current todo =>
    t.row = none ∧ ClearsOnly t e.id ∧ Read versions e.id (some current) ∧
      Covered versions t e.id (some current) todo
  | .insert e current =>
    t.row = none ∧ ClearsOnly t e.id ∧ Read versions e.id current ∧
      Covered versions t e.id current []
  | .done _ _ => Clean t ∨ ∃ r current, Wrote versions t r current
  | _ => Clean t

/-- Rows are never lost, and new ones come after all that were there. -/
structure Grows (old new : List SchemaVersionRecord) : Prop where
  keeps : ∀ e, ∀ r ∈ versionsOf old e, ∃ r' ∈ versionsOf new e, r'.version = r.version ∧ r'.id = r.id
  news : ∀ e, ∀ r' ∈ versionsOf new e,
    (∃ r ∈ versionsOf old e, r.version = r'.version) ∨ (versionsOf old e).length < r'.version

theorem Read.grow {old new : List SchemaVersionRecord} (hg : Grows old new) {e : Nat}
    {current : Option SchemaVersionRecord} (h : Read old e current) : Read new e current := by
  intro c hc
  obtain ⟨r, hr, hv, hid⟩ := h c hc
  obtain ⟨r', hr', hv', hid'⟩ := hg.keeps e r hr
  exact ⟨r', hr', hv'.trans hv, hid'.trans hid⟩

theorem Read.nextVersion_le {versions : List SchemaVersionRecord} {e : Nat}
    (hist : History (versionsOf versions e)) {current : Option SchemaVersionRecord}
    (h : Read versions e current) : nextVersion current ≤ (versionsOf versions e).length + 1 := by
  cases current with
  | none => simp [nextVersion]
  | some c =>
    obtain ⟨r, hr, hv, -⟩ := h c rfl
    have hle := (hist.version_le hr).2
    simp only [nextVersion]
    omega

theorem Covered.grow {old new : List SchemaVersionRecord} (hg : Grows old new) {e : Nat}
    (hist : History (versionsOf old e)) {current : Option SchemaVersionRecord}
    (hread : Read old e current) {t : Txn} {todo : List Nat} (h : Covered old t e current todo) :
    Covered new t e current todo := by
  intro r' hr' hlt
  have hle := hread.nextVersion_le hist
  obtain ⟨r, hr, hv⟩ | hnew := hg.news e r' hr'
  · rw [← hv]
    exact h r hr (by omega)
  · omega

/-- What a transaction knows survives the commits of others. -/
theorem txnOk_grow {old new : List SchemaVersionRecord} (hist : ∀ e, History (versionsOf old e))
    (hg : Grows old new) {t : Txn} (h : TxnOk old t) : TxnOk new t := by
  unfold TxnOk at h ⊢
  cases hpc : t.pc with
  | recheck e current =>
    simp only [hpc] at h
    exact ⟨h.1, h.2.grow hg⟩
  | clear e current =>
    simp only [hpc] at h
    exact ⟨h.1, h.2.grow hg⟩
  | clearing e current todo =>
    simp only [hpc] at h
    obtain ⟨hrow, honly, hread, hcov⟩ := h
    exact ⟨hrow, honly, hread.grow hg, hcov.grow hg (hist e.id) hread⟩
  | insert e current =>
    simp only [hpc] at h
    obtain ⟨hrow, honly, hread, hcov⟩ := h
    exact ⟨hrow, honly, hread.grow hg, hcov.grow hg (hist e.id) hread⟩
  | done record inserted =>
    simp only [hpc] at h
    apply h.imp_right
    rintro ⟨r, current, hw⟩
    exact ⟨r, current, { hw with
      read := hw.read.grow hg, covered := hw.covered.grow hg (hist _) hw.read }⟩
  | selectEndpoint | insertEndpoint | reselectEndpoint | selectFingerprint _ | lock _
  | selectCurrent _ | committed _ _ | aborted _ =>
    simp only [hpc] at h
    exact h

section Commit

variable {db : Db} {t : Txn} {r : SchemaVersionRecord} {current : Option SchemaVersionRecord}

/-- A version number that nobody has committed is the next one: whoever read a version that
is no longer the last collides. -/
theorem Wrote.next (hist : ∀ e, History (versionsOf db.versions e))
    (h : Wrote db.versions t r current)
    (hfree : ∀ s ∈ versionsOf db.versions r.endpointId, s.version ≠ r.version) :
    r.version = (versionsOf db.versions r.endpointId).length + 1 ∧
      r.previousVersionId = previousId (versionsOf db.versions r.endpointId).getLast? := by
  have hist := hist r.endpointId
  have hle := h.read.nextVersion_le hist
  have hpos : 1 ≤ nextVersion current := by cases current <;> simp [nextVersion]
  have hnext : nextVersion current = (versionsOf db.versions r.endpointId).length + 1 := by
    by_contra hne
    obtain ⟨s, hs, hv⟩ := hist.exists_version hpos (by omega)
    exact hfree s hs (hv.trans h.version.symm)
  refine ⟨h.version.trans hnext, ?_⟩
  rw [h.previous]
  cases current with
  | none =>
    have hnil : versionsOf db.versions r.endpointId = [] := by
      apply List.length_eq_zero_iff.mp
      simp only [nextVersion] at hnext
      omega
    rw [hnil]
    rfl
  | some c =>
    obtain ⟨s, hs, hv, hid⟩ := h.read c rfl
    have hlast : s.version = (versionsOf db.versions r.endpointId).length := by
      simp only [nextVersion] at hnext
      omega
    rw [hist.getLast? hs hlast]
    simp only [previousId, Option.map_some, hid]

theorem versionsOf_applyClears (cleared : List (Nat × Nat)) (versions : List SchemaVersionRecord)
    (e : Nat) :
    versionsOf (applyClears cleared versions) e = applyClears cleared (versionsOf versions e) :=
  versionsOf_map (by intro r; split <;> rfl) versions e

theorem applyClears_all {cleared : List (Nat × Nat)} {rows : List SchemaVersionRecord}
    (h : ∀ r ∈ rows, (r.endpointId, r.version) ∈ cleared) :
    applyClears cleared rows = rows.map clearCurrent :=
  List.map_congr_left fun r hr => if_pos (h r hr)

theorem applyClears_none {cleared : List (Nat × Nat)} {rows : List SchemaVersionRecord}
    (h : ∀ r ∈ rows, (r.endpointId, r.version) ∉ cleared) : applyClears cleared rows = rows :=
  (List.map_congr_left fun r hr => if_neg (h r hr)).trans (List.map_id' rows)

theorem commit_clean (h : Clean t) : (commit db t).versions = db.versions := by
  simp only [commit, h.1, h.2, Option.toList_none, List.append_nil]
  exact applyClears_none (by simp)

/-- What committing a new row does to the versions of each endpoint. -/
theorem versionsOf_commit (hist : ∀ e, History (versionsOf db.versions e))
    (h : Wrote db.versions t r current)
    (hfree : ∀ s ∈ versionsOf db.versions r.endpointId, s.version ≠ r.version) (e : Nat) :
    versionsOf (commit db t).versions e =
      if e = r.endpointId then (versionsOf db.versions e).map clearCurrent ++ [r]
      else versionsOf db.versions e := by
  simp only [commit, h.row, Option.toList_some, versionsOf_append, versionsOf_applyClears]
  split
  · next he =>
    subst he
    rw [applyClears_all]
    · simp [versionsOf]
    · intro s hs
      have hv := (hist r.endpointId).version_le hs
      have hnext := (h.next hist hfree).1
      rw [(mem_versionsOf.mp hs).2]
      exact (h.covered s hs (by rw [← h.version]; omega)).resolve_left List.not_mem_nil
  · next he =>
    rw [applyClears_none]
    · simp [versionsOf, Ne.symm he]
    · intro s hs hm
      exact he ((mem_versionsOf.mp hs).2.symm.trans (h.only _ hm))

theorem history_commit (hist : ∀ e, History (versionsOf db.versions e))
    (h : Wrote db.versions t r current)
    (hfree : ∀ s ∈ versionsOf db.versions r.endpointId, conflicts r s = false) (e : Nat) :
    History (versionsOf (commit db t).versions e) := by
  have hne : ∀ s ∈ versionsOf db.versions r.endpointId,
      s.version ≠ r.version ∧ s.fingerprint ≠ r.fingerprint := by
    intro s hs
    have hc := hfree s hs
    simp only [conflicts, (mem_versionsOf.mp hs).2, decide_true, Bool.true_and,
      Bool.or_eq_false_iff, decide_eq_false_iff_not] at hc
    exact ⟨Ne.symm hc.1, Ne.symm hc.2⟩
  have hfree' := fun s hs => (hne s hs).1
  rw [versionsOf_commit hist h hfree']
  split
  · next he =>
    subst he
    obtain ⟨hv, hp⟩ := h.next hist hfree'
    exact (hist r.endpointId).concat hv hp h.isCurrent fun s hs => (hne s hs).2
  · exact hist e

theorem grows_commit (hist : ∀ e, History (versionsOf db.versions e))
    (h : Wrote db.versions t r current)
    (hfree : ∀ s ∈ versionsOf db.versions r.endpointId, s.version ≠ r.version) :
    Grows db.versions (commit db t).versions := by
  have hcommit := versionsOf_commit hist h hfree
  refine ⟨fun e s hs => ?_, fun e s hs => ?_⟩
  · rw [hcommit]
    split
    · exact ⟨clearCurrent s, List.mem_append_left _ (List.mem_map_of_mem hs), rfl, rfl⟩
    · exact ⟨s, hs, rfl, rfl⟩
  · rw [hcommit] at hs
    split at hs
    · next he =>
      obtain hs | hs := List.mem_append.mp hs
      · obtain ⟨s', hs', rfl⟩ := List.mem_map.mp hs
        exact .inl ⟨s', hs', rfl⟩
      · rw [List.mem_singleton.mp hs, he]
        have := (h.next hist hfree).1
        exact .inr (by omega)
    · exact .inl ⟨s, hs, rfl⟩

end Commit

section Invariant

variable {ι : Type}

structure Inv (s : State ι) : Prop where
  history : ∀ e, History (versionsOf s.db.versions e)
  txn : ∀ i, TxnOk s.db.versions (s.txn i)
  free : ∀ i r, (s.txn i).row = some r → ∀ v ∈ s.db.versions, conflicts r v = false
  apart : ∀ i j r r', i ≠ j → (s.txn i).row = some r → (s.txn j).row = some r' →
    conflicts r r' = false

theorem conflicts_comm (r s : SchemaVersionRecord) : conflicts r s = conflicts s r := by
  simp only [conflicts, eq_comm]

/-- No committed row has the version of an uncommitted one. -/
theorem Inv.free_version {s : State ι} (h : Inv s) {i : ι} {r : SchemaVersionRecord}
    (hr : (s.txn i).row = some r) :
    ∀ v ∈ versionsOf s.db.versions r.endpointId, v.version ≠ r.version := by
  intro v hv he
  obtain ⟨hm, hep⟩ := mem_versionsOf.mp hv
  have hc := h.free i r hr v hm
  rw [conflicts_iff.mpr ⟨hep.symm, .inl he.symm⟩] at hc
  cases hc

theorem inv_init : Inv (init : State ι) :=
  ⟨fun _ => history_nil, fun _ => ⟨rfl, rfl⟩, by simp [init], by simp [init]⟩

variable [DecidableEq ι]

/-- A step of one transaction that commits nothing. -/
theorem Inv.update {s : State ι} (h : Inv s) (db : Db) (hv : db.versions = s.db.versions) {i : ι}
    {t : Txn} (ht : TxnOk s.db.versions t)
    (hfree : ∀ r, t.row = some r → ∀ v ∈ s.db.versions, conflicts r v = false)
    (hapart : ∀ j r r', j ≠ i → t.row = some r → (s.txn j).row = some r' → conflicts r r' = false) :
    Inv ({ s with db }.set i t) := by
  have htxn : ∀ j, ({ s with db }.set i t).txn j = if j = i then t else s.txn j :=
    fun j => Function.update_apply s.txn i t j
  refine ⟨fun e => ?_, fun j => ?_, fun j r hr v hm => ?_, fun j k r r' hne hr hr' => ?_⟩
  · exact hv ▸ h.history e
  · change TxnOk db.versions _
    rw [htxn, hv]
    split
    · exact ht
    · exact h.txn j
  · change v ∈ db.versions at hm
    rw [hv] at hm
    rw [htxn] at hr
    split at hr
    · exact hfree r hr v hm
    · exact h.free j r hr v hm
  · rw [htxn] at hr hr'
    split at hr <;> split at hr'
    · next hj hk => exact absurd (hj.trans hk.symm) hne
    · next hj hk => exact hapart k r r' hk hr hr'
    · next hj hk =>
      rw [conflicts_comm]
      exact hapart j r' r hj hr' hr
    · exact h.apart j k r r' hne hr hr'

theorem Inv.quiet {s : State ι} (h : Inv s) {i : ι} {t : Txn} (ht : TxnOk s.db.versions t)
    (hrow : t.row = none) : Inv (s.set i t) :=
  h.update s.db rfl ht (by simp [hrow]) (by simp [hrow])

theorem Inv.finish {s : State ι} (h : Inv s) (i : ι) (u : Bool) :
    Inv (s.set i (.finish (.aborted u))) :=
  h.quiet ⟨rfl, rfl⟩ rfl

/-- A commit keeps every endpoint's history, whatever the others have read or written. -/
theorem inv_commit {s : State ι} (h : Inv s) {i : ι} {record : SchemaVersionRecord} {inserted : Bool}
    (hpc : (s.txn i).pc = .done record inserted) :
    Inv ({ s with db := commit s.db (s.txn i) }.set i (.finish (.committed record inserted))) := by
  have ht := h.txn i
  rw [TxnOk] at ht
  simp only [hpc] at ht
  have htxn : ∀ j, ({ s with db := commit s.db (s.txn i) }.set i
      (.finish (.committed record inserted))).txn j =
        if j = i then .finish (.committed record inserted) else s.txn j :=
    fun j => Function.update_apply s.txn i _ j
  obtain hclean | ⟨r, current, hw⟩ := ht
  · exact h.update _ (commit_clean hclean) ⟨rfl, rfl⟩ (by simp [Txn.finish]) (by simp [Txn.finish])
  · have hfree : ∀ v ∈ versionsOf s.db.versions r.endpointId, conflicts r v = false :=
      fun v hv => h.free i r hw.row v (mem_versionsOf.mp hv).1
    have hversion := h.free_version hw.row
    have hg := grows_commit h.history hw hversion
    refine ⟨history_commit h.history hw hfree, fun j => ?_, fun j r' hr' v hv => ?_,
      fun j k r₁ r₂ hne h1 h2 => ?_⟩
    · rw [htxn]
      split
      · exact ⟨rfl, rfl⟩
      · exact txnOk_grow h.history hg (h.txn j)
    · rw [htxn] at hr'
      split at hr'
      · cases hr'
      · next hj =>
        change v ∈ (commit s.db (s.txn i)).versions at hv
        simp only [commit, hw.row, Option.toList_some, List.mem_append, List.mem_singleton] at hv
        obtain hv | rfl := hv
        · obtain ⟨w, hm, rfl⟩ := List.mem_map.mp hv
          have hc := h.free j r' hr' w hm
          split <;> exact hc
        · exact h.apart j i r' v hj hr' hw.row
    · rw [htxn] at h1 h2
      split at h1
      · cases h1
      · split at h2
        · cases h2
        · exact h.apart j k r₁ r₂ hne h1 h2

variable [Fintype ι]

theorem inv_insertEndpoint {c : Config ι} {s s' : State ι} {i : ι} (h : Inv s)
    (ht : Clean (s.txn i)) (hs : insertEndpoint c s i = some s') : Inv s' := by
  rw [insertEndpoint] at hs
  dsimp only at hs
  split_ifs at hs <;> cases hs
  · exact h.quiet ht ht.1
  · exact h.update { s.db with nextId := s.db.nextId + 1 } rfl ht (by simp [ht.1])
      (by simp [ht.1])

theorem inv_insertRow {c : Config ι} {s s' : State ι} {i : ι} (h : Inv s) {e : Endpoint}
    {current : Option SchemaVersionRecord} (hpc : (s.txn i).pc = .insert e current)
    (hs : insertRow c s i e current = some s') : Inv s' := by
  have ht := h.txn i
  rw [TxnOk] at ht
  simp only [hpc] at ht
  obtain ⟨-, honly, hread, hcov⟩ := ht
  rw [insertRow] at hs
  dsimp only at hs
  split at hs
  · cases hs
    exact h.finish i false
  · next stored _ =>
    split_ifs at hs with hany hwait <;> cases hs
    · exact h.finish i true
    · apply h.update
      · rfl
      · exact .inr ⟨_, current, rfl, honly, hread, hcov, rfl, rfl, rfl⟩
      · intro r hr v hv
        cases hr
        exact Bool.eq_false_iff.mpr fun hc => hany (List.any_eq_true.mpr ⟨v, hv, hc⟩)
      · intro j r r' hj hr hr'
        cases hr
        exact Bool.eq_false_iff.mpr fun hc => hwait ⟨j, hj, by rw [hr', Option.any_some, hc]⟩

theorem inv_advance {c : Config ι} {s s' : State ι} {i : ι} (h : Inv s)
    (hs : advance c s i = some s') : Inv s' := by
  have ht := h.txn i
  rw [TxnOk] at ht
  rw [advance] at hs
  cases hpc : (s.txn i).pc with
  | selectEndpoint =>
    simp only [hpc] at hs ht
    split at hs <;> cases hs <;> exact h.quiet ht ht.1
  | insertEndpoint =>
    simp only [hpc] at hs ht
    exact inv_insertEndpoint h ht hs
  | reselectEndpoint =>
    simp only [hpc] at hs ht
    split at hs <;> cases hs
    · exact h.quiet ht ht.1
    · exact h.finish i false
  | selectFingerprint e =>
    simp only [hpc] at hs ht
    split at hs <;> cases hs
    · exact h.quiet (.inl ht) ht.1
    · exact h.quiet ht ht.1
  | lock e =>
    simp only [hpc] at hs ht
    split at hs
    · cases hs
    · cases hs
      exact h.quiet ht ht.1
  | selectCurrent e =>
    simp only [hpc] at hs ht
    cases hs
    refine h.quiet ⟨ht, fun cur hc => ?_⟩ ht.1
    rw [getCurrentSchema, (h.history e.id).latest_current] at hc
    exact ⟨cur, List.mem_of_getLast? hc, rfl, rfl⟩
  | recheck e current =>
    simp only [hpc] at hs ht
    obtain ⟨hclean, hread⟩ := ht
    split at hs
    · cases hs
      exact h.quiet (.inl hclean) hclean.1
    · cases current with
      | some cur =>
        cases hs
        exact h.quiet ⟨hclean, hread⟩ hclean.1
      | none =>
        cases hs
        refine h.quiet ⟨hclean.1, ?_, hread, ?_⟩ hclean.1
        · simp [ClearsOnly, hclean.2]
        · intro r hr hlt
          have := ((h.history e.id).version_le hr).1
          simp only [nextVersion] at hlt
          omega
  | clear e current =>
    simp only [hpc] at hs ht
    obtain ⟨hclean, hread⟩ := ht
    cases hs
    refine h.quiet ⟨hclean.1, ?_, hread, fun r hr _ => .inl (List.mem_map_of_mem hr)⟩ hclean.1
    simp [ClearsOnly, hclean.2]
  | clearing e current todo =>
    simp only [hpc] at hs ht
    obtain ⟨hrow, honly, hread, hcov⟩ := ht
    cases todo with
    | nil =>
      cases hs
      exact h.quiet ⟨hrow, honly, hread, hcov⟩ hrow
    | cons v todo =>
      dsimp only at hs
      split at hs
      · cases hs
      · cases hs
        refine h.quiet ⟨hrow, ?_, hread, fun r hr hlt => ?_⟩ hrow
        · exact List.forall_mem_cons.mpr ⟨rfl, honly⟩
        · obtain hm | hm := hcov r hr hlt
          · obtain he | hm := List.mem_cons.mp hm
            · exact .inr (List.mem_cons.mpr (.inl (by rw [he])))
            · exact .inl hm
          · exact .inr (List.mem_cons_of_mem _ hm)
  | insert e current =>
    simp only [hpc] at hs
    exact inv_insertRow h hpc hs
  | done record inserted =>
    simp only [hpc] at hs
    cases hs
    exact inv_commit h hpc
  | committed record inserted =>
    simp only [hpc] at hs
    cases hs
  | aborted u =>
    simp only [hpc] at hs
    cases hs

theorem inv_step {c : Config ι} {s s' : State ι} {a : Action ι} (h : Inv s)
    (hs : step c s a = some s') : Inv s' := by
  cases a with
  | advance i => exact inv_advance h hs
  | abort i =>
    rw [step] at hs
    split at hs
    · cases hs
      exact h.finish i false
    · cases hs

/-- The committed versions of one endpoint, as the registry promises them. -/
structure Numbered (rows : List SchemaVersionRecord) : Prop where
  versions : ∀ v, (∃ r ∈ rows, r.version = v) ↔ 1 ≤ v ∧ v ≤ rows.length
  distinct : ∀ r ∈ rows, ∀ s ∈ rows, r.version = s.version → r = s
  fingerprints : (rows.map SchemaVersionRecord.fingerprint).Nodup
  current : ∃ r ∈ rows, r.isCurrent ∧ r.version = rows.length ∧
    ∀ s ∈ rows, s.isCurrent → s = r
  first : ∀ r ∈ rows, r.version = 1 → r.previousVersionId = none
  chain : ∀ r ∈ rows, ∀ s ∈ rows, s.version = r.version + 1 → s.previousVersionId = some r.id

theorem History.numbered {rows : List SchemaVersionRecord} (h : History rows) (hne : rows ≠ []) :
    Numbered rows := by
  have hpos := List.length_pos_iff.mpr hne
  refine ⟨fun v => ⟨?_, ?_⟩, fun r hr s hs => h.eq_of_version hr hs, h.fingerprints, ?_, ?_, ?_⟩
  · rintro ⟨r, hr, rfl⟩
    exact h.version_le hr
  · rintro ⟨h1, hv⟩
    exact h.exists_version h1 hv
  · obtain ⟨r, hr, hv⟩ := h.exists_version (by omega) (le_refl rows.length)
    refine ⟨r, hr, (h.isCurrent_iff hr).mpr hv, hv, fun s hs hc => ?_⟩
    exact h.eq_of_version hs hr (((h.isCurrent_iff hs).mp hc).trans hv.symm)
  · intro r hr hv
    obtain ⟨i, hi⟩ := List.mem_iff_getElem?.mp hr
    have hvi := h.version i r hi
    rw [h.previous i r hi, if_pos (by omega)]
  · intro r hr s hs hv
    obtain ⟨i, hi⟩ := List.mem_iff_getElem?.mp hr
    obtain ⟨j, hj⟩ := List.mem_iff_getElem?.mp hs
    have hvi := h.version i r hi
    have hvj := h.version j s hj
    obtain rfl : j = i + 1 := by omega
    rw [h.previous _ s hj, if_neg (by omega), Nat.add_sub_cancel, hi]
    rfl

/-- Whatever the interleaving, the aborts and the lock ids of the processes: in every
committed state the versions of an endpoint form one unbroken chain. -/
theorem committed_versions_numbered (c : Config ι) (s : State ι)
    (h : Reachable (step c) always init s) (e : Nat) (hne : versionsOf s.db.versions e ≠ []) :
    Numbered (versionsOf s.db.versions e) :=
  History.numbered
    ((h.invariant inv_init fun _ _ _ hi _ hs => inv_step hi hs).history e) hne

end Invariant

/-- Two calls of one endpoint in two processes, one after the other. -/
theorem committed_versions_numbered_two_calls :
    let key : EndpointKey := ⟨"n", "svc", "POST", "/orders"⟩
    let c : Config (Fin 2) := {
      request := fun i =>
        { key, fingerprint := if i = 0 then "a" else "b", canonicalSchema := .obj [],
          classification := .SAFE }
      hash := fun i _ => if i = 0 then 7 else -12
      jsonb := some }
    let acts := List.replicate 9 (Action.advance 0) ++ List.replicate 10 (.advance 1)
    ∃ s, run (step c) always init acts = some s ∧ (versionsOf s.db.versions 0).length = 2 ∧
      Numbered (versionsOf s.db.versions 0) := by
  intro key c acts
  have hlen : (run (step c) always init acts).map (fun s => (versionsOf s.db.versions 0).length) =
      some 2 := by decide
  obtain ⟨s, hs, hl⟩ := Option.map_eq_some_iff.mp hlen
  have hne : versionsOf s.db.versions 0 ≠ [] := by
    rintro he
    rw [he] at hl
    cases hl
  exact ⟨s, hs, hl, committed_versions_numbered c s (reachable_run (step c) always .start hs) 0 hne⟩

end SchemaPilot.RegistryHistory
