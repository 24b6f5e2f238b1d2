import SchemaPilot.RegistryHistory

namespace SchemaPilot.RegistryLock

open Classifier Registry Runs RegistryTxn RegistryHistory

variable {ι : Type}

/-- The endpoint of a call: committed, or inserted by the call itself. -/
def Owns (c : Config ι) (db : Db) (i : ι) (t : Txn) (e : Endpoint) : Prop :=
  e.key = (c.request i).key ∧ (e ∈ db.endpoints ∨ t.endpoint = some e)

/-- The call holds its lock, and what it has read of its endpoint is still so. -/
structure Holding (c : Config ι) (db : Db) (i : ι) (t : Txn) (e : Endpoint)
    (current : Option SchemaVersionRecord) : Prop where
  owns : Owns c db i t e
  lock : t.holdsLock = true
  current : getCurrentSchema db.versions e.id = current
  fresh : findFingerprint db.versions e.id (c.request i).fingerprint = none

/-- A committed version has the endpoint and the fingerprint of the call. -/
def Recorded (c : Config ι) (db : Db) (i : ι) (P : SchemaVersionRecord → Prop) : Prop :=
  ∃ e ∈ db.endpoints, e.key = (c.request i).key ∧
    ∃ r ∈ db.versions, r.endpointId = e.id ∧ r.fingerprint = (c.request i).fingerprint ∧ P r

/-- An uncommitted version that its call inserted under the lock. -/
structure Inserted (c : Config ι) (db : Db) (i : ι) (t : Txn) (e : Endpoint)
    (r : SchemaVersionRecord) : Prop where
  owns : Owns c db i t e
  lock : t.holdsLock = true
  row : t.row = some r
  endpointId : r.endpointId = e.id
  fingerprint : r.fingerprint = (c.request i).fingerprint

def LocalOk (c : Config ι) (db : Db) (i : ι) (t : Txn) : Prop :=
  match t.pc with
  | .selectEndpoint | .insertEndpoint | .reselectEndpoint => True
  | .selectFingerprint e | .lock e => Owns c db i t e
  | .selectCurrent e => Owns c db i t e ∧ t.holdsLock = true
  | .recheck e current =>
    Owns c db i t e ∧ t.holdsLock = true ∧ getCurrentSchema db.versions e.id = current
  | .clear e current | .clearing e current _ => Holding c db i t e (some current)
  | .insert e current => Holding c db i t e current
  | .done record true => ∃ e r, Inserted c db i t e r ∧ r.id = record.id
  | .done _ false => t.row = none ∧ Recorded c db i (fun _ => True)
  | .committed record true => Recorded c db i (fun r => r.id = record.id)
  | .committed _ false => Recorded c db i (fun _ => True)
  | .aborted uniqueViolation => uniqueViolation = false

/-- The id of the version that a call reports as inserted. -/
def insertedId (t : Txn) : Option Nat :=
  match t.pc with
  | .done record true | .committed record true => some record.id
  | _ => none

def Present (s : State ι) (e : Endpoint) : Prop :=
  e ∈ s.db.endpoints ∨ ∃ i, (s.txn i).endpoint = some e

/-- Endpoints, committed or not, are told apart by their keys and by their ids. -/
structure EndpointsOk (c : Config ι) (s : State ι) : Prop where
  draftKey : ∀ i e, (s.txn i).endpoint = some e → e.key = (c.request i).key
  sameKey : ∀ e e', Present s e → Present s e' → e.key = e'.key → e = e'
  sameId : ∀ e e', Present s e → Present s e' → e.id = e'.id → e = e'
  id_lt : ∀ e, Present s e → e.id < s.db.nextId

/-- A committed call of the version's endpoint and fingerprint reports it as inserted. -/
def Owned (c : Config ι) (s : State ι) (r : SchemaVersionRecord) : Prop :=
  ∃ i record, (s.txn i).pc = .committed record true ∧ record.id = r.id ∧
    r.fingerprint = (c.request i).fingerprint ∧
    ∃ e ∈ s.db.endpoints, e.id = r.endpointId ∧ e.key = (c.request i).key

structure LockInv (c : Config ι) (s : State ι) : Prop where
  base : Inv s
  endpoints : EndpointsOk c s
  exclusive : ∀ i j, i ≠ j → (s.txn i).holdsLock → (s.txn j).holdsLock →
    (c.request i).key ≠ (c.request j).key
  calls : ∀ i, LocalOk c s.db i (s.txn i)
  inserted_lt : ∀ i n, insertedId (s.txn i) = some n → n < s.db.nextId
  inserted_ne : ∀ i j n, i ≠ j → insertedId (s.txn i) = some n → insertedId (s.txn j) ≠ some n
  owner : ∀ r ∈ s.db.versions, Owned c s r

theorem lockInv_init (c : Config ι) : LockInv c init := by
  refine ⟨inv_init, ⟨?_, ?_, ?_, ?_⟩, ?_, fun _ => trivial, ?_, ?_, ?_⟩ <;>
    simp [init, Present, Db.empty, insertedId]

structure Adds (db db' : Db) : Prop where
  endpoints : ∀ e ∈ db.endpoints, e ∈ db'.endpoints
  versions : ∀ r ∈ db.versions, ∃ r' ∈ db'.versions,
    r'.id = r.id ∧ r'.endpointId = r.endpointId ∧ r'.fingerprint = r.fingerprint

/-- What another call's step may do to the tables under a call: add endpoints and rows, and
change nothing of the endpoint the call has locked. -/
structure Keeps (c : Config ι) (db db' : Db) (i : ι) (t : Txn) : Prop extends Adds db db' where
  locked : t.holdsLock = true → ∀ e, Owns c db i t e →
    versionsOf db'.versions e.id = versionsOf db.versions e.id

section Keeps

variable {c : Config ι} {db db' : Db} {i : ι} {t : Txn} {e : Endpoint}

theorem Owns.keep (hk : Keeps c db db' i t) (h : Owns c db i t e) : Owns c db' i t e :=
  ⟨h.1, h.2.imp_left (hk.endpoints e)⟩

theorem Recorded.keep (hk : Adds db db') {P : SchemaVersionRecord → Prop}
    (hP : ∀ r r', r'.id = r.id → P r → P r') (h : Recorded c db i P) : Recorded c db' i P := by
  obtain ⟨e, he, hkey, r, hr, hep, hf, hp⟩ := h
  obtain ⟨r', hr', hid, hep', hf'⟩ := hk.versions r hr
  exact ⟨e, hk.endpoints e he, hkey, r', hr', hep'.trans hep, hf'.trans hf, hP r r' hid hp⟩

theorem Holding.keep (hk : Keeps c db db' i t) {current : Option SchemaVersionRecord}
    (h : Holding c db i t e current) : Holding c db' i t e current := by
  have hv := hk.locked h.lock e h.owns
  refine ⟨h.owns.keep hk, h.lock, ?_, ?_⟩
  · rw [← h.current, getCurrentSchema, getCurrentSchema, hv]
  · rw [← h.fresh, findFingerprint, findFingerprint, hv]

theorem LocalOk.keep (hk : Keeps c db db' i t) (h : LocalOk c db i t) : LocalOk c db' i t := by
  unfold LocalOk at h ⊢
  cases hpc : t.pc with
  | selectEndpoint | insertEndpoint | reselectEndpoint => trivial
  | selectFingerprint e | lock e =>
    simp only [hpc] at h
    exact h.keep hk
  | selectCurrent e =>
    simp only [hpc] at h
    exact ⟨h.1.keep hk, h.2⟩
  | recheck e current =>
    simp only [hpc] at h
    refine ⟨h.1.keep hk, h.2.1, ?_⟩
    rw [← h.2.2, getCurrentSchema, getCurrentSchema, hk.locked h.2.1 e h.1]
  | clear e current | clearing e current todo | insert e current =>
    simp only [hpc] at h
    exact h.keep hk
  | done record inserted =>
    simp only [hpc] at h
    cases inserted with
    | true =>
      obtain ⟨e, r, hi, hid⟩ := h
      exact ⟨e, r, { hi with owns := hi.owns.keep hk }, hid⟩
    | false => exact ⟨h.1, h.2.keep hk.toAdds fun _ _ _ _ => trivial⟩
  | committed record inserted =>
    simp only [hpc] at h
    cases inserted with
    | true => exact Recorded.keep hk.toAdds (fun r r' hid hp => hid.trans hp) h
    | false => exact Recorded.keep hk.toAdds (fun _ _ _ _ => trivial) h
  | aborted u =>
    simp only [hpc] at h
    exact h

theorem Keeps.of_eq (he : db'.endpoints = db.endpoints) (hv : db'.versions = db.versions) :
    Keeps c db db' i t :=
  ⟨⟨fun _ hm => he ▸ hm, fun r hm => ⟨r, hv ▸ hm, rfl, rfl, rfl⟩⟩, fun _ _ _ => by rw [hv]⟩

/-- Under the lock the version that was read is the last one, and nothing committed is in the
way of the next. -/
theorem Holding.no_conflict {current : Option SchemaVersionRecord}
    (hist : History (versionsOf db.versions e.id)) (h : Holding c db i t e current) (n : Nat)
    (stored : Schema) (cl : Compatibility) :
    db.versions.any (conflicts (newRow n e.id current (c.request i).fingerprint stored cl)) = false := by
  rw [List.any_eq_false]
  intro r hr hc
  obtain ⟨he, hc⟩ := conflicts_iff.mp hc
  have hm : r ∈ versionsOf db.versions e.id := mem_versionsOf.mpr ⟨hr, he.symm⟩
  obtain hv | hf := hc
  · have hle := (hist.version_le hm).2
    have hnext := hist.nextVersion_getLast?
    rw [← hist.latest_current] at hnext
    rw [← h.current] at hv
    have := hnext.symm.trans hv
    omega
  · exact (findFingerprint_eq_none_iff _ _ _).mp h.fresh r hm hf.symm

end Keeps

theorem EndpointsOk.sub {c : Config ι} {s s' : State ι} (h : EndpointsOk c s)
    (hdraft : ∀ i e, (s'.txn i).endpoint = some e → (s.txn i).endpoint = some e)
    (hpresent : ∀ e, Present s' e → Present s e) (hid : s.db.nextId ≤ s'.db.nextId) :
    EndpointsOk c s' :=
  ⟨fun i e he => h.draftKey i e (hdraft i e he),
    fun e e' he he' => h.sameKey e e' (hpresent e he) (hpresent e' he'),
    fun e e' he he' => h.sameId e e' (hpresent e he) (hpresent e' he'),
    fun e he => (h.id_lt e (hpresent e he)).trans_le hid⟩

theorem Owns.present {c : Config ι} {s : State ι} {i : ι} {e : Endpoint}
    (h : Owns c s.db i (s.txn i) e) : Present s e :=
  h.2.imp_right fun he => ⟨i, he⟩

section Invariant

variable {c : Config ι} {s : State ι} {i : ι}

/-- A version that is found belongs to an endpoint that is committed. -/
theorem LockInv.recorded (h : LockInv c s) {e : Endpoint} (howns : Owns c s.db i (s.txn i) e)
    {r : SchemaVersionRecord}
    (hr : findFingerprint s.db.versions e.id (c.request i).fingerprint = some r) :
    Recorded c s.db i fun _ => True := by
  obtain ⟨hm, hf⟩ := findFingerprint_eq_some hr
  obtain ⟨hr', hep⟩ := mem_versionsOf.mp hm
  obtain ⟨-, -, -, -, -, e', he', hid, -⟩ := h.owner r hr'
  obtain rfl := h.endpoints.sameId e' e (.inl he') howns.present (hid.trans hep)
  exact ⟨e', he', howns.1, r, hr', hep, hf, trivial⟩

theorem mem_applyClears {cleared : List (Nat × Nat)} {versions : List SchemaVersionRecord}
    {r : SchemaVersionRecord} (h : r ∈ applyClears cleared versions) :
    ∃ r₀ ∈ versions, r₀.id = r.id ∧ r₀.endpointId = r.endpointId ∧ r₀.fingerprint = r.fingerprint := by
  obtain ⟨r₀, hr₀, rfl⟩ := List.mem_map.mp h
  refine ⟨r₀, hr₀, ?_⟩
  split <;> exact ⟨rfl, rfl, rfl⟩

theorem adds_commit (db : Db) (t : Txn) : Adds db (commit db t) := by
  refine ⟨fun e he => List.mem_append_left _ he, fun r hr => ?_⟩
  refine ⟨_, List.mem_append_left _ (List.mem_map_of_mem hr), ?_⟩
  split <;> exact ⟨rfl, rfl, rfl⟩

/-- A commit is no news to the calls that hold the locks of other endpoints. -/
theorem keeps_commit (h : LockInv c s) {record : SchemaVersionRecord} {inserted : Bool}
    (hpc : (s.txn i).pc = .done record inserted) {j : ι} (hji : j ≠ i) :
    Keeps c s.db (commit s.db (s.txn i)) j (s.txn j) := by
  refine ⟨adds_commit _ _, fun hlock e howns => ?_⟩
  have hlocal := h.calls i
  have hwrote := h.base.txn i
  rw [LocalOk] at hlocal
  rw [TxnOk] at hwrote
  simp only [hpc] at hlocal hwrote
  obtain hclean | ⟨r, current, hw⟩ := hwrote
  · rw [commit_clean hclean]
  · cases inserted with
    | false =>
      have hrow := hlocal.1
      cases hrow.symm.trans hw.row
    | true =>
      obtain ⟨e', r', hi, -⟩ := hlocal
      obtain rfl : r = r' := Option.some.inj (hw.row.symm.trans hi.row)
      have hne : e.id ≠ r.endpointId := by
        intro hid
        obtain rfl := h.endpoints.sameId e e' howns.present hi.owns.present (hid.trans hi.endpointId)
        exact h.exclusive j i hji hlock hi.lock (howns.1.symm.trans hi.owns.1)
      rw [versionsOf_commit h.base.history hw (h.base.free_version hw.row), if_neg hne]

/-- The endpoint of the version that a call commits is committed with it. -/
theorem Inserted.mem_commit {t : Txn} {e : Endpoint} {r : SchemaVersionRecord}
    (h : Inserted c s.db i t e r) :
    e ∈ (commit s.db t).endpoints ∧ r ∈ (commit s.db t).versions := by
  constructor
  · exact List.mem_append.mpr (h.owns.2.imp_right Option.mem_toList.mpr)
  · exact List.mem_append_right _ (Option.mem_toList.mpr h.row)

theorem LockInv.no_violation (h : LockInv c s) (i : ι) : (s.txn i).pc ≠ .aborted true := by
  intro hpc
  have hlocal := h.calls i
  rw [LocalOk] at hlocal
  simp only [hpc] at hlocal
  cases hlocal

/-- The endpoint and the fingerprint of a committed call have one version, whose call is the
only one to report it as inserted. -/
theorem LockInv.inserted_once (h : LockInv c s) {key : EndpointKey} {f : String}
    (hcommitted : ∃ i record inserted, (c.request i).key = key ∧ (c.request i).fingerprint = f ∧
      (s.txn i).pc = .committed record inserted) :
    ∃! i, (c.request i).key = key ∧ (c.request i).fingerprint = f ∧
      ∃ record, (s.txn i).pc = .committed record true := by
  have hrecorded : ∀ i record inserted, (s.txn i).pc = .committed record inserted →
      Recorded c s.db i fun r => inserted = true → r.id = record.id := by
    intro i record inserted hpc
    have hlocal := h.calls i
    rw [LocalOk] at hlocal
    simp only [hpc] at hlocal
    cases inserted with
    | true =>
      obtain ⟨e, he, hkey, r, hr, hep, hf, hid⟩ := hlocal
      exact ⟨e, he, hkey, r, hr, hep, hf, fun _ => hid⟩
    | false =>
      obtain ⟨e, he, hkey, r, hr, hep, hf, -⟩ := hlocal
      exact ⟨e, he, hkey, r, hr, hep, hf, nofun⟩
  obtain ⟨i, record, inserted, hkey, hf, hpc⟩ := hcommitted
  obtain ⟨e, he, hekey, r, hr, hep, hrf, -⟩ := hrecorded i record inserted hpc
  obtain ⟨j, record', hpc', -, hf', e', he', heid, hkey'⟩ := h.owner r hr
  obtain rfl := h.endpoints.sameId e' e (.inl he') (.inl he) (heid.trans hep)
  refine ⟨j, ⟨?_, ?_, record', hpc'⟩, ?_⟩
  · rw [← hkey', hekey, hkey]
  · rw [← hf', hrf, hf]
  · rintro k ⟨hkkey, hkf, record'', hpc''⟩
    by_contra hne
    obtain ⟨e₁, he₁, hkey₁, r₁, hr₁, hep₁, hf₁, hid₁⟩ := hrecorded k record'' true hpc''
    obtain ⟨e₂, he₂, hkey₂, r₂, hr₂, hep₂, hf₂, hid₂⟩ := hrecorded j record' true hpc'
    have hj : (c.request j).key = (c.request k).key := by rw [← hkey', hekey, hkey, hkkey]
    obtain rfl := h.endpoints.sameKey e₁ e₂ (.inl he₁) (.inl he₂) (by rw [hkey₁, hkey₂, hj])
    have hsame : r₁ = r₂ := by
      refine List.inj_on_of_nodup_map (h.base.history e₁.id).fingerprints
        (mem_versionsOf.mpr ⟨hr₁, hep₁⟩) (mem_versionsOf.mpr ⟨hr₂, hep₂⟩) ?_
      rw [hf₁, hf₂, hkf, ← hf', hrf, hf]
    apply h.inserted_ne k j record''.id hne (by rw [insertedId, hpc''])
    rw [insertedId, hpc', ← hid₁ rfl, hsame, hid₂ rfl]

variable [DecidableEq ι]

theorem set_txn (s : State ι) (db : Db) (i : ι) (t : Txn) (j : ι) :
    (({ s with db } : State ι).set i t).txn j = if j = i then t else s.txn j :=
  Function.update_apply s.txn i t j

/-- A step of one call that commits nothing. -/
theorem LockInv.update (h : LockInv c s) (hactive : (s.txn i).pc.active) (db : Db) {t : Txn}
    (hbase : Inv (({ s with db } : State ι).set i t))
    (hendpoints : EndpointsOk c (({ s with db } : State ι).set i t))
    (he : db.endpoints = s.db.endpoints) (hv : db.versions = s.db.versions)
    (hid : s.db.nextId ≤ db.nextId)
    (hlock : t.holdsLock → ∀ j, j ≠ i → (s.txn j).holdsLock → (c.request j).key ≠ (c.request i).key)
    (hlocal : LocalOk c s.db i t)
    (hinserted : ∀ n, insertedId t = some n → s.db.nextId ≤ n ∧ n < db.nextId) :
    LockInv c (({ s with db } : State ι).set i t) := by
  have hfresh : ∀ n j, insertedId t = some n → insertedId (s.txn j) ≠ some n := by
    intro n j hn hj
    have hlt := h.inserted_lt j n hj
    have hle := (hinserted n hn).1
    omega
  refine ⟨hbase, hendpoints, fun j k hne hj hk => ?_, fun j => ?_, fun j n hn => ?_,
    fun j k n hne hj hk => ?_, fun r hr => ?_⟩
  · rw [set_txn] at hj hk
    split at hj <;> split at hk
    · next hji hki => exact absurd (hji.trans hki.symm) hne
    · next hji hki => exact hji ▸ (hlock hj k hki hk).symm
    · next hji hki => exact hki ▸ hlock hk j hji hj
    · exact h.exclusive j k hne hj hk
  · change LocalOk c db j _
    rw [set_txn]
    split
    · next hji =>
      subst hji
      exact hlocal.keep (Keeps.of_eq he hv)
    · exact (h.calls j).keep (Keeps.of_eq he hv)
  · change n < db.nextId
    rw [set_txn] at hn
    split at hn
    · exact (hinserted n hn).2
    · exact (h.inserted_lt j n hn).trans_le hid
  · rw [set_txn] at hj hk
    split at hj <;> split at hk
    · next hji hki => exact hne (hji.trans hki.symm)
    · exact hfresh n k hj hk
    · exact hfresh n j hk hj
    · exact h.inserted_ne j k n hne hj hk
  · obtain ⟨j, record, hpc, hrest⟩ := h.owner r (hv ▸ hr)
    have hji : j ≠ i := by
      rintro rfl
      rw [hpc] at hactive
      cases hactive
    refine ⟨j, record, ?_, ?_⟩
    · rw [set_txn, if_neg hji]
      exact hpc
    · change _ ∧ _ ∧ ∃ e ∈ db.endpoints, _
      rw [he]
      exact hrest

theorem EndpointsOk.set (h : EndpointsOk c s) (db : Db) (he : db.endpoints = s.db.endpoints)
    (hid : s.db.nextId ≤ db.nextId) {t : Txn}
    (ht : ∀ e, t.endpoint = some e → (s.txn i).endpoint = some e) :
    EndpointsOk c (({ s with db } : State ι).set i t) := by
  have hdraft : ∀ j e, ((({ s with db } : State ι).set i t).txn j).endpoint = some e →
      (s.txn j).endpoint = some e := by
    intro j e hj
    rw [set_txn] at hj
    split at hj
    · next hji => exact hji ▸ ht e hj
    · exact hj
  refine h.sub hdraft (fun e hp => ?_) hid
  obtain hm | ⟨j, hj⟩ := hp
  · exact .inl (he ▸ hm)
  · exact .inr ⟨j, hdraft j e hj⟩

/-- A step that touches neither the tables nor the lock. -/
theorem LockInv.quiet (h : LockInv c s) (hactive : (s.txn i).pc.active) {t : Txn}
    (hbase : Inv (s.set i t)) (hdraft : ∀ e, t.endpoint = some e → (s.txn i).endpoint = some e)
    (hlock : t.holdsLock → (s.txn i).holdsLock) (hlocal : LocalOk c s.db i t)
    (hinserted : insertedId t = none) : LockInv c (s.set i t) :=
  h.update hactive s.db hbase (h.endpoints.set s.db rfl le_rfl hdraft) rfl rfl le_rfl
    (fun ht j hji hj => h.exclusive j i hji hj (hlock ht)) hlocal (by simp [hinserted])

theorem LockInv.goto (h : LockInv c s) (hactive : (s.txn i).pc.active) {pc : Pc}
    (hbase : Inv (s.goto i pc)) (hlocal : LocalOk c s.db i { s.txn i with pc })
    (hinserted : insertedId { s.txn i with pc } = none) : LockInv c (s.goto i pc) :=
  h.quiet hactive hbase (fun _ he => he) id hlocal hinserted

theorem LockInv.finish (h : LockInv c s) (hactive : (s.txn i).pc.active) :
    LockInv c (s.set i (.finish (.aborted false))) :=
  h.quiet hactive (h.base.finish i false) (by simp [Txn.finish]) (by simp [Txn.finish]) rfl rfl

/-- The endpoint that a call inserts has a key nobody else has, and a fresh id. -/
theorem endpointsOk_insert (h : EndpointsOk c s) {e : Endpoint} (hkey : e.key = (c.request i).key)
    (hid : e.id = s.db.nextId)
    (hdrafts : ∀ j e', j ≠ i → (s.txn j).endpoint = some e' → e'.key ≠ e.key)
    (hcommitted : ∀ e' ∈ s.db.endpoints, e'.key ≠ e.key) {t : Txn} (ht : t.endpoint = some e) :
    EndpointsOk c (({ s with db := { s.db with nextId := s.db.nextId + 1 } } : State ι).set i t) := by
  have hpresent : ∀ e',
      Present (({ s with db := { s.db with nextId := s.db.nextId + 1 } } : State ι).set i t) e' →
        e' = e ∨ Present s e' ∧ e'.key ≠ e.key ∧ e'.id ≠ e.id := by
    rintro e' (hm | ⟨j, hj⟩)
    · have hp : Present s e' := .inl hm
      exact .inr ⟨hp, hcommitted e' hm, by have := h.id_lt e' hp; omega⟩
    · rw [set_txn] at hj
      split at hj
      · rw [ht, Option.some.injEq] at hj
        exact .inl hj.symm
      · next hji =>
        have hp : Present s e' := .inr ⟨j, hj⟩
        exact .inr ⟨hp, hdrafts j e' hji hj, by have := h.id_lt e' hp; omega⟩
  refine ⟨fun j e' hj => ?_, fun e₁ e₂ h1 h2 he => ?_, fun e₁ e₂ h1 h2 he => ?_, fun e' he' => ?_⟩
  · rw [set_txn] at hj
    split at hj
    · next hji =>
      rw [ht, Option.some.injEq] at hj
      rw [hji, ← hj, hkey]
    · exact h.draftKey j e' hj
  · obtain rfl | ⟨hp1, hk1, -⟩ := hpresent e₁ h1 <;> rcases hpresent e₂ h2 with rfl | ⟨hp2, hk2, -⟩
    · rfl
    · exact absurd he.symm hk2
    · exact absurd he hk1
    · exact h.sameKey e₁ e₂ hp1 hp2 he
  · obtain rfl | ⟨hp1, -, hi1⟩ := hpresent e₁ h1 <;> rcases hpresent e₂ h2 with rfl | ⟨hp2, -, hi2⟩
    · rfl
    · exact absurd he.symm hi2
    · exact absurd he hi1
    · exact h.sameId e₁ e₂ hp1 hp2 he
  · change e'.id < s.db.nextId + 1
    obtain rfl | ⟨hp, -, -⟩ := hpresent e' he'
    · omega
    · have := h.id_lt e' hp
      omega

theorem lockInv_commit (h : LockInv c s) {record : SchemaVersionRecord} {inserted : Bool}
    (hpc : (s.txn i).pc = .done record inserted)
    (hbase : Inv (({ s with db := commit s.db (s.txn i) } : State ι).set i
      (.finish (.committed record inserted)))) :
    LockInv c (({ s with db := commit s.db (s.txn i) } : State ι).set i
      (.finish (.committed record inserted))) := by
  have hlocal := h.calls i
  rw [LocalOk] at hlocal
  simp only [hpc] at hlocal
  have hsame : insertedId (.finish (.committed record inserted)) = insertedId (s.txn i) := by
    rw [insertedId, insertedId, hpc]
    cases inserted <;> rfl
  refine ⟨hbase, h.endpoints.sub (fun j e hj => ?_) (fun e hp => ?_) le_rfl, fun j k hne hj hk => ?_,
    fun j => ?_, fun j n hn => ?_, fun j k n hne hj hk => ?_, fun r hr => ?_⟩
  · rw [set_txn] at hj
    split at hj
    · cases hj
    · exact hj
  · obtain hm | ⟨j, hj⟩ := hp
    · obtain hm | hm := List.mem_append.mp hm
      · exact .inl hm
      · exact .inr ⟨i, Option.mem_toList.mp hm⟩
    · rw [set_txn] at hj
      split at hj
      · cases hj
      · exact .inr ⟨j, hj⟩
  · rw [set_txn] at hj hk
    split at hj
    · cases hj
    · split at hk
      · cases hk
      · exact h.exclusive j k hne hj hk
  · change LocalOk c (commit s.db (s.txn i)) j _
    rw [set_txn]
    split
    · next hji =>
      subst hji
      cases inserted with
      | true =>
        obtain ⟨e, r, hi, hid⟩ := hlocal
        exact ⟨e, hi.mem_commit.1, hi.owns.1, r, hi.mem_commit.2, hi.endpointId, hi.fingerprint, hid⟩
      | false => exact Recorded.keep (adds_commit _ _) (fun _ _ _ _ => trivial) hlocal.2
    · next hji => exact (h.calls j).keep (keeps_commit h hpc hji)
  · change n < s.db.nextId
    rw [set_txn] at hn
    split at hn
    · exact h.inserted_lt i n (hsame ▸ hn)
    · exact h.inserted_lt j n hn
  · rw [set_txn] at hj hk
    split at hj <;> split at hk
    · next hji hki => exact hne (hji.trans hki.symm)
    · next hji hki => exact h.inserted_ne i k n (Ne.symm hki) (hsame ▸ hj) hk
    · next hji hki => exact h.inserted_ne j i n hji hj (hsame ▸ hk)
    · exact h.inserted_ne j k n hne hj hk
  · obtain hold | hnew := List.mem_append.mp hr
    · obtain ⟨r₀, hr₀, hid, hep, hf⟩ := mem_applyClears hold
      obtain ⟨j, record', hpc', hid', hf', e, he, heid, hkey⟩ := h.owner r₀ hr₀
      have hji : j ≠ i := by
        rintro rfl
        rw [hpc] at hpc'
        cases hpc'
      refine ⟨j, record', ?_, hid'.trans hid, hf.symm.trans hf', e, ?_, heid.trans hep, hkey⟩
      · rw [set_txn, if_neg hji]
        exact hpc'
      · exact List.mem_append_left _ he
    · rw [Option.mem_toList] at hnew
      cases inserted with
      | false =>
        have hrow := hlocal.1
        cases hrow.symm.trans hnew
      | true =>
        obtain ⟨e, r', hi, hid⟩ := hlocal
        obtain rfl : r = r' := Option.some.inj (hnew.symm.trans hi.row)
        refine ⟨i, record, ?_, hid.symm, hi.fingerprint, e, hi.mem_commit.1, hi.endpointId.symm,
          hi.owns.1⟩
        rw [set_txn, if_pos rfl]
        rfl

variable [Fintype ι] {s' : State ι}

theorem lockInv_insertEndpoint (h : LockInv c s) (hpc : (s.txn i).pc = .insertEndpoint)
    (hbase : Inv s') (hs : insertEndpoint c s i = some s') : LockInv c s' := by
  have hactive : (s.txn i).pc.active := by rw [hpc]; rfl
  rw [insertEndpoint] at hs
  dsimp only at hs
  split_ifs at hs with hwait hfound <;> cases hs
  · exact h.quiet hactive hbase (fun _ he => he) id trivial rfl
  · refine h.update hactive _ hbase (endpointsOk_insert h.endpoints rfl rfl ?_ ?_ rfl) rfl rfl
      (Nat.le_succ _) (fun ht j hji hj => h.exclusive j i hji hj ht) trivial (by simp [insertedId])
    · intro j e' hji hj hkey
      exact hwait ⟨j, hji, by simp [hj, hkey]⟩
    · intro e' hm hkey
      apply hfound
      rw [findEndpoint, List.find?_isSome]
      exact ⟨e', hm, decide_eq_true hkey⟩

theorem lockInv_insertRow (h : LockInv c s) {e : Endpoint} {current : Option SchemaVersionRecord}
    (hpc : (s.txn i).pc = .insert e current) (hbase : Inv s')
    (hs : insertRow c s i e current = some s') : LockInv c s' := by
  have hactive : (s.txn i).pc.active := by rw [hpc]; rfl
  have hlocal := h.calls i
  rw [LocalOk] at hlocal
  simp only [hpc] at hlocal
  rw [insertRow] at hs
  dsimp only at hs
  split at hs
  · cases hs
    exact h.finish hactive
  · next stored _ =>
    rw [hlocal.no_conflict (h.base.history e.id), if_neg Bool.false_ne_true] at hs
    split at hs
    · cases hs
    · cases hs
      refine h.update hactive _ hbase ?_ rfl rfl (Nat.le_succ _)
        (fun ht j hji hj => h.exclusive j i hji hj ht)
        ⟨e, _, ⟨hlocal.owns, hlocal.lock, rfl, rfl, rfl⟩, rfl⟩ ?_
      · exact h.endpoints.set { s.db with nextId := s.db.nextId + 1 } rfl (Nat.le_succ _) fun _ he => he
      · intro n hn
        cases hn
        exact ⟨le_rfl, Nat.lt_succ_self _⟩

theorem active_of_advance (hs : advance c s i = some s') : (s.txn i).pc.active := by
  rw [advance] at hs
  cases hpc : (s.txn i).pc with
  | committed record inserted | aborted u =>
    simp only [hpc] at hs
    cases hs
  | _ => rfl

/-- A call takes its advisory lock only while no other call of its endpoint holds one. -/
def Serialised (c : Config ι) (s : State ι) : Action ι → Prop
  | .advance i => ∀ e, (s.txn i).pc = .lock e →
    ∀ j, j ≠ i → (s.txn j).holdsLock → (c.request j).key ≠ (c.request i).key
  | .abort _ => True

theorem lockInv_advance (h : LockInv c s) (hok : Serialised c s (.advance i)) (hbase : Inv s')
    (hs : advance c s i = some s') : LockInv c s' := by
  have hactive := active_of_advance hs
  have hlocal := h.calls i
  have hclean := h.base.txn i
  rw [LocalOk] at hlocal
  rw [TxnOk] at hclean
  rw [advance] at hs
  cases hpc : (s.txn i).pc with
  | selectEndpoint =>
    simp only [hpc] at hs
    split at hs <;> cases hs
    · next e he =>
      obtain ⟨hm, hkey⟩ := findEndpoint_eq_some he
      exact h.goto hactive hbase ⟨hkey, .inl hm⟩ rfl
    · exact h.goto hactive hbase trivial rfl
  | insertEndpoint =>
    simp only [hpc] at hs
    exact lockInv_insertEndpoint h hpc hbase hs
  | reselectEndpoint =>
    simp only [hpc] at hs
    split at hs <;> cases hs
    · next e he =>
      obtain ⟨hm, hkey⟩ := findEndpoint_eq_some he
      rw [List.mem_append, Option.mem_toList] at hm
      exact h.goto hactive hbase ⟨hkey, hm⟩ rfl
    · exact h.finish hactive
  | selectFingerprint e =>
    simp only [hpc] at hs hlocal hclean
    split at hs <;> cases hs
    · next row hr => exact h.goto hactive hbase ⟨hclean.1, h.recorded hlocal hr⟩ rfl
    · exact h.goto hactive hbase hlocal rfl
  | lock e =>
    simp only [hpc] at hs hlocal
    split at hs
    · cases hs
    · cases hs
      exact h.update hactive s.db hbase (h.endpoints.set s.db rfl le_rfl fun _ he => he) rfl rfl
        le_rfl (fun _ j hji hj => hok e hpc j hji hj) ⟨hlocal, rfl⟩ (by simp [insertedId])
  | selectCurrent e =>
    simp only [hpc] at hs hlocal
    cases hs
    exact h.goto hactive hbase ⟨hlocal.1, hlocal.2, rfl⟩ rfl
  | recheck e current =>
    simp only [hpc] at hs hlocal hclean
    obtain ⟨howns, hlock, hcur⟩ := hlocal
    split at hs
    · next row hr =>
      cases hs
      exact h.goto hactive hbase ⟨hclean.1.1, h.recorded howns hr⟩ rfl
    · next hnone =>
      split at hs <;> cases hs
      · exact h.goto hactive hbase ⟨howns, hlock, hcur, hnone⟩ rfl
      · exact h.goto hactive hbase ⟨howns, hlock, hcur, hnone⟩ rfl
  | clear e current =>
    simp only [hpc] at hs hlocal
    cases hs
    exact h.goto hactive hbase { hlocal with } rfl
  | clearing e current todo =>
    simp only [hpc] at hs hlocal
    cases todo with
    | nil =>
      cases hs
      exact h.goto hactive hbase { hlocal with } rfl
    | cons v todo =>
      dsimp only at hs
      split at hs
      · cases hs
      · cases hs
        exact h.quiet hactive hbase (fun _ he => he) id { hlocal with } rfl
  | insert e current =>
    simp only [hpc] at hs
    exact lockInv_insertRow h hpc hbase hs
  | done record inserted =>
    simp only [hpc] at hs
    cases hs
    exact lockInv_commit h hpc hbase
  | committed record inserted =>
    simp only [hpc] at hs
    cases hs
  | aborted u =>
    simp only [hpc] at hs
    cases hs

theorem lockInv_step {a : Action ι} (h : LockInv c s) (hok : Serialised c s a)
    (hs : step c s a = some s') : LockInv c s' := by
  have hbase := inv_step h.base hs
  cases a with
  | advance i => exact lockInv_advance h hok hbase hs
  | abort i =>
    rw [step] at hs
    split at hs
    · next hactive =>
      cases hs
      exact h.finish hactive
    · cases hs

/-- One lock id for one endpoint serialises its calls. -/
theorem serialised_of_lockId {a : Action ι}
    (hlock : ∀ i j, (c.request i).key = (c.request j).key → lockId c i = lockId c j)
    (hs : step c s a = some s') : Serialised c s a := by
  cases a with
  | abort i => trivial
  | advance i =>
    intro e hpc j hji hholds hkey
    simp only [step, advance, hpc] at hs
    rw [if_pos ⟨j, hji, hholds, hlock j i hkey⟩] at hs
    cases hs

/-- In a run that never lets two calls of one endpoint into its critical section together, no
call is aborted by a UNIQUE violation, and of the committed calls of one endpoint and
fingerprint exactly one has inserted the version. -/
theorem serialised_calls (c : Config ι) (s : State ι)
    (h : Reachable (step c) (Serialised c) init s) :
    (∀ i, (s.txn i).pc ≠ .aborted true) ∧
      ∀ key f, (∃ i record inserted, (c.request i).key = key ∧ (c.request i).fingerprint = f ∧
          (s.txn i).pc = .committed record inserted) →
        ∃! i, (c.request i).key = key ∧ (c.request i).fingerprint = f ∧
          ∃ record, (s.txn i).pc = .committed record true := by
  have hinv : LockInv c s :=
    h.invariant (lockInv_init c) fun _ _ _ hi hok hs => lockInv_step hi hok hs
  exact ⟨hinv.no_violation, fun _ _ hcommitted => hinv.inserted_once hcommitted⟩

end Invariant

/-- Three calls of one endpoint, the last two with one new fingerprint; each call is served by
a process with a string hash of its own. -/
def threeCalls (hash : Fin 3 → Int) : Config (Fin 3) where
  request i :=
    { key := ⟨"n", "svc", "POST", "/orders"⟩, fingerprint := if i = 0 then "a" else "b",
      canonicalSchema := .obj [], classification := .SAFE }
  hash i _ := hash i
  jsonb := some

theorem serialised_calls_one_process :
    let c := threeCalls fun _ => 7
    let acts := List.replicate 9 (Action.advance 0) ++ List.replicate 2 (.advance 1) ++
      List.replicate 10 (.advance 2) ++ List.replicate 4 (.advance 1)
    ∃ s, run (step c) always init acts = some s ∧
      (∃! i, (c.request i).key = ⟨"n", "svc", "POST", "/orders"⟩ ∧
        (c.request i).fingerprint = "b" ∧ ∃ record, (s.txn i).pc = .committed record true) := by
  intro c acts
  have hpc : (run (step c) always init acts).map (fun s => (s.txn 1).pc) =
      some (.committed ⟨2, 0, 2, "b", .obj [], .SAFE, some 1, true⟩ false) := by decide
  obtain ⟨s, hs, hpc⟩ := Option.map_eq_some_iff.mp hpc
  have hserial : Reachable (step c) (Serialised c) init s :=
    (reachable_run (step c) always .start hs).restrict
      fun _ _ _ _ hstep => serialised_of_lockId (fun _ _ _ => rfl) hstep
  exact ⟨s, hs, (serialised_calls c s hserial).2 _ _ ⟨1, _, _, rfl, rfl, hpc⟩⟩

/-- Two processes take different locks for one endpoint, and the slower call finds the version
of the faster one in its way. -/
theorem two_processes_violation :
    ∃ s, Reachable (step (threeCalls fun i => if i = 2 then -12 else 7)) always init s ∧
      (s.txn 2).pc = .aborted true := by
  let acts := List.replicate 9 (Action.advance (0 : Fin 3)) ++ List.replicate 9 (Action.advance 1) ++
    List.replicate 6 (Action.advance 2) ++ [Action.advance 1] ++ List.replicate 3 (Action.advance 2)
  have hpc : (run (step (threeCalls fun i => if i = 2 then -12 else 7)) always init acts).map
      (fun s => (s.txn 2).pc) = some (.aborted true) := by decide
  obtain ⟨s, hs, hpc⟩ := Option.map_eq_some_iff.mp hpc
  exact ⟨s, reachable_run _ _ .start hs, hpc⟩

end SchemaPilot.RegistryLock
