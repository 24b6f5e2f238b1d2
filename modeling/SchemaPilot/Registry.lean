import SchemaPilot.Classifier

namespace SchemaPilot.Registry

open Classifier

structure EndpointKey where
  namespace_ : String
  serviceName : String
  httpMethod : String
  routePath : String
  deriving DecidableEq

structure Endpoint where
  id : Nat
  key : EndpointKey
  endpointName : String
  deriving DecidableEq

/-- A row of `contract_schema_versions`. -/
structure SchemaVersionRecord where
  id : Nat
  endpointId : Nat
  version : Nat
  fingerprint : String
  canonicalSchema : Schema
  compatibilityClassification : Compatibility
  previousVersionId : Option Nat
  isCurrent : Bool
  deriving DecidableEq

/-- The two registry tables, rows in the order of their commits, and a supply of fresh ids. -/
structure Db where
  endpoints : List Endpoint
  versions : List SchemaVersionRecord
  nextId : Nat

def Db.empty : Db := ⟨[], [], 0⟩

def endpointName (key : EndpointKey) : String :=
  key.serviceName ++ " " ++ key.httpMethod ++ " " ++ key.routePath

def findEndpoint (endpoints : List Endpoint) (key : EndpointKey) : Option Endpoint :=
  endpoints.find? (fun e => e.key = key)

def versionsOf (versions : List SchemaVersionRecord) (endpointId : Nat) : List SchemaVersionRecord :=
  versions.filter (fun r => r.endpointId = endpointId)

/-- `ORDER BY version DESC LIMIT 1`. -/
def latest (rows : List SchemaVersionRecord) : Option SchemaVersionRecord :=
  rows.foldl
    (fun best r =>
      match best with
      | none => some r
      | some b => if b.version < r.version then some r else some b)
    none

def getCurrentSchema (versions : List SchemaVersionRecord) (endpointId : Nat) :
    Option SchemaVersionRecord :=
  latest ((versionsOf versions endpointId).filter (fun r => r.isCurrent))

def findFingerprint (versions : List SchemaVersionRecord) (endpointId : Nat) (fingerprint : String) :
    Option SchemaVersionRecord :=
  (versionsOf versions endpointId).find? (fun r => r.fingerprint = fingerprint)

def nextVersion (current : Option SchemaVersionRecord) : Nat :=
  match current with
  | none => 1
  | some c => c.version + 1

def previousId (current : Option SchemaVersionRecord) : Option Nat :=
  current.map SchemaVersionRecord.id

/-- The row of an INSERT that follows a read of the current version. -/
def newRow (id endpointId : Nat) (current : Option SchemaVersionRecord) (fingerprint : String)
    (stored : Schema) (classification : Compatibility) : SchemaVersionRecord where
  id := id
  endpointId := endpointId
  version := nextVersion current
  fingerprint := fingerprint
  canonicalSchema := stored
  compatibilityClassification := classification
  previousVersionId := previousId current
  isCurrent := true

/-- Two rows that `UNIQUE(endpoint_id, version)` or `UNIQUE(endpoint_id, fingerprint)` keeps apart. -/
def conflicts (r s : SchemaVersionRecord) : Bool :=
  r.endpointId = s.endpointId && (r.version = s.version || r.fingerprint = s.fingerprint)

def clearCurrent (r : SchemaVersionRecord) : SchemaVersionRecord := { r with isCurrent := false }

theorem findEndpoint_eq_some {endpoints : List Endpoint} {key : EndpointKey} {e : Endpoint}
    (h : findEndpoint endpoints key = some e) : e ∈ endpoints ∧ e.key = key := by
  rw [findEndpoint] at h
  exact Keyed.mem_of_find?_key h

theorem findFingerprint_eq_some {versions : List SchemaVersionRecord} {e : Nat} {f : String}
    {r : SchemaVersionRecord} (h : findFingerprint versions e f = some r) :
    r ∈ versionsOf versions e ∧ r.fingerprint = f := by
  rw [findFingerprint] at h
  exact Keyed.mem_of_find?_key h

theorem versionsOf_map {f : SchemaVersionRecord → SchemaVersionRecord}
    (hf : ∀ r, (f r).endpointId = r.endpointId) (versions : List SchemaVersionRecord) (e : Nat) :
    versionsOf (versions.map f) e = (versionsOf versions e).map f := by
  rw [versionsOf, versionsOf, List.filter_map]
  congr 1
  apply List.filter_congr
  intro r _
  simp [hf]

theorem versionsOf_append (versions new : List SchemaVersionRecord) (e : Nat) :
    versionsOf (versions ++ new) e = versionsOf versions e ++ versionsOf new e :=
  List.filter_append _ _

theorem mem_versionsOf {versions : List SchemaVersionRecord} {e : Nat} {r : SchemaVersionRecord} :
    r ∈ versionsOf versions e ↔ r ∈ versions ∧ r.endpointId = e := by
  simp [versionsOf]

theorem findFingerprint_eq_none_iff (versions : List SchemaVersionRecord) (e : Nat) (f : String) :
    findFingerprint versions e f = none ↔ ∀ r ∈ versionsOf versions e, r.fingerprint ≠ f := by
  simp [findFingerprint]

theorem conflicts_iff {r s : SchemaVersionRecord} :
    conflicts r s ↔
      r.endpointId = s.endpointId ∧ (r.version = s.version ∨ r.fingerprint = s.fingerprint) := by
  simp [conflicts]

/-- What one endpoint's rows look like, listed in the order of their commits: versions
count from 1, each names its predecessor, and the last is the only current one. -/
structure History (rows : List SchemaVersionRecord) : Prop where
  version : ∀ i r, rows[i]? = some r → r.version = i + 1
  previous : ∀ i r, rows[i]? = some r →
    r.previousVersionId = if i = 0 then none else rows[i - 1]?.map SchemaVersionRecord.id
  current : ∀ i r, rows[i]? = some r → (r.isCurrent ↔ i + 1 = rows.length)
  fingerprints : (rows.map SchemaVersionRecord.fingerprint).Nodup

theorem history_nil : History [] :=
  ⟨by simp, by simp, by simp, by simp⟩

theorem History.version_le {rows : List SchemaVersionRecord} (h : History rows)
    {r : SchemaVersionRecord} (hr : r ∈ rows) : 1 ≤ r.version ∧ r.version ≤ rows.length := by
  obtain ⟨i, hi⟩ := List.mem_iff_getElem?.mp hr
  have hv := h.version i r hi
  have hl := (List.getElem?_eq_some_iff.mp hi).1
  omega

theorem History.exists_version {rows : List SchemaVersionRecord} (h : History rows) {v : Nat}
    (h1 : 1 ≤ v) (hv : v ≤ rows.length) : ∃ r ∈ rows, r.version = v := by
  obtain ⟨r, hi⟩ : ∃ r, rows[v - 1]? = some r := ⟨_, List.getElem?_eq_getElem (by omega)⟩
  refine ⟨r, List.mem_of_getElem? hi, ?_⟩
  have hr := h.version _ _ hi
  omega

theorem History.eq_of_version {rows : List SchemaVersionRecord} (h : History rows)
    {r s : SchemaVersionRecord} (hr : r ∈ rows) (hs : s ∈ rows) (he : r.version = s.version) :
    r = s := by
  obtain ⟨i, hi⟩ := List.mem_iff_getElem?.mp hr
  obtain ⟨j, hj⟩ := List.mem_iff_getElem?.mp hs
  have hvi := h.version i r hi
  have hvj := h.version j s hj
  have hij : i = j := by omega
  rw [hij, hj] at hi
  exact (Option.some.inj hi).symm

theorem History.isCurrent_iff {rows : List SchemaVersionRecord} (h : History rows)
    {r : SchemaVersionRecord} (hr : r ∈ rows) : r.isCurrent ↔ r.version = rows.length := by
  obtain ⟨i, hi⟩ := List.mem_iff_getElem?.mp hr
  rw [h.current i r hi, h.version i r hi]

theorem History.getLast? {rows : List SchemaVersionRecord} (h : History rows)
    {r : SchemaVersionRecord} (hr : r ∈ rows) (hv : r.version = rows.length) :
    rows.getLast? = some r := by
  obtain ⟨i, hi⟩ := List.mem_iff_getElem?.mp hr
  have hvi := h.version i r hi
  rw [List.getLast?_eq_getElem?, ← hv, hvi, Nat.add_sub_cancel, hi]

theorem History.nextVersion_getLast? {rows : List SchemaVersionRecord} (h : History rows) :
    nextVersion rows.getLast? = rows.length + 1 := by
  rw [List.getLast?_eq_getElem?]
  cases hr : rows[rows.length - 1]? with
  | none =>
    rw [List.getElem?_eq_none_iff] at hr
    simp only [nextVersion]
    omega
  | some r =>
    have hv := h.version _ r hr
    have hlt := (List.getElem?_eq_some_iff.mp hr).1
    simp only [nextVersion]
    omega

/-- The current rows of a history are its last row alone. -/
theorem History.filter_isCurrent {rows : List SchemaVersionRecord} (h : History rows) :
    rows.filter (fun r => r.isCurrent) = rows.getLast?.toList := by
  obtain rfl | ⟨init, last, rfl⟩ := List.eq_nil_or_concat' rows
  · rfl
  · have hinit : init.filter (fun r => r.isCurrent) = [] := by
      apply List.filter_eq_nil_iff.mpr
      intro r hr hc
      obtain ⟨i, hi⟩ := List.mem_iff_getElem?.mp hr
      have hlt := (List.getElem?_eq_some_iff.mp hi).1
      have hri : (init ++ [last])[i]? = some r := by rw [List.getElem?_append_left hlt, hi]
      have hlen := (h.current i r hri).mp hc
      simp only [List.length_append, List.length_singleton] at hlen
      omega
    have hlast : last.isCurrent := by
      have hi : (init ++ [last])[init.length]? = some last := by simp
      exact (h.current _ _ hi).mpr (by simp)
    rw [List.filter_append, hinit, List.getLast?_concat]
    simp [hlast]

theorem History.latest_current {rows : List SchemaVersionRecord} (h : History rows) :
    latest (rows.filter (fun r => r.isCurrent)) = rows.getLast? := by
  rw [h.filter_isCurrent]
  cases rows.getLast? <;> rfl

/-- Only these columns of the rows matter to a history. -/
theorem History.map {rows : List SchemaVersionRecord} (h : History rows)
    {f : SchemaVersionRecord → SchemaVersionRecord}
    (hf : ∀ r, (f r).id = r.id ∧ (f r).version = r.version ∧ (f r).fingerprint = r.fingerprint ∧
      (f r).previousVersionId = r.previousVersionId ∧ (f r).isCurrent = r.isCurrent) :
    History (rows.map f) := by
  have hget : ∀ (i : Nat) r, (rows.map f)[i]? = some r → ∃ s, rows[i]? = some s ∧ r = f s := by
    intro i r hi
    rw [List.getElem?_map, Option.map_eq_some_iff] at hi
    obtain ⟨s, hs, he⟩ := hi
    exact ⟨s, hs, he.symm⟩
  have hid : ∀ i : Nat, (rows.map f)[i]?.map SchemaVersionRecord.id =
      rows[i]?.map SchemaVersionRecord.id := by
    intro i
    rw [List.getElem?_map, Option.map_map]
    congr 1
    funext r
    exact (hf r).1
  refine ⟨?_, ?_, ?_, ?_⟩
  · intro i r hi
    obtain ⟨s, hs, rfl⟩ := hget i r hi
    rw [(hf s).2.1]
    exact h.version i s hs
  · intro i r hi
    obtain ⟨s, hs, rfl⟩ := hget i r hi
    rw [(hf s).2.2.2.1, hid]
    exact h.previous i s hs
  · intro i r hi
    obtain ⟨s, hs, rfl⟩ := hget i r hi
    rw [(hf s).2.2.2.2, List.length_map]
    exact h.current i s hs
  · have hmap : (rows.map f).map SchemaVersionRecord.fingerprint =
        rows.map SchemaVersionRecord.fingerprint := by
      rw [List.map_map]
      exact List.map_congr_left fun r _ => (hf r).2.2.1
    rw [hmap]
    exact h.fingerprints

/-- Clearing every row and adding one after the last keeps a history. -/
theorem History.concat {rows : List SchemaVersionRecord} (h : History rows)
    {new : SchemaVersionRecord} (hv : new.version = rows.length + 1)
    (hp : new.previousVersionId = previousId rows.getLast?) (hc : new.isCurrent = true)
    (hf : ∀ r ∈ rows, r.fingerprint ≠ new.fingerprint) :
    History (rows.map clearCurrent ++ [new]) := by
  have hlen : (rows.map clearCurrent).length = rows.length := List.length_map _
  have hget : ∀ i r, (rows.map clearCurrent ++ [new])[i]? = some r →
      (∃ s, rows[i]? = some s ∧ r = clearCurrent s) ∨ i = rows.length ∧ r = new := by
    intro i r hi
    by_cases hlt : i < rows.length
    · rw [List.getElem?_append_left (by omega), List.getElem?_map, Option.map_eq_some_iff] at hi
      obtain ⟨s, hs, rfl⟩ := hi
      exact .inl ⟨s, hs, rfl⟩
    · have hlt' := (List.getElem?_eq_some_iff.mp hi).1
      simp only [List.length_append, hlen, List.length_singleton] at hlt'
      have he : i = rows.length := by omega
      subst he
      rw [← hlen, List.getElem?_concat_length] at hi
      exact .inr ⟨rfl, (Option.some.inj hi).symm⟩
  have hid : ∀ i, i < rows.length →
      (rows.map clearCurrent ++ [new])[i]?.map SchemaVersionRecord.id =
        rows[i]?.map SchemaVersionRecord.id := by
    intro i hi
    rw [List.getElem?_append_left (by omega), List.getElem?_map, Option.map_map]
    rfl
  refine ⟨?_, ?_, ?_, ?_⟩
  · intro i r hi
    obtain ⟨s, hs, rfl⟩ | ⟨rfl, rfl⟩ := hget i r hi
    · exact h.version i s hs
    · exact hv
  · intro i r hi
    obtain ⟨s, hs, rfl⟩ | ⟨rfl, rfl⟩ := hget i r hi
    · have hlt := (List.getElem?_eq_some_iff.mp hs).1
      rw [hid (i - 1) (by omega)]
      exact h.previous i s hs
    · rw [hp, previousId, List.getLast?_eq_getElem?]
      split
      · next hz => simp [List.length_eq_zero_iff.mp hz]
      · rw [hid _ (by omega)]
  · intro i r hi
    simp only [List.length_append, hlen, List.length_singleton]
    obtain ⟨s, hs, rfl⟩ | ⟨rfl, rfl⟩ := hget i r hi
    · have hlt := (List.getElem?_eq_some_iff.mp hs).1
      simp only [clearCurrent, Bool.false_eq_true, false_iff]
      omega
    · simp [hc]
  · have hmap : (rows.map clearCurrent).map SchemaVersionRecord.fingerprint =
        rows.map SchemaVersionRecord.fingerprint := by
      rw [List.map_map]
      rfl
    refine Keyed.nodup_map_concat (hmap ▸ h.fingerprints) fun r' hr' => ?_
    obtain ⟨r, hr, rfl⟩ := List.mem_map.mp hr'
    exact hf r hr

end SchemaPilot.Registry
