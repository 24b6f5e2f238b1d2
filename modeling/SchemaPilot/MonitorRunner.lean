import Mathlib.Algebra.GroupWithZero.Nat
import SchemaPilot.Runs
import SchemaPilot.SchemaDiff

namespace SchemaPilot.MonitorRunner

open SchemaDiff SchemaHash SchemaInfer

/-- A JSONB column: an explicit `None` is stored as the JSON value null, which `IS NOT NULL`
lets pass. -/
inductive JsonColumn (α : Type) where
  | sqlNull
  | jsonNull
  | value (a : α)
  deriving DecidableEq

def JsonColumn.isNotNull {α : Type} : JsonColumn α → Bool
  | .sqlNull => false
  | _ => true

structure RegistryEntry where
  name : String
  isActive : Bool := true

structure ApiEndpoint where
  id : Nat
  name : String
  isActive : Bool
  deriving DecidableEq

inductive RunStatus where
  | running | success | partial_failure | failed
  deriving DecidableEq

structure MonitorRun where
  id : Nat
  startedAt : Nat
  finishedAt : Option Nat := none
  status : RunStatus
  endpointsChecked : Nat := 0
  snapshotsCreated : Nat := 0
  diffsDetected : Nat := 0
  errorMessage : Option String := none
  deriving DecidableEq

structure SchemaSnapshot where
  id : Nat
  endpointId : Nat
  monitorRunId : Nat
  schemaHash : String
  statusCode : Nat
  responseTimeMs : Nat
  responseSizeBytes : Nat
  normalizedSchemaJson : JsonColumn (List SchemaNode)
  rawSampleJson : JsonColumn Json
  fetchError : Option String
  createdAt : Nat
  deriving DecidableEq

structure DiffRow where
  endpointId : Nat
  oldSnapshotId : Option Nat
  newSnapshotId : Nat
  diff : Diff
  deriving DecidableEq

structure Tables where
  endpoints : List ApiEndpoint
  runs : List MonitorRun
  snapshots : List SchemaSnapshot
  diffs : List DiffRow

def Tables.empty : Tables := ⟨[], [], [], []⟩

structure Config where
  sha256 : ByteArray → String
  isPrintable : Char → Bool
  normalize : Json → Json
  rawRetentionPerEndpoint : Nat

/-- The body of a failed fetch, like a body that is the JSON value null, is `None`. -/
structure FetchResult where
  statusCode : Nat
  responseTimeMs : Nat
  responseSizeBytes : Nat
  body : Json := .null
  error : Option String := none

def FetchResult.ok (fetch : FetchResult) : Bool := fetch.error = none ∧ fetch.body ≠ .null

def FETCH_ERROR : String := "FETCH_ERROR:"

def isFetchError (schemaHash : String) : Bool := FETCH_ERROR.toList.isPrefixOf schemaHash.toList

/-- The snapshot that `_process_endpoint` adds for a fetch. -/
def FetchResult.snapshot (c : Config) (fetch : FetchResult) (id endpointId runId now : Nat) :
    SchemaSnapshot :=
  let normalizedBody := c.normalize fetch.body
  let nodes := inferSchema normalizedBody
  { id
    endpointId
    monitorRunId := runId
    schemaHash :=
      if fetch.ok then stableSchemaHash c.sha256 nodes else FETCH_ERROR ++ strOpt fetch.error
    statusCode := fetch.statusCode
    responseTimeMs := fetch.responseTimeMs
    responseSizeBytes := fetch.responseSizeBytes
    normalizedSchemaJson := if fetch.ok then .value nodes else .jsonNull
    rawSampleJson :=
      if fetch.ok then
        if normalizedBody = .null then .jsonNull else .value normalizedBody
      else .jsonNull
    fetchError := if fetch.ok then none else fetch.error
    createdAt := now }

def SchemaSnapshot.nodes (r : SchemaSnapshot) : List SchemaNode :=
  match r.normalizedSchemaJson with
  | .value nodes => nodes
  | _ => []

def getPriorSnapshot (snapshots : List SchemaSnapshot) (endpointId currentId : Nat) :
    Option SchemaSnapshot :=
  ((snapshots.filter (fun r => r.endpointId = endpointId ∧ r.id ≠ currentId ∧
      r.normalizedSchemaJson.isNotNull)).insertionSort
    (fun r r' => r'.createdAt ≤ r.createdAt)).head?

/-- The rows that `diff_schemas` gives for two snapshots. -/
def diffRows (c : Config) (prior snap : SchemaSnapshot) : List DiffRow :=
  (diffSchemas c.isPrintable prior.nodes snap.nodes).map
    (fun diff => ⟨snap.endpointId, some prior.id, snap.id, diff⟩)

def driftRows (c : Config) (prior : Option SchemaSnapshot) (snap : SchemaSnapshot) : List DiffRow :=
  match prior with
  | some prior =>
    if prior.schemaHash ≠ snap.schemaHash ∧ ¬isFetchError prior.schemaHash then diffRows c prior snap
    else []
  | none => []

/-- New names are inserted, which fails when one of them is listed twice; an endpoint that exists
takes its values from its last entry. The result is the table and the active endpoints. -/
def upsertEndpoints (nextId : Nat) (table : List ApiEndpoint) (entries : List RegistryEntry) :
    Option (List ApiEndpoint × List ApiEndpoint) :=
  let added := entries.filter (fun entry => entry.name ∉ table.map ApiEndpoint.name)
  if (added.map RegistryEntry.name).Nodup then
    let updated := table.map (fun ep =>
      match entries.reverse.find? (fun entry => entry.name = ep.name) with
      | some entry => { ep with isActive := entry.isActive }
      | none => ep)
    let inserted := added.mapIdx (fun n entry => ApiEndpoint.mk (nextId + n) entry.name entry.isActive)
    let table := updated ++ inserted
    let endpoints := entries.filterMap (fun entry => table.find? (fun ep => ep.name = entry.name))
    some (table, endpoints.filter ApiEndpoint.isActive)
  else none

/-- The ids of the most recent snapshots of an endpoint. -/
def keepIds (keep : Nat) (snapshots : List SchemaSnapshot) (endpointId : Nat) : List Nat :=
  (((snapshots.filter (fun r => r.endpointId = endpointId)).insertionSort
    (fun r r' => r'.createdAt ≤ r.createdAt)).take keep).map SchemaSnapshot.id

/-- An endpoint of which nothing is kept is skipped. -/
def sweepEndpoint (keep : Nat) (snapshots : List SchemaSnapshot) (endpointId : Nat) :
    List SchemaSnapshot :=
  let kept := keepIds keep snapshots endpointId
  if kept = [] then snapshots
  else
    snapshots.map (fun r =>
      if r.endpointId = endpointId ∧ r.id ∉ kept ∧ r.rawSampleJson.isNotNull then
        { r with rawSampleJson := .jsonNull }
      else r)

def retentionSweep (c : Config) (db : Tables) : Tables :=
  { db with
    snapshots := (db.endpoints.map ApiEndpoint.id).foldl (sweepEndpoint c.rawRetentionPerEndpoint)
      db.snapshots }

structure EndpointResult where
  endpointId : Nat
  name : String
  snapshotCreated : Bool := false
  diffsDetected : Nat := 0
  error : Option String := none

/-- What `gather` returns for a task: its result, or its exception. -/
inductive TaskPc where
  | done (result : EndpointResult)
  | raised

structure EndpointTask where
  endpoint : ApiEndpoint
  pc : TaskPc

def EndpointTask.result : EndpointTask → Option EndpointResult
  | ⟨_, .done result⟩ => some result
  | _ => none

def EndpointTask.isRaised (t : EndpointTask) : Bool :=
  match t.pc with
  | .raised => true
  | _ => false

def setRun (runs : List MonitorRun) (runId : Nat) (f : MonitorRun → MonitorRun) : List MonitorRun :=
  runs.map (fun run => if run.id = runId then f run else run)

/-- What the last UPDATE of a run that ends normally writes. -/
def finish (now : Nat) (tasks : List EndpointTask) (run : MonitorRun) : MonitorRun :=
  let results := tasks.filterMap EndpointTask.result
  let failed := tasks.any EndpointTask.isRaised || results.any (fun r => r.error.any (· ≠ ""))
  { run with
    finishedAt := some now
    status := if failed then .partial_failure else .success
    endpointsChecked := tasks.length
    snapshotsCreated := results.countP EndpointResult.snapshotCreated
    diffsDetected := (results.map EndpointResult.diffsDetected).sum }

def recordFailed (now : Nat) (message : String) (run : MonitorRun) : MonitorRun :=
  { run with finishedAt := some now, status := .failed, errorMessage := some message }

section Hashes

theorem isFetchError_append (text : String) : isFetchError (FETCH_ERROR ++ text) = true := by
  rw [isFetchError, String.toList_append, List.isPrefixOf_iff_prefix]
  exact List.prefix_append _ _

/-- What `hexdigest` returns. -/
def IsHex (text : String) : Prop := ∀ ch ∈ text.toList, ch ∈ "0123456789abcdef".toList

theorem isFetchError_of_isHex {text : String} (h : IsHex text) : isFetchError text = false := by
  by_contra hne
  rw [Bool.not_eq_false, isFetchError, List.isPrefixOf_iff_prefix] at hne
  have hmem : 'F' ∈ text.toList := hne.subset (by decide)
  exact absurd (h 'F' hmem) (by decide)

end Hashes

section Sweep

/-- A change of raw samples only. -/
def OnlySample (g : SchemaSnapshot → SchemaSnapshot) : Prop :=
  ∀ r, g r = { r with rawSampleJson := (g r).rawSampleJson }

theorem sweepEndpoint_eq_map (keep : Nat) (snapshots : List SchemaSnapshot) (e : Nat) :
    ∃ g, OnlySample g ∧ sweepEndpoint keep snapshots e = snapshots.map g := by
  unfold sweepEndpoint
  dsimp only
  split
  · exact ⟨id, fun _ => rfl, (List.map_id _).symm⟩
  · refine ⟨_, fun r => ?_, rfl⟩
    split <;> rfl

theorem retentionSweep_eq_map (c : Config) (db : Tables) :
    ∃ g, OnlySample g ∧ (retentionSweep c db).snapshots = db.snapshots.map g := by
  have hfold : ∀ (es : List Nat) (snapshots : List SchemaSnapshot), ∃ g, OnlySample g ∧
      es.foldl (sweepEndpoint c.rawRetentionPerEndpoint) snapshots = snapshots.map g := by
    intro es
    induction es with
    | nil => exact fun snapshots => ⟨id, fun _ => rfl, (List.map_id _).symm⟩
    | cons e es ih =>
      intro snapshots
      obtain ⟨g, hg, heq⟩ := sweepEndpoint_eq_map c.rawRetentionPerEndpoint snapshots e
      obtain ⟨g', hg', heq'⟩ := ih (snapshots.map g)
      refine ⟨g' ∘ g, fun r => ?_, ?_⟩
      · rw [Function.comp_apply, hg' (g r), hg r]
      · rw [List.foldl_cons, heq, heq', List.map_map]
  exact hfold _ _

end Sweep

section Sample

/-- The digests of the two schemas of the sample; hexadecimal everywhere. -/
def sampleDigest (b : ByteArray) : String :=
  if b.data = "[]".toUTF8.data then "4f53cda18c2baa0c0354bb5f9a3ecbe5ed12ab4d8e11ba873c2f11161202b945"
  else "4820ece8d3b96b22da666d3f7aab400cbd7bf522a6472054bd61d6217ab753dc"

theorem isHex_of_all {text : String}
    (h : text.toList.all (fun ch => "0123456789abcdef".toList.contains ch) = true) : IsHex text :=
  fun ch hch => List.contains_iff_mem.mp (List.all_eq_true.mp h ch hch)

theorem isHex_sampleDigest (b : ByteArray) : IsHex (sampleDigest b) := by
  rw [sampleDigest]
  split
  · exact isHex_of_all (by decide +kernel)
  · exact isHex_of_all (by decide +kernel)

theorem isFetchError_sampleSha256 {table : List (String × String)}
    (h : ∀ e ∈ table, isFetchError e.2 = false) (b : ByteArray) :
    isFetchError (Digest.sampleSha256 table b) = false := by
  rw [Digest.sampleSha256]
  split
  · next e he => exact h e (List.mem_of_find?_eq_some he)
  · rw [isFetchError, String.toList_ofList]
    rfl

def sampleConfig : Config := ⟨sampleDigest, fun _ => true, id, 10⟩

end Sample

end SchemaPilot.MonitorRunner
