import Mathlib.Data.List.Induction
import Mathlib.Logic.Function.Basic
import SchemaPilot.IsoTime
import SchemaPilot.Json
import SchemaPilot.Newest

namespace SchemaPilot.DocumentStore

open Keyed IsoTime Newest

inductive Collection where
  | payload_snapshots | schema_diffs | validation_errors | replay_artifacts
  deriving DecidableEq

/-- A document, with the fields of its kind. -/
structure Document where
  id : String
  documentId : String
  kind : String
  createdAt : String
  fields : List (String × Json)
  deriving DecidableEq

def document (id : String) (now : DateTime) (kind : String) (fields : List (String × Json)) :
    Document where
  id := id
  documentId := id
  kind := kind
  createdAt := now.isoformat
  fields := fields

abbrev Fields := List (String × Json)

/-- The `store_*` calls with their arguments. -/
inductive StoreCall where
  | storePayloadSnapshot (namespace_ serviceName httpMethod routePath : String) (payload : Fields)
    (fingerprint classification source : String) (schemaVersion : Option Int) (metadata : Option Fields)
  | storeSchemaDiff (endpointId endpointName namespace_ serviceName httpMethod routePath
    oldFingerprint newFingerprint : String) (oldVersion newVersion : Int) (classification : String)
    (diffs : List Fields) (source : String)
  | storeValidationError (source path : String) (errors : List Fields) (rawBody : String)
    (metadata : Option Fields)
  | storeReplayArtifact (source artifactType : String) (payload : Fields) (metadata : Option Fields)

def StoreCall.collection : StoreCall → Collection
  | .storePayloadSnapshot .. => .payload_snapshots
  | .storeSchemaDiff .. => .schema_diffs
  | .storeValidationError .. => .validation_errors
  | .storeReplayArtifact .. => .replay_artifacts

def StoreCall.kind : StoreCall → String
  | .storePayloadSnapshot .. => "payload_snapshot"
  | .storeSchemaDiff .. => "schema_diff"
  | .storeValidationError .. => "validation_error"
  | .storeReplayArtifact .. => "replay_artifact"

def StoreCall.fields : StoreCall → Fields
  | .storePayloadSnapshot namespace_ serviceName httpMethod routePath payload fingerprint classification
      source schemaVersion metadata =>
    [("namespace", .str namespace_), ("service_name", .str serviceName), ("http_method", .str httpMethod),
      ("route_path", .str routePath), ("payload", .obj payload), ("fingerprint", .str fingerprint),
      ("classification", .str classification), ("source", .str source),
      ("schema_version", (schemaVersion.map fun n => .num (.int n)).getD .null),
      ("metadata", .obj (metadata.getD []))]
  | .storeSchemaDiff endpointId endpointName namespace_ serviceName httpMethod routePath oldFingerprint
      newFingerprint oldVersion newVersion classification diffs source =>
    [("endpoint_id", .str endpointId), ("endpoint_name", .str endpointName), ("namespace", .str namespace_),
      ("service_name", .str serviceName), ("http_method", .str httpMethod), ("route_path", .str routePath),
      ("old_fingerprint", .str oldFingerprint), ("new_fingerprint", .str newFingerprint),
      ("old_version", .num (.int oldVersion)), ("new_version", .num (.int newVersion)),
      ("classification", .str classification), ("diffs", .arr (diffs.map .obj)), ("source", .str source)]
  | .storeValidationError source path errors rawBody metadata =>
    [("source", .str source), ("path", .str path), ("errors", .arr (errors.map .obj)),
      ("raw_body", .str rawBody), ("metadata", .obj (metadata.getD []))]
  | .storeReplayArtifact source artifactType payload metadata =>
    [("source", .str source), ("artifact_type", .str artifactType), ("payload", .obj payload),
      ("metadata", .obj (metadata.getD []))]

/-- The dicts of the store, one for each collection. -/
abbrev Collections := Collection → List (String × Document)

def insert (store : Collections) (collection : Collection) (document : Document) : Collections :=
  Function.update store collection (set (store collection) document.id document)

/-- `_list`, which every `list_*` calls with its collection. -/
def list (store : Collections) (collection : Collection) (limit : Nat) : List Document :=
  newest Document.createdAt limit ((store collection).map Prod.snd)

/-- A call, with the id that it draws and the time that it reads. -/
structure Stored where
  call : StoreCall
  id : String
  now : DateTime

def Stored.document (s : Stored) : Document := DocumentStore.document s.id s.now s.call.kind s.call.fields

def Stored.run (store : Collections) (s : Stored) : Collections :=
  insert store s.call.collection s.document

def run (history : List Stored) : Collections := history.foldl Stored.run (fun _ => [])

/-- The calls that have stored a document of a collection. -/
def storedIn (history : List Stored) (c : Collection) : List Stored :=
  history.filter (fun s => s.call.collection = c)

variable {history : List Stored} (hids : (history.map Stored.id).Nodup)

include hids in
theorem run_eq (c : Collection) :
    run history c = (storedIn history c).map (fun s => (s.id, s.document)) := by
  induction history using List.reverseRecOn with
  | nil => rfl
  | append_singleton history s ih =>
    rw [List.map_append, List.map_singleton] at hids
    have hhistory := (List.nodup_append.mp hids).1
    have hnew : ∀ t ∈ history, t.id ≠ s.id := fun t ht =>
      (List.nodup_append.mp hids).2.2 _ (List.mem_map_of_mem ht) _ (List.mem_singleton_self _)
    have hrun : run (history ++ [s]) = Stored.run (run history) s := by
      rw [run, List.foldl_concat]
      rfl
    rw [hrun, Stored.run, insert, storedIn, List.filter_append, List.filter_singleton]
    by_cases hc : s.call.collection = c
    · subst hc
      have hkey : s.id ∉ keys (run history s.call.collection) := by
        rw [ih hhistory, keys, List.map_map]
        intro hmem
        obtain ⟨t, ht, hid⟩ := List.mem_map.mp hmem
        exact hnew t (List.mem_filter.mp ht).1 hid
      rw [Function.update_self, decide_eq_true rfl, cond_true, List.map_append]
      rw [show s.document.id = s.id from rfl, set_of_not_mem hkey, ih hhistory]
      rfl
    · rw [Function.update_of_ne (Ne.symm hc), ih hhistory, decide_eq_false hc, cond_false, List.append_nil]
      rfl

include hids in
/-- A listing is of the calls whose texts of the time are the greatest. -/
theorem list_run (c : Collection) (limit : Nat) :
    list (run history) c limit =
      (newest (fun s : Stored => s.now.isoformat) limit (storedIn history c)).map Stored.document := by
  rw [list, run_eq hids, List.map_map]
  exact newest_map _ (fun _ => rfl) limit _

include hids in
/-- A listing has as many documents as there are up to the limit, none twice, the newest ones, and
the newest first, by the time of the call that has stored each. -/
theorem list_newest (c : Collection) (limit : Nat) :
    ∃ listed : List Stored,
      list (run history) c limit = listed.map Stored.document ∧
      (∀ s ∈ listed, s ∈ history ∧ s.call.collection = c) ∧
      (list (run history) c limit).length = min limit (storedIn history c).length ∧
      ((list (run history) c limit).map Document.id).Nodup ∧
      listed.Pairwise (fun s t => t.now.timestamp ≤ s.now.timestamp) ∧
      ∀ s ∈ history, s.call.collection = c → s.id ∉ (list (run history) c limit).map Document.id →
        ∀ t ∈ listed, s.now.timestamp ≤ t.now.timestamp := by
  let text := fun s : Stored => s.now.isoformat
  have hle : ∀ s t : Stored, text t ≤ text s → t.now.timestamp ≤ s.now.timestamp :=
    fun s t h => not_lt.mp fun hlt => not_lt.mpr h (isoformat_lt hlt)
  let listed := newest text limit (storedIn history c)
  have hmem : ∀ s ∈ listed, s ∈ history ∧ s.call.collection = c := by
    intro s hs
    obtain ⟨hs, hc⟩ := List.mem_filter.mp (mem_of_mem_newest _ hs)
    exact ⟨hs, of_decide_eq_true hc⟩
  rw [list_run hids]
  refine ⟨listed, rfl, hmem, ?_, ?_, ?_, fun s hs hc hout t ht => ?_⟩
  · rw [List.length_map, length_newest]
  · rw [List.map_map]
    exact nodup_map_newest _ (hids.sublist (List.filter_sublist.map _))
  · exact (pairwise_newest text limit (storedIn history c)).imp (hle _ _)
  · have hstored : s ∈ storedIn history c := List.mem_filter.mpr ⟨hs, decide_eq_true hc⟩
    have hleft : s ∉ listed := fun h => hout (List.mem_map_of_mem (List.mem_map_of_mem h))
    exact hle t s (key_le_of_not_mem_newest text ht hstored hleft)

def noon (microsecond : Nat) (h : microsecond < 1000000) : DateTime where
  year := 2026
  month := 2
  day := 28
  hour := 12
  minute := 0
  second := 0
  microsecond := microsecond
  year_mem := by decide
  month_mem := by decide
  day_mem := by decide
  hour_lt := by decide
  minute_lt := by decide
  second_lt := by decide
  microsecond_lt := h

def sampleHistory : List Stored :=
  [⟨.storeReplayArtifact "runtime-dlq" "dlq_replay" [] none, "a", noon 0 (by decide)⟩,
    ⟨.storeReplayArtifact "runtime-dlq" "dlq_replay" [] none, "b", noon 250000 (by decide)⟩]

/-- Half of a listing across the fraction that is left out. -/
theorem list_newest_fraction :
    (list (run sampleHistory) .replay_artifacts 1).map Document.createdAt =
        ["2026-02-28T12:00:00.250000+00:00"] ∧
      ∃ listed : List Stored,
        list (run sampleHistory) .replay_artifacts 1 = listed.map Stored.document ∧
        (∀ s ∈ listed, s ∈ sampleHistory ∧ s.call.collection = .replay_artifacts) ∧
        (list (run sampleHistory) .replay_artifacts 1).length =
          min 1 (storedIn sampleHistory .replay_artifacts).length ∧
        ((list (run sampleHistory) .replay_artifacts 1).map Document.id).Nodup ∧
        listed.Pairwise (fun s t => t.now.timestamp ≤ s.now.timestamp) ∧
        ∀ s ∈ sampleHistory, s.call.collection = .replay_artifacts →
          s.id ∉ (list (run sampleHistory) .replay_artifacts 1).map Document.id →
            ∀ t ∈ listed, s.now.timestamp ≤ t.now.timestamp :=
  ⟨by decide +kernel, list_newest (by decide) .replay_artifacts 1⟩

end SchemaPilot.DocumentStore
