import Mathlib.Data.List.Induction
import SchemaPilot.Newest
import SchemaPilot.MonitorRunner

namespace SchemaPilot.RetentionSweep

open MonitorRunner Newest

def hasSample (r : SchemaSnapshot) : Bool :=
  match r.rawSampleJson with
  | .value _ => true
  | _ => false

theorem isNotNull_of_hasSample {r : SchemaSnapshot} (h : hasSample r = true) :
    r.rawSampleJson.isNotNull = true := by
  rw [hasSample] at h
  split at h
  · next hraw =>
    rw [hraw]
    rfl
  · cases h

/-- The snapshots of its endpoint that are newer than a snapshot. -/
def newer (snapshots : List SchemaSnapshot) (r : SchemaSnapshot) : List SchemaSnapshot :=
  snapshots.filter (fun r' => r'.endpointId = r.endpointId && r.createdAt < r'.createdAt)

def withoutSample (r : SchemaSnapshot) : SchemaSnapshot := { r with rawSampleJson := .sqlNull }

/-- What a sweep is for: raw samples are left in the most recent snapshots of each endpoint, which
it does not touch, and nothing else has changed. -/
structure Swept (keep : Nat) (before after : List SchemaSnapshot) : Prop where
  columns : after.map withoutSample = before.map withoutSample
  bound : ∀ e, (after.filter (fun r => r.endpointId = e && hasSample r)).length ≤ keep
  recent : ∀ r ∈ after, hasSample r = true → (newer before r).length < keep
  kept : ∀ r ∈ before, (newer before r).length < keep → r ∈ after

/-- The columns by which the database identifies its snapshots. -/
structure Keys (db : Tables) : Prop where
  ids : (db.snapshots.map SchemaSnapshot.id).Nodup
  endpoints : ∀ r ∈ db.snapshots, r.endpointId ∈ db.endpoints.map ApiEndpoint.id
  created : ∀ e, ((db.snapshots.filter (fun r => r.endpointId = e)).map SchemaSnapshot.createdAt).Nodup

/-- What the sweeps over some endpoints do to a snapshot. -/
def sweepRow (keep : Nat) (snapshots : List SchemaSnapshot) (endpointIds : List Nat)
    (r : SchemaSnapshot) : SchemaSnapshot :=
  let kept := keepIds keep snapshots r.endpointId
  if r.endpointId ∈ endpointIds ∧ kept ≠ [] ∧ r.id ∉ kept ∧ r.rawSampleJson.isNotNull then
    { r with rawSampleJson := .jsonNull }
  else r

section Row

variable (keep : Nat) (snapshots : List SchemaSnapshot) (endpointIds : List Nat)

theorem sweepRow_onlySample : OnlySample (sweepRow keep snapshots endpointIds) := by
  intro r
  rw [sweepRow]
  split <;> rfl

theorem keepIds_eq (e : Nat) :
    keepIds keep snapshots e =
      (newest SchemaSnapshot.createdAt keep (snapshots.filter (fun r => r.endpointId = e))).map
        SchemaSnapshot.id :=
  rfl

theorem keepIds_map {g : SchemaSnapshot → SchemaSnapshot} (hg : OnlySample g) (e : Nat) :
    keepIds keep (snapshots.map g) e = keepIds keep snapshots e := by
  have hend : ((fun r : SchemaSnapshot => decide (r.endpointId = e)) ∘ g) =
      fun r => decide (r.endpointId = e) := by
    funext r
    rw [Function.comp_apply, hg r]
  have hid : SchemaSnapshot.id ∘ g = SchemaSnapshot.id := by
    funext r
    rw [Function.comp_apply, hg r]
  rw [keepIds_eq, keepIds_eq, List.filter_map, hend,
    newest_map SchemaSnapshot.createdAt (fun r => by rw [hg r]), List.map_map, hid]

/-- The sweep over one more endpoint. -/
theorem sweepEndpoint_map_sweepRow (e : Nat) :
    sweepEndpoint keep (snapshots.map (sweepRow keep snapshots endpointIds)) e =
      snapshots.map (sweepRow keep snapshots (endpointIds ++ [e])) := by
  rw [sweepEndpoint, keepIds_map keep snapshots (sweepRow_onlySample keep snapshots endpointIds)]
  split
  · next hnone =>
    apply List.map_congr_left
    intro r _
    by_cases he : r.endpointId = e
    · simp [sweepRow, he, hnone]
    · simp [sweepRow, he]
  · next hsome =>
    rw [List.map_map]
    apply List.map_congr_left
    intro r _
    rw [Function.comp_apply]
    by_cases he : r.endpointId = e
    · subst he
      by_cases hr : r.id ∈ keepIds keep snapshots r.endpointId
      · simp [sweepRow, hr]
      · cases hnull : r.rawSampleJson.isNotNull <;> by_cases hmem : r.endpointId ∈ endpointIds <;>
          simp [sweepRow, hr, hnull, hmem, hsome]
    · simp only [sweepRow, List.mem_append, List.mem_singleton, he, or_false]
      split <;> simp [he]

theorem foldl_sweepEndpoint :
    endpointIds.foldl (sweepEndpoint keep) snapshots =
      snapshots.map (sweepRow keep snapshots endpointIds) := by
  induction endpointIds using List.reverseRecOn with
  | nil =>
    have hid : sweepRow keep snapshots [] = id := by
      funext r
      simp [sweepRow]
    rw [hid, List.map_id]
    rfl
  | append_singleton endpointIds e ih =>
    rw [List.foldl_append, ih]
    exact sweepEndpoint_map_sweepRow keep snapshots endpointIds e

end Row

section Sweep

variable {c : Config} {db : Tables}

theorem retentionSweep_snapshots :
    (retentionSweep c db).snapshots = db.snapshots.map
      (sweepRow c.rawRetentionPerEndpoint db.snapshots (db.endpoints.map ApiEndpoint.id)) :=
  foldl_sweepEndpoint _ _ _

theorem eq_of_id (hk : Keys db) {r r' : SchemaSnapshot} (hr : r ∈ db.snapshots)
    (hr' : r' ∈ db.snapshots) (hid : r.id = r'.id) : r = r' :=
  List.inj_on_of_nodup_map hk.ids hr hr' hid

/-- Kept are the snapshots of which few enough of their endpoint are newer. -/
theorem mem_keepIds_iff (hk : Keys db) {keep : Nat} {r : SchemaSnapshot} (hr : r ∈ db.snapshots) :
    r.id ∈ keepIds keep db.snapshots r.endpointId ↔ (newer db.snapshots r).length < keep := by
  have hof : r ∈ db.snapshots.filter (fun r' => r'.endpointId = r.endpointId) :=
    List.mem_filter.mpr ⟨hr, by simp⟩
  have hmem : r.id ∈ keepIds keep db.snapshots r.endpointId ↔
      r ∈ newest SchemaSnapshot.createdAt keep
        (db.snapshots.filter (fun r' => r'.endpointId = r.endpointId)) := by
    rw [keepIds_eq]
    refine ⟨fun h => ?_, List.mem_map_of_mem⟩
    obtain ⟨r', hr', hid⟩ := List.mem_map.mp h
    have hmem' := (List.mem_filter.mp (mem_of_mem_newest _ hr')).1
    exact eq_of_id hk hmem' hr hid ▸ hr'
  rw [hmem, mem_newest_iff (hk.created r.endpointId), List.filter_filter]
  simp only [hof, true_and, newer, Bool.and_comm]

theorem keepIds_ne_nil {keep : Nat} (hkeep : 0 < keep) {r : SchemaSnapshot}
    (hr : r ∈ db.snapshots) : keepIds keep db.snapshots r.endpointId ≠ [] := by
  have hpos : 0 < (db.snapshots.filter (fun r' => r'.endpointId = r.endpointId)).length :=
    List.length_pos_of_mem (List.mem_filter.mpr ⟨hr, by simp⟩)
  apply List.ne_nil_of_length_pos
  rw [keepIds_eq, List.length_map, length_newest]
  exact Nat.lt_min.mpr ⟨hkeep, hpos⟩

variable {keep : Nat} (hkeep : 0 < keep) (hk : Keys db)

include hkeep hk in
/-- With a snapshot to keep, a sweep wipes the raw samples of the older ones. -/
theorem sweepRow_of_pos {r : SchemaSnapshot} (hr : r ∈ db.snapshots) :
    let r' := sweepRow keep db.snapshots (db.endpoints.map ApiEndpoint.id) r
    ((newer db.snapshots r).length < keep → r' = r) ∧
      (hasSample r' = true → (newer db.snapshots r).length < keep) := by
  rw [← mem_keepIds_iff hk hr, sweepRow]
  refine ⟨fun h => if_neg fun hc => hc.2.2.1 h, fun h => ?_⟩
  by_contra hout
  split at h
  · cases h
  · next hskip =>
    exact hskip ⟨hk.endpoints r hr, keepIds_ne_nil hkeep hr, hout, isNotNull_of_hasSample h⟩

include hkeep hk in
theorem length_samples_le (e : Nat) :
    ((db.snapshots.map (sweepRow keep db.snapshots (db.endpoints.map ApiEndpoint.id))).filter
      (fun r => r.endpointId = e && hasSample r)).length ≤ keep := by
  let g := sweepRow keep db.snapshots (db.endpoints.map ApiEndpoint.id)
  have hg : OnlySample g := sweepRow_onlySample _ _ _
  have hend : ∀ r, (g r).endpointId = r.endpointId := fun r => by rw [hg r]
  have hsub : (db.snapshots.filter ((fun r => r.endpointId = e && hasSample r) ∘ g)).map
      SchemaSnapshot.id ⊆ keepIds keep db.snapshots e := by
    intro id hid
    obtain ⟨r, hmem, rfl⟩ := List.mem_map.mp hid
    obtain ⟨hr, hsample⟩ := List.mem_filter.mp hmem
    rw [Function.comp_apply, Bool.and_eq_true, decide_eq_true_iff, hend r] at hsample
    obtain ⟨rfl, hsample⟩ := hsample
    exact (mem_keepIds_iff hk hr).mpr ((sweepRow_of_pos hkeep hk hr).2 hsample)
  have hnodup := hk.ids.sublist ((List.filter_sublist
    (p := (fun r => r.endpointId = e && hasSample r) ∘ g)).map SchemaSnapshot.id)
  calc _ = (db.snapshots.filter ((fun r => r.endpointId = e && hasSample r) ∘ g)).length := by
        rw [List.filter_map, List.length_map]
    _ ≤ (keepIds keep db.snapshots e).length := by
        rw [← List.length_map (f := SchemaSnapshot.id)]
        exact (List.subperm_of_subset hnodup hsub).length_le
    _ ≤ keep := by
        rw [keepIds_eq, List.length_map, length_newest]
        exact Nat.min_le_left _ _

include hkeep hk in
theorem swept_of_pos (hc : c.rawRetentionPerEndpoint = keep) :
    Swept keep db.snapshots (retentionSweep c db).snapshots := by
  rw [retentionSweep_snapshots, hc]
  have hrow : ∀ r ∈ db.snapshots, _ := fun r hr => sweepRow_of_pos hkeep hk hr
  refine ⟨?_, length_samples_le hkeep hk, fun r' hr' hsample => ?_, fun r hr hlt => ?_⟩
  · rw [List.map_map]
    apply List.map_congr_left
    intro r _
    rw [Function.comp_apply, sweepRow_onlySample]
    rfl
  · obtain ⟨r, hr, rfl⟩ := List.mem_map.mp hr'
    have hnewer : newer db.snapshots (sweepRow keep db.snapshots (db.endpoints.map ApiEndpoint.id) r) =
        newer db.snapshots r := by
      rw [sweepRow_onlySample]
      rfl
    exact hnewer ▸ (hrow r hr).2 hsample
  · exact List.mem_map.mpr ⟨r, hr, (hrow r hr).1 hlt⟩

/-- Where nothing is to be kept, every endpoint is skipped. -/
theorem retentionSweep_zero (hc : c.rawRetentionPerEndpoint = 0) :
    (retentionSweep c db).snapshots = db.snapshots := by
  have hrow : sweepRow 0 db.snapshots (db.endpoints.map ApiEndpoint.id) = id := by
    funext r
    exact if_neg fun h => h.2.1 rfl
  rw [retentionSweep_snapshots, hc, hrow, List.map_id]

include hk in
/-- A sweep leaves what the retention allows, unless the retention is 0 and there is a sample. -/
theorem swept_iff :
    Swept c.rawRetentionPerEndpoint db.snapshots (retentionSweep c db).snapshots ↔
      0 < c.rawRetentionPerEndpoint ∨ ∀ r ∈ db.snapshots, hasSample r = false := by
  constructor
  · intro h
    by_cases hpos : 0 < c.rawRetentionPerEndpoint
    · exact .inl hpos
    · have hzero : c.rawRetentionPerEndpoint = 0 := Nat.eq_zero_of_not_pos hpos
      refine .inr fun r hr => Bool.eq_false_iff.mpr fun hsample => hpos ?_
      rw [retentionSweep_zero hzero] at h
      exact Nat.zero_lt_of_lt (h.recent r hr hsample)
  · rintro (hpos | hnone)
    · exact swept_of_pos hpos hk rfl
    · by_cases hpos : 0 < c.rawRetentionPerEndpoint
      · exact swept_of_pos hpos hk rfl
      · have hzero : c.rawRetentionPerEndpoint = 0 := Nat.eq_zero_of_not_pos hpos
        rw [retentionSweep_zero hzero, hzero]
        refine ⟨rfl, fun e => ?_, fun r hr hsample => ?_, fun r hr _ => hr⟩
        · rw [List.filter_eq_nil_iff.mpr fun r hr => by simp [hnone r hr]]
          exact le_rfl
        · exact absurd hsample (by simp [hnone r hr])

end Sweep

section Example

def sampled (id createdAt : Nat) : SchemaSnapshot where
  id := id
  endpointId := 1
  monitorRunId := 1
  schemaHash := ""
  statusCode := 200
  responseTimeMs := 1
  responseSizeBytes := 2
  normalizedSchemaJson := .value []
  rawSampleJson := .value (.obj [])
  fetchError := none
  createdAt := createdAt

def sampledTables : Tables where
  endpoints := [⟨1, "users", true⟩]
  runs := []
  snapshots := [sampled 2 20, sampled 3 30]
  diffs := []

def retaining (keep : Nat) : Config where
  sha256 := fun _ => ""
  isPrintable := fun _ => true
  normalize := id
  rawRetentionPerEndpoint := keep

theorem sampledTables_keys : Keys sampledTables where
  ids := by decide
  endpoints := by decide
  created := by
    intro e
    by_cases he : 1 = e <;> simp [sampledTables, sampled, he]

theorem swept_one :
    Swept 1 sampledTables.snapshots (retentionSweep (retaining 1) sampledTables).snapshots :=
  (swept_iff (c := retaining 1) sampledTables_keys).mpr (.inl Nat.one_pos)

/-- With a retention of 0 both samples are left. -/
theorem not_swept_zero :
    Keys sampledTables ∧
      ¬Swept 0 sampledTables.snapshots (retentionSweep (retaining 0) sampledTables).snapshots := by
  refine ⟨sampledTables_keys, fun h => ?_⟩
  have hbound := h.bound 1
  revert hbound
  decide

end Example

end SchemaPilot.RetentionSweep
