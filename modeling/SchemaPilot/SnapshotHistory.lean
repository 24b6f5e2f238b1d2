import SchemaPilot.MonitorRunner

namespace SchemaPilot.SnapshotHistory

open Keyed MonitorRunner SchemaDiff SchemaHash SchemaInfer

/-- The fetch of the snapshot succeeded: it has a schema. -/
def Succeeded (r : SchemaSnapshot) : Prop := r.normalizedSchemaJson = .value r.nodes

/-- The snapshots of an endpoint have different creation times. -/
def Increasing (db : Tables) (e : Nat) : Prop :=
  ∀ r ∈ db.snapshots, ∀ r' ∈ db.snapshots, r.endpointId = e → r'.endpointId = e →
    r.createdAt = r'.createdAt → r = r'

/-- The most recent earlier snapshot of the endpoint, failed fetches included. -/
structure IsPrior (db : Tables) (snap prior : SchemaSnapshot) : Prop where
  mem : prior ∈ db.snapshots
  endpoint : prior.endpointId = snap.endpointId
  earlier : prior.createdAt < snap.createdAt
  latest : ∀ r ∈ db.snapshots, r.endpointId = snap.endpointId → r.createdAt < snap.createdAt →
    r.createdAt ≤ prior.createdAt

def rowsOf (db : Tables) (id : Nat) : List DiffRow := db.diffs.filter (fun d => d.newSnapshotId = id)

/-- A snapshot has the schema of a body, or stands for a fetch that failed. -/
def SnapshotOk (c : Config) (r : SchemaSnapshot) : Prop :=
  (Succeeded r ∧ r.schemaHash = stableSchemaHash c.sha256 r.nodes ∧ (r.nodes.map SchemaNode.path).Nodup) ∨
    (r.normalizedSchemaJson = .jsonNull ∧ isFetchError r.schemaHash = true)

/-- The drift of every snapshot that its task has compared is that from its prior snapshot. -/
structure HistoryOk (c : Config) (db : Tables) (n now : Nat) (uncompared : Nat → Prop) : Prop where
  ids : (db.snapshots.map SchemaSnapshot.id).Nodup
  bound : ∀ r ∈ db.snapshots, r.id < n
  past : ∀ r ∈ db.snapshots, r.createdAt < now
  shape : ∀ r ∈ db.snapshots, SnapshotOk c r
  known : ∀ d ∈ db.diffs, d.newSnapshotId < n
  fresh : ∀ id, uncompared id → rowsOf db id = []
  drift : ∀ snap ∈ db.snapshots, Succeeded snap → ¬uncompared snap.id → Increasing db snap.endpointId →
    ∀ prior, IsPrior db snap prior → rowsOf db snap.id = driftRows c (some prior) snap

section History

variable {c : Config} {db : Tables} {n now : Nat} {uncompared : Nat → Prop}

theorem historyOk_empty (c : Config) (n now : Nat) (uncompared : Nat → Prop) :
    HistoryOk c .empty n now uncompared := by
  constructor <;> simp [Tables.empty, rowsOf]

theorem HistoryOk.mono (h : HistoryOk c db n now uncompared) {n' now' : Nat} (hn : n ≤ n')
    (hnow : now ≤ now') : HistoryOk c db n' now' uncompared :=
  ⟨h.ids, fun r hr => (h.bound r hr).trans_le hn, fun r hr => (h.past r hr).trans_le hnow, h.shape,
    fun d hd => (h.known d hd).trans_le hn, h.fresh, h.drift⟩

/-- The history is about the snapshots and the diffs. -/
theorem HistoryOk.congr (h : HistoryOk c db n now uncompared) {db' : Tables}
    (hs : db'.snapshots = db.snapshots) (hd : db'.diffs = db.diffs) {uncompared' : Nat → Prop}
    (hp : ∀ id, uncompared' id ↔ uncompared id) : HistoryOk c db' n now uncompared' := by
  obtain ⟨endpoints, runs, snapshots, diffs⟩ := db
  obtain ⟨endpoints', runs', snapshots', diffs'⟩ := db'
  obtain rfl : snapshots' = snapshots := hs
  obtain rfl : diffs' = diffs := hd
  obtain rfl : uncompared' = uncompared := funext fun id => propext (hp id)
  refine ⟨h.ids, h.bound, h.past, h.shape, h.known, h.fresh, fun snap hsnap hok hopen hinc prior hprior => ?_⟩
  exact h.drift snap hsnap hok hopen hinc prior
    ⟨hprior.mem, hprior.endpoint, hprior.earlier, hprior.latest⟩

theorem rowsOf_eq_nil {id : Nat} (h : ∀ d ∈ db.diffs, d.newSnapshotId ≠ id) : rowsOf db id = [] := by
  rw [rowsOf, List.filter_eq_nil_iff]
  exact fun d hd => by simpa using h d hd

/-- Which snapshots are compared matters for those that have drift. -/
theorem HistoryOk.recount (h : HistoryOk c db n now uncompared) {uncompared' : Nat → Prop}
    (hfresh : ∀ id, uncompared' id → uncompared id ∨ n ≤ id)
    (hdrift : ∀ snap ∈ db.snapshots, Succeeded snap → uncompared snap.id → uncompared' snap.id) :
    HistoryOk c db n now uncompared' := by
  refine ⟨h.ids, h.bound, h.past, h.shape, h.known, fun id hid => ?_,
    fun snap hsnap hok hcompared => h.drift snap hsnap hok fun hopen => hcompared (hdrift snap hsnap hok hopen)⟩
  obtain hid | hle := hfresh id hid
  · exact h.fresh id hid
  · exact rowsOf_eq_nil fun d hd => ((h.known d hd).trans_le hle).ne

/-- A snapshot that a run inserts is no older than the others. -/
theorem HistoryOk.insert (h : HistoryOk c db n (now + 1) uncompared) {r : SchemaSnapshot} (hid : r.id = n)
    (hnow : r.createdAt = now) (hshape : SnapshotOk c r) {uncompared' : Nat → Prop}
    (hp : ∀ id, uncompared' id → uncompared id ∨ id = n) (hkeep : ∀ id, uncompared id → uncompared' id)
    (hself : Succeeded r → uncompared' n) :
    HistoryOk c { db with snapshots := db.snapshots ++ [r] } (n + 1) (now + 1) uncompared' := by
  have hmem : ∀ r' ∈ db.snapshots ++ [r], r' ∈ db.snapshots ∨ r' = r := fun r' hr' =>
    (List.mem_append.mp hr').imp_right List.mem_singleton.mp
  refine ⟨?_, fun r' hr' => ?_, fun r' hr' => ?_, fun r' hr' => ?_, fun d hd => Nat.lt_succ_of_lt (h.known d hd),
    fun id hopen => ?_, fun snap hsnap hok hopen hinc prior hprior => ?_⟩
  · exact Keyed.nodup_map_concat h.ids fun r' hr' => hid ▸ (h.bound r' hr').ne
  · obtain hr' | rfl := hmem r' hr'
    · exact Nat.lt_succ_of_lt (h.bound r' hr')
    · omega
  · obtain hr' | rfl := hmem r' hr'
    · exact h.past r' hr'
    · omega
  · obtain hr' | rfl := hmem r' hr'
    · exact h.shape r' hr'
    · exact hshape
  · obtain hopen | rfl := hp id hopen
    · exact h.fresh id hopen
    · exact rowsOf_eq_nil fun d hd => (h.known d hd).ne
  · obtain hold | rfl := hmem snap hsnap
    · have hpast := h.past snap hold
      have hprior' : prior ∈ db.snapshots := by
        obtain hprior' | rfl := hmem prior hprior.mem
        · exact hprior'
        · have := hprior.earlier
          omega
      refine h.drift snap hold hok (fun hp' => hopen (hkeep _ hp')) (fun r₁ h₁ r₂ h₂ => ?_) prior
        ⟨hprior', hprior.endpoint, hprior.earlier,
          fun r' hr' => hprior.latest r' (List.mem_append_left _ hr')⟩
      exact hinc r₁ (List.mem_append_left _ h₁) r₂ (List.mem_append_left _ h₂)
    · exact absurd (hid ▸ hself hok) hopen

theorem rowsOf_append (db : Tables) (rows : List DiffRow) (id : Nat) :
    rowsOf { db with diffs := db.diffs ++ rows } id =
      rowsOf db id ++ rows.filter (fun d => d.newSnapshotId = id) :=
  List.filter_append _ _

theorem newSnapshotId_of_mem_driftRows {prior : Option SchemaSnapshot} {snap : SchemaSnapshot} {d : DiffRow}
    (h : d ∈ driftRows c prior snap) : d.newSnapshotId = snap.id := by
  unfold driftRows at h
  split at h
  · split at h
    · obtain ⟨diff, -, rfl⟩ := List.mem_map.mp h
      rfl
    · cases h
  · cases h

/-- The task of a snapshot that had no diffs inserts them. -/
theorem HistoryOk.insertDiffs (h : HistoryOk c db n now uncompared) {snap : SchemaSnapshot}
    {prior : Option SchemaSnapshot} (hsnap : snap ∈ db.snapshots) (hopen : uncompared snap.id)
    (hprior : ∀ p, Increasing db snap.endpointId → IsPrior db snap p → prior = some p)
    {uncompared' : Nat → Prop} (hp : ∀ id, uncompared' id ↔ uncompared id ∧ id ≠ snap.id) :
    HistoryOk c { db with diffs := db.diffs ++ driftRows c prior snap } n now uncompared' := by
  have hother : ∀ id, id ≠ snap.id →
      rowsOf { db with diffs := db.diffs ++ driftRows c prior snap } id = rowsOf db id := by
    intro id hne
    rw [rowsOf_append, List.filter_eq_nil_iff.mpr, List.append_nil]
    intro d hd
    rw [newSnapshotId_of_mem_driftRows hd]
    simpa using hne.symm
  have hself : rowsOf { db with diffs := db.diffs ++ driftRows c prior snap } snap.id =
      driftRows c prior snap := by
    rw [rowsOf_append, h.fresh snap.id hopen, List.nil_append, List.filter_eq_self]
    exact fun d hd => decide_eq_true (newSnapshotId_of_mem_driftRows hd)
  refine ⟨h.ids, h.bound, h.past, h.shape, fun d hd => ?_, fun id hopen => ?_,
    fun snap' hsnap' hok hopen hinc p hp' => ?_⟩
  · obtain hd | hd := List.mem_append.mp hd
    · exact h.known d hd
    · exact newSnapshotId_of_mem_driftRows hd ▸ h.bound snap hsnap
  · obtain ⟨hopen, hne⟩ := (hp id).mp hopen
    rw [hother id hne]
    exact h.fresh id hopen
  · have hp₀ : IsPrior db snap' p := ⟨hp'.mem, hp'.endpoint, hp'.earlier, hp'.latest⟩
    by_cases hid : snap'.id = snap.id
    · obtain rfl := List.inj_on_of_nodup_map h.ids hsnap' hsnap hid
      rw [hself, hprior p hinc hp₀]
    · rw [hother _ hid]
      exact h.drift snap' hsnap' hok (fun hopen' => hopen ((hp _).mpr ⟨hopen', hid⟩)) hinc p hp₀

theorem HistoryOk.map (h : HistoryOk c db n now uncompared) {g : SchemaSnapshot → SchemaSnapshot}
    (hg : OnlySample g) : HistoryOk c { db with snapshots := db.snapshots.map g } n now uncompared := by
  have hid : ∀ r, (g r).id = r.id := fun r => by rw [hg r]
  have hend : ∀ r, (g r).endpointId = r.endpointId := fun r => by rw [hg r]
  have hcreated : ∀ r, (g r).createdAt = r.createdAt := fun r => by rw [hg r]
  have hjson : ∀ r, (g r).normalizedSchemaJson = r.normalizedSchemaJson := fun r => by rw [hg r]
  have hhash : ∀ r, (g r).schemaHash = r.schemaHash := fun r => by rw [hg r]
  have hnodes : ∀ r, (g r).nodes = r.nodes := fun r => by rw [SchemaSnapshot.nodes, hjson]; rfl
  have hok : ∀ r, Succeeded (g r) ↔ Succeeded r := fun r => by rw [Succeeded, Succeeded, hjson, hnodes]
  have hdrift : ∀ p r, driftRows c (some (g p)) (g r) = driftRows c (some p) r := by
    intro p r
    simp only [driftRows, diffRows, hid, hend, hhash, hnodes]
  have hmem : ∀ r' ∈ db.snapshots.map g, ∃ r ∈ db.snapshots, g r = r' := fun _ => List.mem_map.mp
  refine ⟨?_, fun r' hr' => ?_, fun r' hr' => ?_, fun r' hr' => ?_, h.known, h.fresh,
    fun snap' hsnap' hs hopen hinc prior' hprior' => ?_⟩
  · rw [List.map_map]
    exact (List.map_congr_left fun r _ => hid r) ▸ h.ids
  · obtain ⟨r, hr, rfl⟩ := hmem r' hr'
    exact (hid r).symm ▸ h.bound r hr
  · obtain ⟨r, hr, rfl⟩ := hmem r' hr'
    exact (hcreated r).symm ▸ h.past r hr
  · obtain ⟨r, hr, rfl⟩ := hmem r' hr'
    rw [SnapshotOk]
    rw [hok, hhash, hnodes, hjson]
    exact h.shape r hr
  · obtain ⟨snap, hsnap, rfl⟩ := hmem snap' hsnap'
    obtain ⟨prior, hprior, rfl⟩ := hmem prior' hprior'.mem
    have hinc' : Increasing db snap.endpointId := by
      intro r₁ h₁ r₂ h₂ he₁ he₂ hcr
      apply List.inj_on_of_nodup_map h.ids h₁ h₂
      have heq := hinc (g r₁) (List.mem_map_of_mem h₁) (g r₂) (List.mem_map_of_mem h₂)
        (by rw [hend, hend, he₁]) (by rw [hend, hend, he₂]) (by rw [hcreated, hcreated, hcr])
      rw [← hid r₁, ← hid r₂, heq]
    have hp : IsPrior db snap prior := by
      obtain ⟨-, he, hlt, hlatest⟩ := hprior'
      rw [hend, hend] at he
      rw [hcreated, hcreated] at hlt
      refine ⟨hprior, he, hlt, fun r hr her hlr => ?_⟩
      have hle := hlatest (g r) (List.mem_map_of_mem hr) (by rw [hend, hend, her])
        (by rw [hcreated, hcreated]; exact hlr)
      rwa [hcreated, hcreated] at hle
    have hrows := h.drift snap hsnap ((hok snap).mp hs) (hid snap ▸ hopen) hinc' prior hp
    rw [hid, hdrift]
    exact hrows

end History

/-- The query for the prior snapshot finds it, whatever of the run it is made in is written by then. -/
theorem getPriorSnapshot_eq {c : Config} {db : Tables} {n now : Nat} {uncompared : Nat → Prop}
    (h : HistoryOk c db n (now + 1) uncompared) {written : List SchemaSnapshot}
    (hwritten : ∀ r ∈ written, r ∈ db.snapshots) (hold : ∀ r ∈ db.snapshots, r.createdAt < now → r ∈ written)
    {snap prior : SchemaSnapshot} (hsnap : snap ∈ db.snapshots) (hnow : snap.createdAt = now)
    (hinc : Increasing db snap.endpointId) (hprior : IsPrior db snap prior) :
    getPriorSnapshot written snap.endpointId snap.id = some prior := by
  have hnull : ∀ r ∈ db.snapshots, r.normalizedSchemaJson.isNotNull = true := by
    intro r hr
    obtain ⟨hs, -⟩ | ⟨hs, -⟩ := h.shape r hr
    · rw [hs]
      rfl
    · rw [hs]
      rfl
  have hcandidate : ∀ r ∈ written.filter (fun r => r.endpointId = snap.endpointId ∧ r.id ≠ snap.id ∧
      r.normalizedSchemaJson.isNotNull), r ∈ db.snapshots ∧ r.endpointId = snap.endpointId ∧
        r.createdAt < snap.createdAt := by
    intro r hr
    obtain ⟨hr, hcond⟩ := List.mem_filter.mp hr
    obtain ⟨he, hid, -⟩ := of_decide_eq_true hcond
    have hmem := hwritten r hr
    refine ⟨hmem, he, lt_of_le_of_ne (hnow ▸ Nat.lt_succ_iff.mp (h.past r hmem)) fun heq => hid ?_⟩
    rw [hinc r hmem snap hsnap he rfl heq]
  refine head?_insertionSort_of_max SchemaSnapshot.createdAt
    (List.mem_filter.mpr ⟨hold _ hprior.mem (hnow ▸ hprior.earlier), ?_⟩) (fun r hr => ?_) fun r hr heq => ?_
  · refine decide_eq_true ⟨hprior.endpoint, fun hid => ?_, hnull _ hprior.mem⟩
    have hlt := hprior.earlier
    rw [List.inj_on_of_nodup_map h.ids hprior.mem hsnap hid] at hlt
    exact lt_irrefl _ hlt
  · obtain ⟨hr, he, hlt⟩ := hcandidate r hr
    exact hprior.latest r hr he hlt
  · obtain ⟨hr, he, -⟩ := hcandidate r hr
    exact hinc r hr prior hprior.mem he hprior.endpoint heq

theorem snapshotOk_fetch (c : Config) (fetch : FetchResult) (id e runId now : Nat) :
    SnapshotOk c (fetch.snapshot c id e runId now) ∧
      (Succeeded (fetch.snapshot c id e runId now) ↔ fetch.ok = true) := by
  by_cases hok : fetch.ok = true
  · have hs : Succeeded (fetch.snapshot c id e runId now) := by
      simp only [Succeeded, SchemaSnapshot.nodes, FetchResult.snapshot, hok, if_true]
    refine ⟨.inl ⟨hs, ?_, ?_⟩, fun _ => hok, fun _ => hs⟩
    · simp only [SchemaSnapshot.nodes, FetchResult.snapshot, hok, if_true]
    · simp only [SchemaSnapshot.nodes, FetchResult.snapshot, hok, if_true]
      exact nodup_inferSchema _
  · refine ⟨.inr ⟨?_, ?_⟩, fun hs => ?_, fun h => absurd h hok⟩
    · simp only [FetchResult.snapshot, if_neg hok]
    · simp only [FetchResult.snapshot, if_neg hok, isFetchError_append]
    · simp only [Succeeded, FetchResult.snapshot, if_neg hok] at hs
      cases hs

/-- The most recent earlier snapshot of the endpoint whose fetch succeeded. -/
structure IsLastSuccess (db : Tables) (snap last : SchemaSnapshot) : Prop where
  mem : last ∈ db.snapshots
  succeeded : Succeeded last
  endpoint : last.endpointId = snap.endpointId
  earlier : last.createdAt < snap.createdAt
  latest : ∀ r ∈ db.snapshots, Succeeded r → r.endpointId = snap.endpointId →
    r.createdAt < snap.createdAt → r.createdAt ≤ last.createdAt

/-- No fetch has failed in between. -/
def NoOutage (db : Tables) (last snap : SchemaSnapshot) : Prop :=
  ∀ r ∈ db.snapshots, r.endpointId = snap.endpointId → last.createdAt < r.createdAt →
    ¬r.createdAt < snap.createdAt

theorem exists_max {α : Type} (f : α → Nat) {xs : List α} (hne : xs ≠ []) :
    ∃ x ∈ xs, ∀ y ∈ xs, f y ≤ f x := by
  induction xs with
  | nil => exact absurd rfl hne
  | cons x xs ih =>
    by_cases hxs : xs = []
    · subst hxs
      exact ⟨x, List.mem_cons_self, fun y hy => by rw [List.mem_singleton.mp hy]⟩
    · obtain ⟨m, hm, hmax⟩ := ih hxs
      obtain hle | hle := le_total (f x) (f m)
      · refine ⟨m, List.mem_cons_of_mem x hm, fun y hy => ?_⟩
        obtain rfl | hy := List.mem_cons.mp hy
        · exact hle
        · exact hmax y hy
      · refine ⟨x, List.mem_cons_self, fun y hy => ?_⟩
        obtain rfl | hy := List.mem_cons.mp hy
        · exact le_rfl
        · exact (hmax y hy).trans hle

theorem exists_isPrior {db : Tables} {snap r : SchemaSnapshot} (hr : r ∈ db.snapshots)
    (he : r.endpointId = snap.endpointId) (hlt : r.createdAt < snap.createdAt) :
    ∃ prior, IsPrior db snap prior ∧ r.createdAt ≤ prior.createdAt := by
  have hmem : ∀ r', r' ∈ db.snapshots.filter (fun r' => r'.endpointId = snap.endpointId ∧
      r'.createdAt < snap.createdAt) ↔ r' ∈ db.snapshots ∧ r'.endpointId = snap.endpointId ∧
        r'.createdAt < snap.createdAt := by
    intro r'
    rw [List.mem_filter, decide_eq_true_eq]
  obtain ⟨prior, hprior, hmax⟩ := exists_max SchemaSnapshot.createdAt
    (List.ne_nil_of_mem ((hmem r).mpr ⟨hr, he, hlt⟩))
  obtain ⟨hm, hpe, hplt⟩ := (hmem prior).mp hprior
  exact ⟨prior, ⟨hm, hpe, hplt, fun r' hr' he' hlt' => hmax r' ((hmem r').mpr ⟨hr', he', hlt'⟩)⟩,
    hmax r ((hmem r).mpr ⟨hr, he, hlt⟩)⟩

end SchemaPilot.SnapshotHistory
