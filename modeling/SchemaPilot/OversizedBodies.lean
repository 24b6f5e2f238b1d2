import SchemaPilot.ArrayOrder
import SchemaPilot.SnapshotHistory
import SchemaPilot.Normalizer

namespace SchemaPilot.OversizedBodies

open Keyed JsonText JsonLoads Digest SchemaInfer SchemaNotes NodeSummary SchemaHash SchemaDiff ArrayOrder Normalizer
  MonitorRunner SnapshotHistory

/-- The field paths of a body. -/
def paths (body : Json) : List String := (inferSchema body).map SchemaNode.path

/-- The text of a body does not fit the cap. -/
def oversized (settings : Settings) (body : Json) : Bool :=
  capOf settings none < (serialize (sortKeys body)).length

/-- The paths of the marker that stands for a body that was cut off. -/
def markerPaths : List String := ["_size_bytes", "_truncated"]

/-- Both bodies fit the cap or neither does; or the marker alone comes before the body, and each of
its paths is one of the two bodies'; or it comes after, and they have no other path in common. -/
def MarkerHarmless (settings : Settings) (b₁ b₂ : Json) : Prop :=
  match oversized settings b₁, oversized settings b₂ with
  | true, false => ∀ path ∈ markerPaths, path ∈ paths b₁ ∨ path ∈ paths b₂
  | false, true => ∀ path ∈ paths b₁, path ∈ paths b₂ → path ∈ markerPaths
  | _, _ => True

section Paths

theorem mem_paths_iff_lookup (body : Json) (path : String) :
    path ∈ paths body ↔ ∃ n, (byPath (inferSchema body)).lookup path = some n := by
  simp only [lookup_byPath_eq_some_iff (nodup_inferSchema body)]
  exact List.mem_map

theorem mem_paths_iff (body : Json) (path : String) :
    path ∈ paths body ↔ notesAt path (walkNotes body) ≠ [] := by
  rw [mem_paths_iff_lookup, lookup_byPath_walk]
  by_cases h : notesAt path (walkNotes body) = []
  · rw [(lookup_walk body path).1 h]
    simp [h]
  · obtain ⟨s, hs, -⟩ := (lookup_walk body path).2 h
    rw [hs]
    simp [h]

theorem alike_of_rekeyed {v w : Json} (h : Rekeyed v w) : Alike v w := by
  induction h with
  | refl v => exact Alike.refl v
  | trans _ _ ih ih' => exact ih.trans ih'
  | entries hp =>
    apply alike_obj (hp.map _)
    intro parent
    rw [fieldNotes_eq, fieldNotes_eq]
    exact hp.flatMap_right _
  | item l r _ ih => exact alike_item l r ih
  | entry l r k _ ih => exact alike_entry l r k ih

theorem rekeyed_sortKeys (v : Json) : Rekeyed v (sortKeys v) := by
  induction v using JsonOf.induct with
  | null | bool b | num n | str s => exact .refl _
  | arr items ih =>
    have hitems : ∀ xs ⊆ items, ∀ l, Rekeyed (.arr (l ++ xs)) (.arr (l ++ xs.map sortKeys)) := by
      intro xs hxs
      induction xs with
      | nil => exact fun l => .refl _
      | cons x xs ihx =>
        intro l
        obtain ⟨hx, hxs⟩ := List.cons_subset.mp hxs
        have hrest := ihx hxs (l ++ [sortKeys x])
        simp only [List.append_assoc, List.singleton_append] at hrest
        exact (Rekeyed.item l xs (ih x hx)).trans hrest
    rw [sortKeys, sortKeysItems_eq]
    exact hitems items (List.Subset.refl _) []
  | obj fields ih =>
    have hfields : ∀ fs ⊆ fields, ∀ l,
        Rekeyed (.obj (l ++ fs)) (.obj (l ++ fs.map (fun p => (p.1, sortKeys p.2)))) := by
      intro fs hfs
      induction fs with
      | nil => exact fun l => .refl _
      | cons p fs ihp =>
        intro l
        obtain ⟨hp, hfs⟩ := List.cons_subset.mp hfs
        have hrest := ihp hfs (l ++ [(p.1, sortKeys p.2)])
        simp only [List.append_assoc, List.singleton_append] at hrest
        exact (Rekeyed.entry l fs p.1 (ih p hp)).trans hrest
    rw [sortKeys, sortKeysFields_eq]
    exact (hfields fields (List.Subset.refl _) []).trans (.entries (sortByKey_perm _).symm)

/-- Sorting the keys keeps the field paths. -/
theorem mem_paths_sortKeys (body : Json) (path : String) :
    path ∈ paths (sortKeys body) ↔ path ∈ paths body := by
  have hp : (notesAt path (walkNotes body)).Perm (notesAt path (walkNotes (sortKeys body))) :=
    (alike_of_rekeyed (rekeyed_sortKeys body)).walk.filterMap _
  have hnil : notesAt path (walkNotes (sortKeys body)) = [] ↔ notesAt path (walkNotes body) = [] :=
    ⟨fun h => List.perm_nil.mp (h ▸ hp), fun h => List.perm_nil.mp (h ▸ hp.symm)⟩
  rw [mem_paths_iff, mem_paths_iff, ne_eq, hnil]

theorem mem_paths_marker (size : Nat) (path : String) :
    path ∈ paths (truncationMarker size) ↔ path ∈ markerPaths := by
  have hnotes : walkNotes (truncationMarker size) =
      [("_truncated", .scalar (.bool true)), ("_size_bytes", .scalar (.num (.int size)))] := rfl
  rw [mem_paths_iff, hnotes]
  by_cases ht : "_truncated" = path
  · simp [notesAt, markerPaths, ← ht]
  · by_cases hs : "_size_bytes" = path
    · simp [notesAt, markerPaths, ← hs]
    · simp [notesAt, markerPaths, ht, hs, Ne.symm ht, Ne.symm hs]

end Paths

section Normalized

theorem normalize_object (settings : Settings) (fields : List (String × Json)) :
    normalize settings none (.obj fields) =
      if oversized settings (.obj fields) then truncationMarker (serialize (sortKeys (.obj fields))).length
      else sortKeys (.obj fields) := by
  rw [normalize_container settings none rfl, oversized]
  simp only [decide_eq_true_eq]

theorem mem_paths_normalize (settings : Settings) (b : Payload) (path : String) :
    path ∈ paths (normalize settings none b.json) ↔
      if oversized settings b.json then path ∈ markerPaths else path ∈ paths b.json := by
  rw [Payload.json, normalize_object]
  split
  · exact mem_paths_marker _ path
  · exact mem_paths_sortKeys _ path

end Normalized

section Removals

def isRemoval (changeType : ChangeType) : Bool :=
  changeType = .removed_field || changeType = .nested_object_removed

theorem isRemoval_pickChangeType {old new : SchemaNode} {change : ChangeType}
    (h : pickChangeType old new = some change) : isRemoval change = false := by
  have henum : ∀ {a b : Option (List String)} {e : ChangeType}, enumChange a b = some e → isRemoval e = false := by
    intro a b e he
    unfold enumChange at he
    split at he
    · split_ifs at he <;> cases he <;> rfl
    · cases he
  unfold pickChangeType at h
  split at h
  · split_ifs at h <;> cases h <;> rfl
  · split at h
    · cases h
      split <;> rfl
    · split at h
      · next e he =>
        cases h
        exact henum he
      · split_ifs at h
        cases h
        rfl

/-- The diff has a removal at the paths that only the old side has. -/
theorem removal_iff (isPrintable : Char → Bool) (v w : Json) (path : String) :
    (∃ diff ∈ diffSchemas isPrintable (inferSchema v) (inferSchema w), isRemoval diff.changeType ∧ diff.path = path) ↔
      path ∈ paths v ∧ path ∉ paths w := by
  have hkeys : ∀ u, path ∈ keys (byPath (inferSchema u)) ↔ path ∈ paths u := by
    intro u
    rw [mem_paths_iff_lookup, ← Option.isSome_iff_exists, lookup_isSome_iff_mem_keys]
  simp only [diffSchemas, List.mem_append, List.mem_filterMap, mem_sortedStrings, List.mem_filter, decide_eq_true_eq]
  constructor
  · rintro ⟨diff, (⟨q, ⟨hold, hnew⟩, hd⟩ | ⟨q, -, hd⟩) | ⟨q, -, hd⟩, hremoval, rfl⟩
    · obtain ⟨n, -, rfl⟩ := Option.map_eq_some_iff.mp hd
      exact ⟨(hkeys v).mp hold, fun h => hnew ((hkeys w).mpr h)⟩
    · obtain ⟨n, -, rfl⟩ := Option.map_eq_some_iff.mp hd
      cases hremoval
    · obtain ⟨m, -, hd⟩ := Option.bind_eq_some_iff.mp hd
      obtain ⟨n, -, hd⟩ := Option.bind_eq_some_iff.mp hd
      obtain ⟨change, hchange, rfl⟩ := Option.map_eq_some_iff.mp hd
      rw [isRemoval_pickChangeType hchange] at hremoval
      cases hremoval
  · rintro ⟨hold, hnew⟩
    obtain ⟨n, hn⟩ := (mem_paths_iff_lookup v path).mp hold
    refine ⟨removedDiff isPrintable path n,
      .inl (.inl ⟨path, ⟨(hkeys v).mpr hold, fun h => hnew ((hkeys w).mp h)⟩, by rw [hn]; rfl⟩), ?_, rfl⟩
    unfold removedDiff
    split <;> rfl

/-- A removal means that the hash has changed. -/
theorem hash_ne_of_removal {sha256 : ByteArray → String} (hsha : Function.Injective sha256)
    {v w : Json}
    {path : String} (hv : path ∈ paths v) (hw : path ∉ paths w) :
    stableSchemaHash sha256 (inferSchema v) ≠ stableSchemaHash sha256 (inferSchema w) := by
  intro heq
  obtain ⟨n, hn⟩ := (mem_paths_iff_lookup v path).mp hv
  have hs := (stableSchemaHash_eq_iff hsha (nodup_inferSchema v) (nodup_inferSchema w)).mp heq path
  rw [hn, Option.map_some] at hs
  obtain ⟨m, hm, -⟩ := Option.map_eq_some_iff.mp hs.symm
  exact hw ((mem_paths_iff_lookup w path).mpr ⟨m, hm⟩)

end Removals

/-- A response with a JSON body that was fetched without an error. -/
structure Response where
  statusCode : Nat
  responseTimeMs : Nat
  responseSizeBytes : Nat
  body : Payload

def Response.fetch (r : Response) : FetchResult where
  statusCode := r.statusCode
  responseTimeMs := r.responseTimeMs
  responseSizeBytes := r.responseSizeBytes
  body := r.body.json

section Monitor

variable (settings : Settings) (sha256 : ByteArray → String) (isPrintable : Char → Bool) (retention : Nat)

def monitorConfig : Config := ⟨sha256, isPrintable, normalize settings none, retention⟩

/-- The snapshot of a response. -/
def snapshotOf (r : Response) (id endpointId runId now : Nat) : SchemaSnapshot :=
  r.fetch.snapshot (monitorConfig settings sha256 isPrintable retention) id endpointId runId now

/-- The diffs that are stored with the snapshot of a response when the last one was of another. -/
def storedDiffs (r₁ r₂ : Response) (id₁ id₂ endpointId run₁ run₂ now₁ now₂ : Nat) : List DiffRow :=
  driftRows (monitorConfig settings sha256 isPrintable retention)
    (some (snapshotOf settings sha256 isPrintable retention r₁ id₁ endpointId run₁ now₁))
    (snapshotOf settings sha256 isPrintable retention r₂ id₂ endpointId run₂ now₂)

variable {sha256}

theorem stored_removal_iff (hsha : Function.Injective sha256)
    (hdigest : ∀ b, isFetchError (sha256 b) = false) (r₁ r₂ : Response)
    (id₁ id₂ endpointId run₁ run₂ now₁ now₂ : Nat) (path : String) :
    (∃ row ∈ storedDiffs settings sha256 isPrintable retention r₁ r₂ id₁ id₂ endpointId run₁ run₂ now₁ now₂,
        isRemoval row.diff.changeType ∧ row.diff.path = path) ↔
      path ∈ paths (normalize settings none r₁.body.json) ∧ path ∉ paths (normalize settings none r₂.body.json) := by
  have hrows : storedDiffs settings sha256 isPrintable retention r₁ r₂ id₁ id₂ endpointId run₁ run₂ now₁ now₂ =
      if stableSchemaHash sha256 (inferSchema (normalize settings none r₁.body.json)) ≠
          stableSchemaHash sha256 (inferSchema (normalize settings none r₂.body.json)) then
        (diffSchemas isPrintable (inferSchema (normalize settings none r₁.body.json))
          (inferSchema (normalize settings none r₂.body.json))).map (fun diff => ⟨endpointId, some id₁, id₂, diff⟩)
      else [] := by
    have hok : ∀ r : Response, r.fetch.ok = true := by
      intro r
      simp [FetchResult.ok, Response.fetch, Payload.json]
    simp only [storedDiffs, driftRows, diffRows, snapshotOf, FetchResult.snapshot, SchemaSnapshot.nodes, hok, if_true,
      monitorConfig]
    have hreal :
        isFetchError (stableSchemaHash sha256 (inferSchema (normalize settings none r₁.fetch.body))) = false :=
      hdigest _
    simp only [hreal, Bool.false_eq_true, not_false_eq_true, and_true]
    rfl
  rw [hrows, ← removal_iff isPrintable]
  constructor
  · rintro ⟨row, hrow, hr⟩
    split at hrow
    · obtain ⟨diff, hd, rfl⟩ := List.mem_map.mp hrow
      exact ⟨diff, hd, hr⟩
    · cases hrow
  · rintro ⟨diff, hd, hr⟩
    obtain ⟨hold, hnew⟩ := (removal_iff isPrintable _ _ path).mp ⟨diff, hd, hr⟩
    rw [if_pos (hash_ne_of_removal hsha hold hnew)]
    exact ⟨_, List.mem_map.mpr ⟨diff, hd, rfl⟩, hr⟩

/-- A field that is reported removed is one that only the old response has, exactly when the marker
of a body that was cut off is harmless. -/
theorem removals_real_iff (hsha : Function.Injective sha256)
    (hdigest : ∀ b, isFetchError (sha256 b) = false) (r₁ r₂ : Response)
    (id₁ id₂ endpointId run₁ run₂ now₁ now₂ : Nat) :
    (∀ row ∈ storedDiffs settings sha256 isPrintable retention r₁ r₂ id₁ id₂ endpointId run₁ run₂ now₁ now₂,
        isRemoval row.diff.changeType →
          row.diff.path ∈ paths r₁.body.json ∧ row.diff.path ∉ paths r₂.body.json) ↔
      MarkerHarmless settings r₁.body.json r₂.body.json := by
  have hremovals := stored_removal_iff settings isPrintable retention hsha hdigest r₁ r₂ id₁ id₂ endpointId run₁ run₂
    now₁ now₂
  have hpaths :
      (∀ row ∈ storedDiffs settings sha256 isPrintable retention r₁ r₂ id₁ id₂ endpointId run₁ run₂ now₁ now₂,
        isRemoval row.diff.changeType →
          row.diff.path ∈ paths r₁.body.json ∧ row.diff.path ∉ paths r₂.body.json) ↔
      ∀ path, path ∈ paths (normalize settings none r₁.body.json) →
        path ∉ paths (normalize settings none r₂.body.json) →
          path ∈ paths r₁.body.json ∧ path ∉ paths r₂.body.json := by
    constructor
    · intro h path hold hnew
      obtain ⟨row, hrow, hr, rfl⟩ := (hremovals path).mpr ⟨hold, hnew⟩
      exact h row hrow hr
    · intro h row hrow hr
      obtain ⟨hold, hnew⟩ := (hremovals row.diff.path).mp ⟨row, hrow, hr, rfl⟩
      exact h _ hold hnew
  rw [hpaths]
  simp only [mem_paths_normalize]
  unfold MarkerHarmless
  cases oversized settings r₁.body.json <;> cases oversized settings r₂.body.json <;>
    simp only [if_true, if_false, Bool.false_eq_true]
  · exact iff_of_true (fun path hold hnew => ⟨hold, hnew⟩) trivial
  · constructor
    · intro h path hold hnew
      by_contra hmarker
      exact (h path hold hmarker).2 hnew
    · intro h path hold hmarker
      exact ⟨hold, fun hnew => hmarker (h path hold hnew)⟩
  · constructor
    · intro h path hmarker
      by_cases hnew : path ∈ paths r₂.body.json
      · exact .inr hnew
      · exact .inl (h path hmarker hnew).1
    · intro h path hmarker hnew
      exact ⟨(h path hmarker).resolve_right hnew, hnew⟩
  · exact iff_of_true (fun path hmarker hno => absurd hmarker hno) trivial

end Monitor

section Sample

def sampleSettings (cap : Int) : Settings := ⟨cap, fun _ => ⟨"NaN", by decide⟩⟩

def oldResponse : Response := ⟨200, 12, 24, ⟨[("id", .num (.int 1)), ("name", .str "x")], by decide⟩⟩

/-- The old fields and a text that a cap of 40 bytes does not leave room for. -/
def longResponse : Response :=
  ⟨200, 12, 63, ⟨[("id", .num (.int 1)), ("name", .str "x"), ("note", .str "as long as the rest twice")], by decide⟩⟩

def shortResponse : Response := ⟨200, 12, 9, ⟨[("id", .num (.int 1))], by decide⟩⟩

/-- The digests of the schemas of the old response, of the short one and of the marker. -/
def sampleDigests : List (String × String) := [
  (dumpsSorted (.arr (projection (inferSchema oldResponse.body.json))),
    "d4af993081e1c9b29e69c79ee774e8342cdea838832ae3d3989853c517048941"),
  (dumpsSorted (.arr (projection (inferSchema shortResponse.body.json))),
    "115a6105a6bb0613e6b9e2ce49547cc5525c2859ad9dd0fad5af9437a670a5b2"),
  (dumpsSorted (.arr (projection (inferSchema (truncationMarker 54)))),
    "e2e59984c9f9168454de6a7d62a1cec9fe32aaa1d6c3d1d9204e9ce6c325250a")]

theorem isFetchError_sampleDigests (b : ByteArray) : isFetchError (sampleSha256 sampleDigests b) = false :=
  isFetchError_sampleSha256 (by decide +kernel) b

theorem injective_sampleDigests : Function.Injective (sampleSha256 sampleDigests) :=
  sampleSha256_injective _ (by decide +kernel) (by decide +kernel)

theorem stored_removal_sample (r₁ r₂ : Response) (path : String)
    (hold : path ∈ paths (normalize (sampleSettings 40) none r₁.body.json))
    (hnew : path ∉ paths (normalize (sampleSettings 40) none r₂.body.json)) :
    ∃ row ∈ storedDiffs (sampleSettings 40) (sampleSha256 sampleDigests) (fun _ => true) 10 r₁ r₂ 1 2 0 3 4 0 1,
      isRemoval row.diff.changeType ∧ row.diff.path = path := by
  exact (stored_removal_iff _ _ _ injective_sampleDigests isFetchError_sampleDigests r₁ r₂ 1 2 0 3 4 0 1
    path).mpr ⟨hold, hnew⟩

theorem removals_real_iff_within_cap :
    ∃ row ∈ storedDiffs (sampleSettings 40) (sampleSha256 sampleDigests) (fun _ => true) 10 oldResponse shortResponse
        1 2 0 3 4 0 1,
      isRemoval row.diff.changeType ∧ row.diff.path = "name" ∧
        row.diff.path ∈ paths oldResponse.body.json ∧ row.diff.path ∉ paths shortResponse.body.json := by
  obtain ⟨row, hrow, hr, hpath⟩ := stored_removal_sample oldResponse shortResponse "name"
    (by decide +kernel) (by decide +kernel)
  have hold : oversized (sampleSettings 40) oldResponse.body.json = false := by decide +kernel
  have hnew : oversized (sampleSettings 40) shortResponse.body.json = false := by decide +kernel
  have hharmless : MarkerHarmless (sampleSettings 40) oldResponse.body.json shortResponse.body.json := by
    rw [MarkerHarmless, hold, hnew]
    trivial
  exact ⟨row, hrow, hr, hpath,
    (removals_real_iff _ _ _ injective_sampleDigests isFetchError_sampleDigests oldResponse shortResponse
    1 2 0 3 4 0 1).mpr hharmless row hrow hr⟩

/-- The new response has all the old fields, and they are reported removed. -/
theorem removed_while_present :
    ¬∀ row ∈ storedDiffs (sampleSettings 40) (sampleSha256 sampleDigests) (fun _ => true) 10 oldResponse longResponse
        1 2 0 3 4 0 1,
      isRemoval row.diff.changeType →
        row.diff.path ∈ paths oldResponse.body.json ∧ row.diff.path ∉ paths longResponse.body.json := by
  intro h
  obtain ⟨row, hrow, hr, hpath⟩ := stored_removal_sample oldResponse longResponse "id"
    (by decide +kernel) (by decide +kernel)
  have hpresent : "id" ∈ paths longResponse.body.json := by decide +kernel
  exact (h row hrow hr).2 (hpath ▸ hpresent)

end Sample

end SchemaPilot.OversizedBodies
