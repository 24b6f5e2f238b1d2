import SchemaPilot.FirstLog
import SchemaPilot.Track

namespace SchemaPilot.UpsertHistory

open Keyed Classifier Registry Track FirstLog

/-- The arguments of one call of `upsert_schema_version`. -/
structure Submission where
  key : EndpointKey
  fingerprint : String
  canonicalSchema : Schema
  classification : Compatibility

/-- The rows of an endpoint in the order of their commits. -/
def rowsOf (db : Db) (key : EndpointKey) : List SchemaVersionRecord :=
  match findEndpoint db.endpoints key with
  | none => []
  | some e => versionsOf db.versions e.id

theorem rowsOf_of_find {db : Db} {key : EndpointKey} {e : Endpoint}
    (h : findEndpoint db.endpoints key = some e) : rowsOf db key = versionsOf db.versions e.id := by
  rw [rowsOf, h]

theorem rowsOf_of_none {db : Db} {key : EndpointKey} (h : findEndpoint db.endpoints key = none) :
    rowsOf db key = [] := by
  rw [rowsOf, h]

theorem history_rowsOf {db : Db} (h : Tidy db) (key : EndpointKey) : History (rowsOf db key) := by
  rw [rowsOf]
  split
  · exact history_nil
  · exact h.history _

def knownRow (db : Db) (key : EndpointKey) (fingerprint : String) : Option SchemaVersionRecord :=
  (rowsOf db key).find? (fun r => r.fingerprint = fingerprint)

section

variable (jsonb : Schema → Option Schema)

def upsert (db : Db) (s : Submission) : Except PyError (Db × Endpoint × SchemaVersionRecord × Bool) :=
  upsertSchemaVersion jsonb db s.key s.fingerprint s.canonicalSchema s.classification

/-- A call that raises is rolled back. -/
def submit (db : Db) (s : Submission) : Db :=
  match upsert jsonb db s with
  | .ok (db, _) => db
  | .error _ => db

def runSubmissions (submissions : List Submission) : Db := submissions.foldl (submit jsonb) Db.empty

end

theorem ensured_rowsOf {db db1 : Db} {key : EndpointKey} {e : Endpoint} (h : Ensured db key db1 e) :
    rowsOf db key = versionsOf db.versions e.id := by
  obtain ⟨hf, -⟩ | ⟨hf, hnil⟩ := h.fresh
  · exact rowsOf_of_find hf
  · rw [rowsOf_of_none hf, hnil]

theorem not_owner {db db1 : Db} {key k : EndpointKey} {e : Endpoint} (h : Ensured db key db1 e)
    (hk : k ≠ key) {r : SchemaVersionRecord} (hr : r ∈ rowsOf db k) : r.endpointId ≠ e.id := by
  cases hf : findEndpoint db.endpoints k with
  | none =>
    rw [rowsOf_of_none hf] at hr
    cases hr
  | some e' =>
    rw [rowsOf_of_find hf] at hr
    rw [(mem_versionsOf.mp hr).2]
    exact h.id_ne hk hf

/-- A new version is added to the rows of its endpoint, after their current marks are cleared. -/
theorem ensured_rowsOf_grow {db db1 : Db} {key : EndpointKey} {e : Endpoint} (h : Ensured db key db1 e)
    (new : SchemaVersionRecord) (hn : new.endpointId = e.id) (k : EndpointKey) :
    rowsOf (grow db1 e.id new) k =
      if k = key then (rowsOf db key).map clearCurrent ++ [new] else rowsOf db k := by
  by_cases hk : k = key
  · subst hk
    have hfind : findEndpoint (grow db1 e.id new).endpoints k = some e := by
      rw [grow, h.find, if_pos rfl]
    rw [rowsOf_of_find hfind, grow, versionsOf_grown hn, if_pos rfl, if_pos rfl, h.versions, ensured_rowsOf h]
  · have hfind : findEndpoint (grow db1 e.id new).endpoints k = findEndpoint db.endpoints k := by
      rw [grow, h.find, if_neg hk]
    rw [if_neg hk]
    cases hf : findEndpoint db.endpoints k with
    | none => rw [rowsOf_of_none hf, rowsOf_of_none (hfind.trans hf)]
    | some e' =>
      rw [rowsOf_of_find hf, rowsOf_of_find (hfind.trans hf), grow, versionsOf_grown hn,
        if_neg (h.id_ne hk hf), h.versions]

section

variable (jsonb : Schema → Option Schema)

/-- What one call does: it finds the row of its fingerprint, or is refused, or adds a row. -/
inductive Upserted (db : Db) (s : Submission) :
    Except PyError (Db × Endpoint × SchemaVersionRecord × Bool) → Prop
  | known {e : Endpoint} {row : SchemaVersionRecord} : findEndpoint db.endpoints s.key = some e →
    knownRow db s.key s.fingerprint = some row → Upserted db s (.ok (db, e, row, false))
  | refused : knownRow db s.key s.fingerprint = none → jsonb s.canonicalSchema = none →
    Upserted db s (.error .DataError)
  | added {db1 : Db} {e : Endpoint} {stored : Schema} : Ensured db s.key db1 e →
    (findEndpoint db.endpoints s.key = none → e.endpointName = endpointName s.key) →
    knownRow db s.key s.fingerprint = none → jsonb s.canonicalSchema = some stored →
    Upserted db s (.ok (grow db1 e.id (newVersion db1 e s.fingerprint stored s.classification), e,
      { newVersion db1 e s.fingerprint stored s.classification with canonicalSchema := s.canonicalSchema },
      true))

theorem name_of_ensureEndpoint {db db1 : Db} {key : EndpointKey} {e : Endpoint}
    (hf : findEndpoint db.endpoints key = none) (h : ensureEndpoint db key = .ok (db1, e)) :
    e.endpointName = endpointName key := by
  have hfind := @findEndpoint_append db.endpoints
    { id := db.nextId, key, endpointName := endpointName key } hf
  rw [ensureEndpoint] at h
  simp only [hf, hfind, if_true, Except.ok.injEq, Prod.mk.injEq] at h
  rw [← h.2]

theorem upserted {db : Db} (h : Tidy db) (s : Submission) : Upserted jsonb db s (upsert jsonb db s) := by
  obtain ⟨db1, e, he, hens⟩ := ensureEndpoint_spec h s.key
  have hrow : knownRow db s.key s.fingerprint = findFingerprint db1.versions e.id s.fingerprint := by
    rw [knownRow, ensured_rowsOf hens, findFingerprint, hens.versions]
  unfold upsert upsertSchemaVersion
  simp only [he, bind, Except.bind]
  cases hf : findFingerprint db1.versions e.id s.fingerprint with
  | some row =>
    rw [hf] at hrow
    obtain ⟨hfind, rfl⟩ | ⟨hnone, -⟩ := hens.fresh
    · exact .known hfind hrow
    · rw [knownRow, rowsOf_of_none hnone] at hrow
      cases hrow
  | none =>
    rw [hf] at hrow
    simp only [insertVersion_spec jsonb hens.tidy hf]
    cases hs : jsonb s.canonicalSchema with
    | none => exact .refused hrow hs
    | some stored => exact .added hens (fun hnone => name_of_ensureEndpoint hnone he) hrow hs

end

/-- What a row keeps of the submission it comes from. -/
def entry (r : SchemaVersionRecord) : String × Schema × Compatibility :=
  (r.fingerprint, r.canonicalSchema, r.compatibilityClassification)

/-- The registry as a log: under every endpoint the submissions it has kept. -/
def logOf (db : Db) : Log EndpointKey String (Schema × Compatibility) :=
  fun key => (rowsOf db key).map entry

theorem knownRow_eq_none_iff (db : Db) (key : EndpointKey) (f : String) :
    knownRow db key f = none ↔ f ∉ keys (logOf db key) := by
  rw [knownRow, List.find?_eq_none, logOf, keys, List.map_map, List.mem_map]
  constructor
  · rintro h ⟨r, hr, rfl⟩
    exact h r hr (decide_eq_true rfl)
  · intro h r hr hf
    exact h ⟨r, hr, of_decide_eq_true hf⟩

theorem knownRow_eq_some {db : Db} {key : EndpointKey} {f : String} {row : SchemaVersionRecord}
    (h : knownRow db key f = some row) : row ∈ rowsOf db key ∧ row.fingerprint = f := by
  rw [knownRow] at h
  exact Keyed.mem_of_find?_key h

theorem mem_keys_of_knownRow {db : Db} {key : EndpointKey} {f : String} {row : SchemaVersionRecord}
    (h : knownRow db key f = some row) : f ∈ keys (logOf db key) := by
  by_contra hn
  rw [(knownRow_eq_none_iff db key f).mpr hn] at h
  cases h

/-- What holds of the tables between calls: every endpoint has its name and a version, and
every version an endpoint. -/
structure Registered (db : Db) : Prop where
  tidy : Tidy db
  named : ∀ key e, findEndpoint db.endpoints key = some e → e.endpointName = endpointName key
  used : ∀ key e, findEndpoint db.endpoints key = some e → rowsOf db key ≠ []
  owned : ∀ r ∈ db.versions, ∃ key, r ∈ rowsOf db key

theorem registered_empty : Registered Db.empty := by
  have hnone : ∀ key e, findEndpoint Db.empty.endpoints key ≠ some e := by
    intro key e he
    cases he
  refine ⟨tidy_empty, fun key e he => absurd he (hnone key e), fun key e he => absurd he (hnone key e), ?_⟩
  exact fun r hr => absurd hr List.not_mem_nil

/-- An endpoint is there exactly when it has versions. -/
theorem Registered.endpoint_name {db : Db} (h : Registered db) (key : EndpointKey) :
    (findEndpoint db.endpoints key).map Endpoint.endpointName =
      if logOf db key = [] then none else some (endpointName key) := by
  cases hf : findEndpoint db.endpoints key with
  | none => rw [logOf, rowsOf_of_none hf, List.map_nil, if_pos rfl, Option.map_none]
  | some e =>
    have hne : logOf db key ≠ [] := fun hn => h.used key e hf (List.map_eq_nil_iff.mp hn)
    rw [if_neg hne, Option.map_some, h.named key e hf]

section

variable (jsonb : Schema → Option Schema)

/-- The entry a submission brings to its endpoint, if the database can store its schema. -/
def entryOf (s : Submission) : Option (EndpointKey × String × Schema × Compatibility) :=
  (jsonb s.canonicalSchema).map (fun stored => (s.key, s.fingerprint, stored, s.classification))

def putEntry (m : Log EndpointKey String (Schema × Compatibility)) (s : Submission) :
    Log EndpointKey String (Schema × Compatibility) :=
  match entryOf jsonb s with
  | none => m
  | some w => put m w.1 w.2

theorem logOf_grow {db db1 : Db} {key : EndpointKey} {e : Endpoint} (h : Ensured db key db1 e)
    {new : SchemaVersionRecord} (hn : new.endpointId = e.id) :
    logOf (grow db1 e.id new) = Function.update (logOf db) key (logOf db key ++ [entry new]) := by
  funext k
  rw [logOf, ensured_rowsOf_grow h _ hn]
  by_cases hk : k = key
  · subst hk
    rw [if_pos rfl, Function.update_self, List.map_append, List.map_map]
    rfl
  · rw [if_neg hk, Function.update_of_ne hk]
    rfl

/-- The registry behaves like the log of first entries. -/
theorem logOf_submit {db : Db} (h : Tidy db) (s : Submission) :
    logOf (submit jsonb db s) = putEntry jsonb (logOf db) s := by
  have hup := upserted jsonb h s
  unfold submit putEntry entryOf
  generalize upsert jsonb db s = r at hup
  cases hup with
  | known hf hrow =>
    have hmem := mem_keys_of_knownRow hrow
    cases hs : jsonb s.canonicalSchema with
    | none => rfl
    | some stored =>
      rw [Option.map_some]
      exact (put_of_mem hmem).symm
  | refused hrow hs => rw [hs, Option.map_none]
  | added hens _ hrow hs =>
    have hnot := (knownRow_eq_none_iff db s.key s.fingerprint).mp hrow
    rw [hs, Option.map_some]
    exact (logOf_grow hens rfl).trans (put_of_not_mem hnot).symm

theorem tidy_submit {db : Db} (h : Tidy db) (s : Submission) : Tidy (submit jsonb db s) := by
  have hup := upserted jsonb h s
  rw [submit]
  generalize upsert jsonb db s = r at hup
  cases hup with
  | known hf hrow => exact h
  | refused hrow hs => exact h
  | @added db1 e stored hens _ hrow hs =>
    have hf : findFingerprint db1.versions e.id s.fingerprint = none := by
      rw [knownRow, ensured_rowsOf hens] at hrow
      rw [hens.versions]
      exact hrow
    exact tidy_grow hens.tidy (hens.tidy.endpointId_lt e hens.mem) hf _ _

theorem registered_submit {db : Db} (h : Registered db) (s : Submission) :
    Registered (submit jsonb db s) := by
  have hup := upserted jsonb h.tidy s
  have ht := tidy_submit jsonb h.tidy s
  unfold submit at ht ⊢
  generalize upsert jsonb db s = r at hup ht
  cases hup with
  | known hf hrow => exact h
  | refused hrow hs => exact h
  | @added db1 e stored hens hname hrow hs =>
    have hrows := ensured_rowsOf_grow hens (newVersion db1 e s.fingerprint stored s.classification) rfl
    have hfind : ∀ key e', findEndpoint (grow db1 e.id
        (newVersion db1 e s.fingerprint stored s.classification)).endpoints key = some e' →
        key = s.key ∧ e' = e ∨ key ≠ s.key ∧ findEndpoint db.endpoints key = some e' := by
      intro key e' he'
      rw [grow, hens.find] at he'
      by_cases hk : key = s.key
      · rw [if_pos hk] at he'
        exact .inl ⟨hk, (Option.some.inj he').symm⟩
      · rw [if_neg hk] at he'
        exact .inr ⟨hk, he'⟩
    refine ⟨ht, fun key e' he' => ?_, fun key e' he' => ?_, fun r hr => ?_⟩
    · obtain ⟨rfl, rfl⟩ | ⟨-, he'⟩ := hfind key e' he'
      · obtain ⟨hf, -⟩ | ⟨hf, -⟩ := hens.fresh
        · exact h.named s.key e' hf
        · exact hname hf
      · exact h.named key e' he'
    · rw [hrows]
      obtain ⟨rfl, rfl⟩ | ⟨hk, he'⟩ := hfind key e' he'
      · rw [if_pos rfl]
        exact List.append_ne_nil_of_right_ne_nil _ (List.cons_ne_nil _ _)
      · rw [if_neg hk]
        exact h.used key e' he'
    · obtain hr | hr := List.mem_append.mp hr
      · obtain ⟨s', hs', rfl⟩ := List.mem_map.mp hr
        rw [hens.versions] at hs'
        obtain ⟨key, hkey⟩ := h.owned s' hs'
        refine ⟨key, ?_⟩
        rw [hrows]
        by_cases hk : key = s.key
        · subst hk
          have hm : s' ∈ versionsOf db.versions e.id := ensured_rowsOf hens ▸ hkey
          rw [if_pos rfl, if_pos (mem_versionsOf.mp hm).2]
          exact List.mem_append_left _ (List.mem_map_of_mem hkey)
        · rw [if_neg hk, if_neg (not_owner hens hk hkey)]
          exact hkey
      · refine ⟨s.key, ?_⟩
        rw [hrows, if_pos rfl, List.mem_singleton.mp hr]
        exact List.mem_append_right _ List.mem_cons_self

theorem registered_runSubmissions (submissions : List Submission) :
    Registered (runSubmissions jsonb submissions) := by
  induction submissions using List.reverseRecOn with
  | nil => exact registered_empty
  | append_singleton submissions s ih =>
    rw [runSubmissions, List.foldl_concat]
    exact registered_submit jsonb ih s

/-- What the submissions for an endpoint would store, in their order. A submission that the
database cannot store counts for nothing. -/
def accepted (submissions : List Submission) (key : EndpointKey) : List (String × Schema × Compatibility) :=
  ((submissions.filterMap (entryOf jsonb)).filter (fun w => w.1 = key)).map Prod.snd

/-- The versions of every endpoint are the first of the submissions for it. -/
theorem logOf_runSubmissions (submissions : List Submission) (key : EndpointKey) :
    logOf (runSubmissions jsonb submissions) key = firsts (accepted jsonb submissions key) := by
  have hfold : logOf (runSubmissions jsonb submissions) =
      (submissions.filterMap (entryOf jsonb)).foldl (fun m w => put m w.1 w.2) (fun _ => []) := by
    induction submissions using List.reverseRecOn with
    | nil => rfl
    | append_singleton submissions s ih =>
      rw [runSubmissions, List.foldl_concat, ← runSubmissions,
        logOf_submit jsonb (registered_runSubmissions jsonb submissions).tidy, ih, List.filterMap_append,
        List.foldl_append, putEntry]
      cases hs : entryOf jsonb s with
      | none => rw [List.filterMap_cons_none hs]; rfl
      | some w => rw [List.filterMap_cons_some hs]; rfl
  rw [hfold, foldl_put, accepted]

end

section Views

/-- A version as it is seen without the generated ids. -/
structure VersionView where
  version : Nat
  fingerprint : String
  canonicalSchema : Schema
  compatibilityClassification : Compatibility
  previousVersion : Option Nat
  isCurrent : Bool
  deriving DecidableEq

def viewRow (rows : List SchemaVersionRecord) (r : SchemaVersionRecord) : VersionView where
  version := r.version
  fingerprint := r.fingerprint
  canonicalSchema := r.canonicalSchema
  compatibilityClassification := r.compatibilityClassification
  previousVersion :=
    (rows.find? (fun s => some s.id = r.previousVersionId)).map SchemaVersionRecord.version
  isCurrent := r.isCurrent

/-- All that the two tables hold about an endpoint, up to the generated ids. -/
def view (db : Db) (key : EndpointKey) : Option String × List VersionView :=
  ((findEndpoint db.endpoints key).map Endpoint.endpointName,
    (rowsOf db key).map (viewRow (rowsOf db key)))

def previousOf (i : Nat) : Option Nat := if i = 0 then none else some i

def viewsOf (es : List (String × Schema × Compatibility)) : List VersionView :=
  es.mapIdx (fun i e => ⟨i + 1, e.1, e.2.1, e.2.2, previousOf i, decide (i + 1 = es.length)⟩)

/-- A row of a history names its predecessor by version as well as by id. -/
theorem viewRow_eq {rows : List SchemaVersionRecord} (h : History rows)
    (hid : (rows.map SchemaVersionRecord.id).Nodup) {i : Nat} {r : SchemaVersionRecord}
    (hr : rows[i]? = some r) :
    viewRow rows r = ⟨i + 1, r.fingerprint, r.canonicalSchema, r.compatibilityClassification, previousOf i,
      decide (i + 1 = rows.length)⟩ := by
  have hprev : (rows.find? (fun s => some s.id = r.previousVersionId)).map SchemaVersionRecord.version =
      previousOf i := by
    rw [h.previous i r hr, previousOf]
    by_cases hi : i = 0
    · rw [if_pos hi, if_pos hi]
      simp
    · have hlt := (List.getElem?_eq_some_iff.mp hr).1
      obtain ⟨p, hp⟩ : ∃ p, rows[i - 1]? = some p := ⟨_, List.getElem?_eq_getElem (by omega)⟩
      have hv := h.version (i - 1) p hp
      rw [if_neg hi, if_neg hi, hp, Option.map_some]
      simp only [Option.some.injEq]
      rw [Keyed.find?_key hid (List.mem_of_getElem? hp), Option.map_some, hv]
      congr 1
      omega
  have hcur : r.isCurrent = decide (i + 1 = rows.length) := by
    rw [Bool.eq_iff_iff, decide_eq_true_iff]
    exact h.current i r hr
  rw [viewRow, hprev, h.version i r hr, hcur]

theorem viewRows_eq {rows : List SchemaVersionRecord} (h : History rows)
    (hid : (rows.map SchemaVersionRecord.id).Nodup) :
    rows.map (viewRow rows) = viewsOf (rows.map entry) := by
  apply List.ext_getElem?
  intro i
  rw [viewsOf, List.getElem?_map, List.getElem?_mapIdx, List.getElem?_map, List.length_map]
  cases hr : rows[i]? with
  | none => rfl
  | some r =>
    rw [Option.map_some, viewRow_eq h hid hr]
    rfl

theorem nodup_rowsOf {db : Db} (h : Tidy db) (key : EndpointKey) :
    ((rowsOf db key).map SchemaVersionRecord.id).Nodup := by
  rw [rowsOf]
  split
  · exact List.nodup_nil
  · exact h.versionIds.sublist (List.filter_sublist.map _)

/-- The tables are determined by the log, up to the generated ids. -/
theorem view_eq {db : Db} (h : Registered db) (key : EndpointKey) :
    view db key = (if logOf db key = [] then none else some (endpointName key), viewsOf (logOf db key)) := by
  rw [view, h.endpoint_name key, viewRows_eq (history_rowsOf h.tidy key) (nodup_rowsOf h.tidy key), logOf]

section

variable (jsonb : Schema → Option Schema)

/-- The answer of a call, up to the generated ids. -/
def resultView (key : EndpointKey) (r : Except PyError (Db × Endpoint × SchemaVersionRecord × Bool)) :
    Except PyError (String × VersionView × Bool) :=
  r.map (fun a => (a.2.1.endpointName, viewRow (rowsOf a.1 key) a.2.2.1, a.2.2.2))

/-- What a call answers, from the log of its endpoint alone. -/
def outcome (es : List (String × Schema × Compatibility)) (s : Submission) :
    Except PyError (String × VersionView × Bool) :=
  match (viewsOf es).find? (fun v => v.fingerprint = s.fingerprint) with
  | some v => .ok (endpointName s.key, v, false)
  | none =>
    match jsonb s.canonicalSchema with
    | none => .error .DataError
    | some _ =>
      .ok (endpointName s.key, ⟨es.length + 1, s.fingerprint, s.canonicalSchema, s.classification,
        previousOf es.length, true⟩, true)

theorem find?_viewsOf {db : Db} (h : Registered db) (key : EndpointKey) (f : String) :
    (viewsOf (logOf db key)).find? (fun v => v.fingerprint = f) =
      (knownRow db key f).map (viewRow (rowsOf db key)) := by
  rw [logOf, ← viewRows_eq (history_rowsOf h.tidy key) (nodup_rowsOf h.tidy key), List.find?_map]
  rfl

theorem viewRow_added {db db1 : Db} {s : Submission} {e : Endpoint} (hens : Ensured db s.key db1 e)
    {stored : Schema}
    (ht : Tidy (grow db1 e.id (newVersion db1 e s.fingerprint stored s.classification))) :
    let new := newVersion db1 e s.fingerprint stored s.classification
    viewRow (rowsOf (grow db1 e.id new) s.key) { new with canonicalSchema := s.canonicalSchema } =
      ⟨(logOf db s.key).length + 1, s.fingerprint, s.canonicalSchema, s.classification,
        previousOf (logOf db s.key).length, true⟩ := by
  intro new
  have hrows : rowsOf (grow db1 e.id new) s.key = (rowsOf db s.key).map clearCurrent ++ [new] := by
    rw [ensured_rowsOf_grow hens _ rfl, if_pos rfl]
  have hlen : (logOf db s.key).length = (rowsOf db s.key).length := List.length_map _
  have hlast : (rowsOf (grow db1 e.id new) s.key)[(rowsOf db s.key).length]? = some new := by
    rw [hrows, ← List.length_map clearCurrent, List.getElem?_concat_length]
  have hview := viewRow_eq (history_rowsOf ht s.key) (nodup_rowsOf ht s.key) hlast
  have htotal : (rowsOf (grow db1 e.id new) s.key).length = (rowsOf db s.key).length + 1 := by
    rw [hrows, List.length_append, List.length_map, List.length_singleton]
  rw [htotal, decide_eq_true rfl] at hview
  rw [hlen]
  exact congrArg (fun v : VersionView => { v with canonicalSchema := s.canonicalSchema }) hview

theorem resultView_upsert {db : Db} (h : Registered db) (s : Submission) :
    resultView s.key (upsert jsonb db s) = outcome jsonb (logOf db s.key) s := by
  have hup := upserted jsonb h.tidy s
  have ht := tidy_submit jsonb h.tidy s
  have hfind := find?_viewsOf h s.key s.fingerprint
  rw [submit] at ht
  rw [outcome]
  generalize upsert jsonb db s = r at hup ht
  cases hup with
  | @known e row hf hrow =>
    rw [hfind, hrow]
    change Except.ok (e.endpointName, _, _) = _
    rw [h.named s.key e hf]
    rfl
  | refused hrow hs =>
    rw [hfind, hrow, hs]
    rfl
  | @added db1 e stored hens hname hrow hs =>
    have hn : e.endpointName = endpointName s.key := by
      obtain ⟨hf, -⟩ | ⟨hf, -⟩ := hens.fresh
      · exact h.named s.key e hf
      · exact hname hf
    rw [hfind, hrow, hs]
    change Except.ok (e.endpointName, _, _) = _
    rw [hn, viewRow_added hens ht]
    rfl

/-- A submission for another endpoint does not show in the log of this one. -/
theorem logOf_submit_of_ne {db : Db} (h : Tidy db) {s : Submission} {key : EndpointKey} (hk : key ≠ s.key) :
    logOf (submit jsonb db s) key = logOf db key := by
  rw [logOf_submit jsonb h, putEntry]
  cases hw : entryOf jsonb s with
  | none => rfl
  | some w =>
    obtain ⟨stored, -, rfl⟩ := Option.map_eq_some_iff.mp hw
    exact put_apply_of_ne _ hk _

theorem putEntry_comm (m : Log EndpointKey String (Schema × Compatibility)) {s t : Submission}
    (h : s.key ≠ t.key) :
    putEntry jsonb (putEntry jsonb m s) t = putEntry jsonb (putEntry jsonb m t) s := by
  unfold putEntry
  cases hs : entryOf jsonb s with
  | none => rfl
  | some v =>
    cases ht : entryOf jsonb t with
    | none => rfl
    | some w =>
      obtain ⟨stored, -, rfl⟩ := Option.map_eq_some_iff.mp hs
      obtain ⟨stored', -, rfl⟩ := Option.map_eq_some_iff.mp ht
      exact put_comm m h _ _

theorem view_submit_comm {db : Db} (h : Registered db) {s t : Submission} (hne : s.key ≠ t.key)
    (key : EndpointKey) :
    view (submit jsonb (submit jsonb db s) t) key = view (submit jsonb (submit jsonb db t) s) key := by
  have hs := registered_submit jsonb h s
  have ht := registered_submit jsonb h t
  rw [view_eq (registered_submit jsonb hs t), view_eq (registered_submit jsonb ht s),
    logOf_submit jsonb hs.tidy, logOf_submit jsonb ht.tidy, logOf_submit jsonb h.tidy,
    logOf_submit jsonb h.tidy, putEntry_comm jsonb _ hne]

/-- After any series of submissions: the versions are those of the endpoints and, endpoint by
endpoint, the first submissions of their fingerprints; a call adds a version exactly for a
fingerprint that is not among them, and otherwise answers with its row and changes nothing;
calls for two endpoints commute. -/
theorem upsert_after_submissions (submissions : List Submission) :
    let db := runSubmissions jsonb submissions
    (∀ r ∈ db.versions, ∃ key, r ∈ rowsOf db key) ∧
    (∀ key, History (rowsOf db key) ∧
      (rowsOf db key).map entry = firsts (accepted jsonb submissions key)) ∧
    (∀ s, match upsert jsonb db s with
      | .ok (db', _, row, inserted) =>
        (inserted ↔ s.fingerprint ∉ keys (accepted jsonb submissions s.key)) ∧
        (inserted = false → db' = db ∧ row ∈ rowsOf db s.key ∧ row.fingerprint = s.fingerprint)
      | .error _ =>
        jsonb s.canonicalSchema = none ∧ s.fingerprint ∉ keys (accepted jsonb submissions s.key)) ∧
    (∀ s t, s.key ≠ t.key →
      (∀ key, view (submit jsonb (submit jsonb db s) t) key = view (submit jsonb (submit jsonb db t) s) key) ∧
      resultView s.key (upsert jsonb (submit jsonb db t) s) = resultView s.key (upsert jsonb db s)) := by
  intro db
  have hr : Registered db := registered_runSubmissions jsonb submissions
  have hlog : ∀ key, logOf db key = firsts (accepted jsonb submissions key) :=
    logOf_runSubmissions jsonb submissions
  have hnew : ∀ s : Submission, knownRow db s.key s.fingerprint = none ↔
      s.fingerprint ∉ keys (accepted jsonb submissions s.key) := by
    intro s
    rw [knownRow_eq_none_iff, hlog, mem_keys_firsts]
  refine ⟨hr.owned, fun key => ⟨history_rowsOf hr.tidy key, hlog key⟩, fun s => ?_, fun s t hne => ?_⟩
  · have hup := upserted jsonb hr.tidy s
    generalize upsert jsonb db s = r at hup
    cases hup with
    | known hf hrow =>
      have hin : ¬s.fingerprint ∉ keys (accepted jsonb submissions s.key) := by
        rw [← hnew, hrow]
        exact fun h => by cases h
      exact ⟨⟨fun h => absurd h Bool.false_ne_true, fun h => absurd h hin⟩,
        fun _ => ⟨rfl, knownRow_eq_some hrow⟩⟩
    | refused hrow hs => exact ⟨hs, (hnew s).mp hrow⟩
    | added hens _ hrow hs => exact ⟨⟨fun _ => (hnew s).mp hrow, fun _ => rfl⟩, fun h => by cases h⟩
  · refine ⟨view_submit_comm jsonb hr hne, ?_⟩
    rw [resultView_upsert jsonb hr, resultView_upsert jsonb (registered_submit jsonb hr t),
      logOf_submit_of_ne jsonb hr.tidy hne]

end

/-- A fingerprint that comes back keeps its first version. -/
theorem upsert_after_submissions_repeated :
    let key : EndpointKey := ⟨"n", "svc", "POST", "/orders"⟩
    let other : EndpointKey := ⟨"n", "svc", "GET", "/orders"⟩
    let submissions : List Submission := [⟨key, "f", .str "a", .SAFE⟩, ⟨other, "f", .str "b", .SAFE⟩,
      ⟨key, "g", .str "c", .RISKY⟩, ⟨key, "f", .str "d", .BREAKING⟩]
    (rowsOf (runSubmissions some submissions) key).map entry =
      [("f", .str "a", .SAFE), ("g", .str "c", .RISKY)] := by
  intro key other submissions
  have h := ((upsert_after_submissions some submissions).2.1 key).2
  rw [h]
  decide

end Views

end SchemaPilot.UpsertHistory
