import SchemaPilot.Registry
import Mathlib.Data.List.Induction

namespace SchemaPilot.Track

open JsonText Digest Canonical Classifier Registry

structure Call where
  key : EndpointKey
  payload : Payload

/-- What `track_contract` returns to its caller about the registry. -/
structure TrackResult where
  endpointId : Nat
  endpointName : String
  namespace_ : String
  schemaVersion : Nat
  fingerprint : String
  inserted : Bool
  compatibilityClassification : Compatibility
  diffCount : Nat
  deriving DecidableEq

def ensureEndpoint (db : Db) (key : EndpointKey) : Except PyError (Db × Endpoint) :=
  match findEndpoint db.endpoints key with
  | some e => .ok (db, e)
  | none =>
    let e : Endpoint := { id := db.nextId, key, endpointName := endpointName key }
    let db := { db with endpoints := db.endpoints ++ [e], nextId := db.nextId + 1 }
    match findEndpoint db.endpoints key with
    | some e => .ok (db, e)
    | none => .error .NoResultFound

def clearEndpoint (endpointId : Nat) (versions : List SchemaVersionRecord) :
    List SchemaVersionRecord :=
  versions.map (fun r => if r.endpointId = endpointId then clearCurrent r else r)

section

-- the cast to `jsonb` may reorder keys, and fails on text that PostgreSQL cannot store
variable (sha256 : ByteArray → String) (isPrintable : Char → Bool) (jsonb : Schema → Option Schema)

def newVersion (db : Db) (e : Endpoint) (fingerprint : String) (stored : Schema)
    (classification : Compatibility) : SchemaVersionRecord :=
  newRow db.nextId e.id (getCurrentSchema db.versions e.id) fingerprint stored classification

def insertVersion (db : Db) (e : Endpoint) (fingerprint : String) (canonicalSchema : Schema)
    (classification : Compatibility) : Except PyError (Db × SchemaVersionRecord) :=
  let current := getCurrentSchema db.versions e.id
  let versions := if current.isSome then clearEndpoint e.id db.versions else db.versions
  match jsonb canonicalSchema with
  | none => .error .DataError
  | some stored =>
    let new := newVersion db e fingerprint stored classification
    if versions.any (conflicts new) then .error .IntegrityError
    else .ok ({ db with versions := versions ++ [new], nextId := db.nextId + 1 }, new)

/-- One call with no other transaction around: the second look at the fingerprint, after
the lock, sees what the first saw. -/
def upsertSchemaVersion (db : Db) (key : EndpointKey) (fingerprint : String)
    (canonicalSchema : Schema) (classification : Compatibility) :
    Except PyError (Db × Endpoint × SchemaVersionRecord × Bool) := do
  let (db, e) ← ensureEndpoint db key
  match findFingerprint db.versions e.id fingerprint with
  | some row => return (db, e, row, false)
  | none =>
    let (db, new) ← insertVersion jsonb db e fingerprint canonicalSchema classification
    return (db, e, { new with canonicalSchema }, true)

def setClassification (versions : List SchemaVersionRecord) (id : Nat) (c : Compatibility) :
    List SchemaVersionRecord :=
  versions.map (fun r => if r.id = id then { r with compatibilityClassification := c } else r)

/-- The diff of a new version against its predecessor, and the version's classification stored. -/
def classifyVersion (db : Db) (new : SchemaVersionRecord) (canonicalSchema : Schema) :
    Except PyError (Db × Compatibility × List DiffItem) :=
  match new.previousVersionId with
  | none => .ok (db, .SAFE, [])
  | some previous =>
    match db.versions.find? (fun r => r.id = previous) with
    | none => .error .NoResultFound
    | some prior =>
      match diffAndClassify isPrintable prior.canonicalSchema canonicalSchema with
      | .error e => .error e
      | .ok diffs =>
        let c := summarizeClassification diffs
        .ok ({ db with versions := setClassification db.versions new.id c }, c, diffs)

def trackContract (db : Db) (call : Call) : Except PyError (Db × TrackResult) := do
  let canonicalSchema := canonicalize call.payload.json
  let newFingerprint := fingerprint sha256 canonicalSchema
  let (db, e, new, inserted) ←
    upsertSchemaVersion jsonb db call.key newFingerprint canonicalSchema .SAFE
  let (db, classification, diffs) ←
    if inserted then classifyVersion isPrintable db new canonicalSchema else .ok (db, .SAFE, [])
  return (db, {
    endpointId := e.id
    endpointName := e.endpointName
    namespace_ := call.key.namespace_
    schemaVersion := new.version
    fingerprint := newFingerprint
    inserted
    compatibilityClassification := classification
    diffCount := diffs.length })

/-- The request handler commits when the call returns; an exception rolls back. -/
def trackPayload (db : Db) (call : Call) : Db :=
  match trackContract sha256 isPrintable jsonb db call with
  | .ok (db, _) => db
  | .error _ => db

def runCalls (calls : List Call) : Db := calls.foldl (trackPayload sha256 isPrintable jsonb) Db.empty

end

/-- Every endpoint has a history, and the ids in use are distinct and below the next one. -/
structure Tidy (db : Db) : Prop where
  history : ∀ e, History (versionsOf db.versions e)
  endpointIds : (db.endpoints.map Endpoint.id).Nodup
  endpointId_lt : ∀ e ∈ db.endpoints, e.id < db.nextId
  versionIds : (db.versions.map SchemaVersionRecord.id).Nodup
  versionId_lt : ∀ r ∈ db.versions, r.id < db.nextId ∧ r.endpointId < db.nextId

theorem tidy_empty : Tidy Db.empty :=
  ⟨fun _ => history_nil, by simp [Db.empty], by simp [Db.empty], by simp [Db.empty],
    by simp [Db.empty]⟩

theorem findEndpoint_append {endpoints : List Endpoint} {new : Endpoint}
    (h : findEndpoint endpoints new.key = none) (key : EndpointKey) :
    findEndpoint (endpoints ++ [new]) key =
      if key = new.key then some new else findEndpoint endpoints key := by
  rw [findEndpoint, List.find?_append]
  split
  · next hk =>
    rw [hk, show endpoints.find? (fun e => e.key = new.key) = none from h]
    simp
  · next hk => simp [findEndpoint, Ne.symm hk]

/-- The registry once the endpoint of a call is there: nothing else has changed, and an
endpoint that was not there before has no versions. -/
structure Ensured (db : Db) (key : EndpointKey) (db1 : Db) (e : Endpoint) : Prop where
  tidy : Tidy db1
  versions : db1.versions = db.versions
  mem : e ∈ db1.endpoints
  find : ∀ k, findEndpoint db1.endpoints k =
    if k = key then some e else findEndpoint db.endpoints k
  fresh : findEndpoint db.endpoints key = some e ∧ db1 = db ∨
    findEndpoint db.endpoints key = none ∧ versionsOf db.versions e.id = []

theorem ensureEndpoint_spec {db : Db} (h : Tidy db) (key : EndpointKey) :
    ∃ db1 e, ensureEndpoint db key = .ok (db1, e) ∧ Ensured db key db1 e := by
  rw [ensureEndpoint]
  cases hf : findEndpoint db.endpoints key with
  | some e =>
    obtain ⟨hm, hk⟩ := findEndpoint_eq_some hf
    refine ⟨db, e, rfl, h, rfl, hm, fun k => ?_, .inl ⟨hf, rfl⟩⟩
    split
    · next he => rw [he, hf]
    · rfl
  | none =>
    have hlt := h.endpointId_lt
    have hfind := @findEndpoint_append db.endpoints
      { id := db.nextId, key, endpointName := endpointName key } hf
    simp only [hfind, if_true]
    refine ⟨_, _, rfl, ⟨h.history, ?_, ?_, h.versionIds, ?_⟩, rfl, by simp, hfind, .inr ⟨hf, ?_⟩⟩
    · exact Keyed.nodup_map_concat h.endpointIds fun e he => (hlt e he).ne
    · intro e he
      simp only [List.mem_append, List.mem_singleton] at he
      obtain he | rfl := he
      · have := hlt e he
        dsimp only
        omega
      · dsimp only
        omega
    · intro r hr
      have := h.versionId_lt r hr
      dsimp only
      omega
    · apply List.filter_eq_nil_iff.mpr
      intro r hr
      have := (h.versionId_lt r hr).2
      simp only [decide_eq_true_eq]
      omega

theorem versionsOf_clearEndpoint (e e' : Nat) (versions : List SchemaVersionRecord) :
    versionsOf (clearEndpoint e versions) e' =
      if e' = e then (versionsOf versions e').map clearCurrent else versionsOf versions e' := by
  rw [clearEndpoint, versionsOf_map (by intro r; split <;> rfl)]
  split
  · next he =>
    apply List.map_congr_left
    intro r hr
    rw [if_pos (he ▸ (mem_versionsOf.mp hr).2)]
  · next he =>
    refine (List.map_congr_left fun r hr => ?_).trans (List.map_id _)
    rw [if_neg fun hc => he ((mem_versionsOf.mp hr).2.symm.trans hc)]
    rfl

theorem versionsOf_singleton (e : Nat) (r : SchemaVersionRecord) :
    versionsOf [r] e = if r.endpointId = e then [r] else [] := by
  by_cases h : r.endpointId = e <;> simp [versionsOf, h]

/-- The versions of an endpoint after its current one is cleared and a new one added. -/
def grown (versions : List SchemaVersionRecord) (e : Nat) (new : SchemaVersionRecord) :
    List SchemaVersionRecord :=
  clearEndpoint e versions ++ [new]

def grow (db : Db) (e : Nat) (new : SchemaVersionRecord) : Db :=
  { db with versions := grown db.versions e new, nextId := db.nextId + 1 }

theorem versionsOf_grown {e : Nat} {new : SchemaVersionRecord} (he : new.endpointId = e)
    (versions : List SchemaVersionRecord) (e' : Nat) :
    versionsOf (grown versions e new) e' =
      if e' = e then (versionsOf versions e').map clearCurrent ++ [new]
      else versionsOf versions e' := by
  rw [grown, versionsOf_append, versionsOf_clearEndpoint, versionsOf_singleton, he]
  by_cases h : e' = e
  · simp [h]
  · simp [h, Ne.symm h]

theorem mem_grown {versions : List SchemaVersionRecord} {e : Nat} {new r : SchemaVersionRecord}
    (h : r ∈ grown versions e new) :
    r = new ∨ ∃ s ∈ versions, r.id = s.id ∧ r.endpointId = s.endpointId := by
  obtain h | h := List.mem_append.mp h
  · obtain ⟨s, hs, rfl⟩ := List.mem_map.mp h
    refine .inr ⟨s, hs, ?_⟩
    split <;> exact ⟨rfl, rfl⟩
  · exact .inl (List.mem_singleton.mp h)

theorem ids_grown (versions : List SchemaVersionRecord) (e : Nat) (new : SchemaVersionRecord) :
    (grown versions e new).map SchemaVersionRecord.id =
      versions.map SchemaVersionRecord.id ++ [new.id] := by
  rw [grown, List.map_append, clearEndpoint, List.map_map, List.map_singleton]
  congr 1
  apply List.map_congr_left
  intro r _
  rw [Function.comp_apply]
  split <;> rfl

theorem nodup_ids_grown {db : Db} (h : Tidy db) {new : SchemaVersionRecord} (hid : new.id = db.nextId)
    (e : Nat) : ((grown db.versions e new).map SchemaVersionRecord.id).Nodup := by
  have hnodup : ((db.versions ++ [new]).map SchemaVersionRecord.id).Nodup :=
    Keyed.nodup_map_concat h.versionIds fun r hr => ((h.versionId_lt r hr).1.trans_eq hid.symm).ne
  rw [ids_grown]
  rwa [List.map_append, List.map_singleton] at hnodup

theorem clearEndpoint_eq_self {versions : List SchemaVersionRecord} {e : Nat}
    (h : versionsOf versions e = []) : clearEndpoint e versions = versions := by
  refine (List.map_congr_left fun r hr => ?_).trans (List.map_id _)
  rw [if_neg fun hc => List.not_mem_nil (h ▸ mem_versionsOf.mpr ⟨hr, hc⟩)]
  rfl

theorem getCurrentSchema_eq {db : Db} (h : Tidy db) (e : Nat) :
    getCurrentSchema db.versions e = (versionsOf db.versions e).getLast? :=
  (h.history e).latest_current

theorem tidy_grow {db : Db} (h : Tidy db) {e : Endpoint} (he : e.id < db.nextId) {f : String}
    (hf : findFingerprint db.versions e.id f = none) (stored : Schema) (c : Compatibility) :
    Tidy (grow db e.id (newVersion db e f stored c)) := by
  have hcurrent := getCurrentSchema_eq h e.id
  have hnext : (grow db e.id (newVersion db e f stored c)).nextId = db.nextId + 1 := rfl
  refine ⟨fun i => ?_, h.endpointIds, fun e' he' => ?_, ?_, fun r hr => ?_⟩
  · rw [grow, versionsOf_grown (by rfl)]
    split
    · next hi =>
      subst hi
      apply (h.history e.id).concat
      · rw [newVersion, newRow, hcurrent]
        exact (h.history e.id).nextVersion_getLast?
      · rw [newVersion, newRow, hcurrent]
      · rfl
      · exact (findFingerprint_eq_none_iff _ _ _).mp hf
    · exact h.history i
  · have := h.endpointId_lt e' he'
    omega
  · exact nodup_ids_grown h rfl e.id
  · rw [hnext]
    obtain rfl | ⟨s, hs, hid, hep⟩ := mem_grown hr
    · simp only [newVersion, newRow]
      omega
    · have := h.versionId_lt s hs
      omega

theorem not_conflicts {db : Db} (h : Tidy db) {e : Endpoint} {f : String}
    (hf : findFingerprint db.versions e.id f = none) (stored : Schema) (c : Compatibility) :
    (clearEndpoint e.id db.versions).any (conflicts (newVersion db e f stored c)) = false := by
  apply List.any_eq_false.mpr
  intro s hs hc
  obtain ⟨r, hr, rfl⟩ := List.mem_map.mp hs
  have hcols : ∀ p : Prop, [Decidable p] → (if p then clearCurrent r else r).endpointId = r.endpointId ∧
      (if p then clearCurrent r else r).version = r.version ∧
      (if p then clearCurrent r else r).fingerprint = r.fingerprint := by
    intro p _
    split <;> exact ⟨rfl, rfl, rfl⟩
  obtain ⟨h1, h2, h3⟩ := hcols (r.endpointId = e.id)
  simp only [conflicts, h1, h2, h3, newVersion, newRow, Bool.and_eq_true, Bool.or_eq_true,
    decide_eq_true_eq] at hc
  have hmem : r ∈ versionsOf db.versions e.id := mem_versionsOf.mpr ⟨hr, hc.1.symm⟩
  obtain hv | hfp := hc.2
  · rw [getCurrentSchema_eq h, (h.history e.id).nextVersion_getLast?] at hv
    have hle := ((h.history e.id).version_le hmem).2
    omega
  · exact (findFingerprint_eq_none_iff _ _ _).mp hf r hmem hfp.symm

/-- A version inserted under a new fingerprint never collides, and continues the history. -/
theorem insertVersion_spec (jsonb : Schema → Option Schema) {db : Db} (h : Tidy db) {e : Endpoint}
    {f : String} (hf : findFingerprint db.versions e.id f = none) (schema : Schema)
    (c : Compatibility) :
    insertVersion jsonb db e f schema c =
      match jsonb schema with
      | none => .error .DataError
      | some stored =>
        .ok (grow db e.id (newVersion db e f stored c), newVersion db e f stored c) := by
  have hclear : (if (getCurrentSchema db.versions e.id).isSome then clearEndpoint e.id db.versions
      else db.versions) = clearEndpoint e.id db.versions := by
    split
    · rfl
    · next hn =>
      rw [getCurrentSchema_eq h, Option.not_isSome_iff_eq_none, List.getLast?_eq_none_iff] at hn
      exact (clearEndpoint_eq_self hn).symm
  simp only [insertVersion, hclear]
  cases jsonb schema with
  | none => rfl
  | some stored =>
    dsimp only
    rw [not_conflicts h hf, if_neg Bool.false_ne_true]
    rfl

theorem setClassification_grown {db : Db} (h : Tidy db) (e : Nat) {new : SchemaVersionRecord}
    (hid : new.id = db.nextId) (c : Compatibility) :
    setClassification (grown db.versions e new) new.id c =
      grown db.versions e { new with compatibilityClassification := c } := by
  rw [setClassification, grown, List.map_append, List.map_singleton, if_pos rfl, grown]
  congr 1
  refine (List.map_congr_left fun r hr => if_neg fun hc => ?_).trans (List.map_id _)
  obtain ⟨s, hs, rfl⟩ := List.mem_map.mp hr
  have hrid : (if s.endpointId = e then clearCurrent s else s).id = s.id := by split <;> rfl
  have hlt := (h.versionId_lt s hs).1
  omega

/-- The predecessor that the diff is taken against is the version that was current. -/
theorem find?_previous {db : Db} (h : Tidy db) {e : Nat} {new : SchemaVersionRecord}
    (hid : new.id = db.nextId) {cur : SchemaVersionRecord}
    (hc : getCurrentSchema db.versions e = some cur) :
    (grown db.versions e new).find? (fun r => r.id = cur.id) = some (clearCurrent cur) := by
  have hm : cur ∈ versionsOf db.versions e := by
    rw [getCurrentSchema_eq h] at hc
    exact List.mem_of_getLast? hc
  obtain ⟨hmem, hep⟩ := mem_versionsOf.mp hm
  have hclear : clearCurrent cur ∈ grown db.versions e new :=
    List.mem_append_left _ (List.mem_map.mpr ⟨cur, hmem, if_pos hep⟩)
  exact Keyed.find?_key (nodup_ids_grown h hid e) hclear

theorem classifyVersion_spec (isPrintable : Char → Bool) {db : Db} (h : Tidy db) (e : Endpoint)
    (f : String) (stored schema : Schema) :
    classifyVersion isPrintable (grow db e.id (newVersion db e f stored .SAFE))
        { newVersion db e f stored .SAFE with canonicalSchema := schema } schema =
      match getCurrentSchema db.versions e.id with
      | none => .ok (grow db e.id (newVersion db e f stored .SAFE), .SAFE, [])
      | some cur =>
        match diffAndClassify isPrintable cur.canonicalSchema schema with
        | .error err => .error err
        | .ok diffs =>
          .ok (grow db e.id (newVersion db e f stored (summarizeClassification diffs)),
            summarizeClassification diffs, diffs) := by
  have hprev : (newVersion db e f stored .SAFE).previousVersionId =
      previousId (getCurrentSchema db.versions e.id) := rfl
  simp only [classifyVersion, hprev]
  cases hc : getCurrentSchema db.versions e.id with
  | none => rfl
  | some cur =>
    have hfind : (grow db e.id (newVersion db e f stored .SAFE)).versions.find?
        (fun r => r.id = cur.id) = some (clearCurrent cur) := find?_previous h rfl hc
    simp only [previousId, Option.map_some, hfind]
    rw [show (clearCurrent cur).canonicalSchema = cur.canonicalSchema from rfl]
    cases diffAndClassify isPrintable cur.canonicalSchema schema with
    | error err => rfl
    | ok diffs =>
      have hset := @setClassification_grown db h e.id (newVersion db e f stored .SAFE) rfl
        (summarizeClassification diffs)
      exact congrArg (fun v => Except.ok ({ db with versions := v, nextId := db.nextId + 1 }, _, _)) hset

section

variable (sha256 : ByteArray → String) (isPrintable : Char → Bool) (jsonb : Schema → Option Schema)

def Call.fingerprint (call : Call) : String :=
  Canonical.fingerprint sha256 (canonicalize call.payload.json)

/-- What a call that returns has done: found its fingerprint, or added a version that was
compared with the current one. -/
theorem trackContract_cases {db db' : Db} (h : Tidy db) {call : Call} {res : TrackResult}
    (hok : trackContract sha256 isPrintable jsonb db call = .ok (db', res)) :
    ∃ db1 e, Ensured db call.key db1 e ∧
      ((findFingerprint db.versions e.id (call.fingerprint sha256)).isSome ∧ db' = db1 ∧
          res.inserted = false ∧ res.compatibilityClassification = .SAFE ∨
        findFingerprint db.versions e.id (call.fingerprint sha256) = none ∧ res.inserted = true ∧
          ∃ stored c, jsonb (canonicalize call.payload.json) = some stored ∧
            res.compatibilityClassification = c ∧
            db' = grow db1 e.id (newVersion db1 e (call.fingerprint sha256) stored c) ∧
            match getCurrentSchema db.versions e.id with
            | none => c = .SAFE
            | some cur => ∃ diffs,
              diffAndClassify isPrintable cur.canonicalSchema (canonicalize call.payload.json) =
                .ok diffs ∧ c = summarizeClassification diffs) := by
  obtain ⟨db1, e, he, hens⟩ := ensureEndpoint_spec h call.key
  refine ⟨db1, e, hens, ?_⟩
  have h1 := hens.tidy
  have hv := hens.versions
  unfold trackContract upsertSchemaVersion at hok
  change _ = Except.ok (db', res) at hok
  simp only [he, bind, Except.bind, hv] at hok
  cases hf : findFingerprint db.versions e.id (call.fingerprint sha256) with
  | some row =>
    simp only [Call.fingerprint] at hf
    simp only [hf, pure, Except.pure, Bool.false_eq_true, if_false, Except.ok.injEq,
      Prod.mk.injEq] at hok
    obtain ⟨rfl, rfl⟩ := hok
    exact .inl ⟨rfl, rfl, rfl, rfl⟩
  | none =>
    have hf1 : findFingerprint db1.versions e.id (call.fingerprint sha256) = none := by rw [hv, hf]
    simp only [Call.fingerprint] at hf hf1
    simp only [hf, insertVersion_spec jsonb h1 hf1] at hok
    cases hs : jsonb (canonicalize call.payload.json) with
    | none => simp [hs] at hok
    | some stored =>
      have hspec := classifyVersion_spec isPrintable h1 e (call.fingerprint sha256) stored
        (canonicalize call.payload.json)
      simp only [Call.fingerprint] at hspec
      simp only [hs, pure, Except.pure, if_true, hspec, hv] at hok
      refine .inr ⟨rfl, ?_⟩
      cases hc : getCurrentSchema db.versions e.id with
      | none =>
        simp only [hc, Except.ok.injEq, Prod.mk.injEq] at hok
        obtain ⟨rfl, rfl⟩ := hok
        exact ⟨rfl, stored, .SAFE, rfl, rfl, rfl, rfl⟩
      | some cur =>
        simp only [hc] at hok
        cases hd : diffAndClassify isPrintable cur.canonicalSchema
            (canonicalize call.payload.json) with
        | error err => simp [hd] at hok
        | ok diffs =>
          simp only [hd, Except.ok.injEq, Prod.mk.injEq] at hok
          obtain ⟨rfl, rfl⟩ := hok
          exact ⟨rfl, stored, _, rfl, rfl, rfl, diffs, hd, rfl⟩

end

theorem findFingerprint_isSome_iff (versions : List SchemaVersionRecord) (e : Nat) (f : String) :
    (findFingerprint versions e f).isSome ↔ ∃ r ∈ versionsOf versions e, r.fingerprint = f := by
  simp [findFingerprint]

/-- The fingerprint is among the versions of the endpoint. -/
def Known (db : Db) (key : EndpointKey) (f : String) : Prop :=
  ((findEndpoint db.endpoints key).bind (fun e => findFingerprint db.versions e.id f)).isSome

instance (db : Db) (key : EndpointKey) (f : String) : Decidable (Known db key f) :=
  inferInstanceAs (Decidable (_ = true))

theorem known_iff_exists (db : Db) (key : EndpointKey) (f : String) :
    Known db key f ↔
      ∃ e, findEndpoint db.endpoints key = some e ∧ (findFingerprint db.versions e.id f).isSome := by
  rw [Known]
  cases findEndpoint db.endpoints key <;> simp

/-- The current version of the endpoint, if there is one. -/
def currentOf (db : Db) (key : EndpointKey) : Option SchemaVersionRecord :=
  (findEndpoint db.endpoints key).bind (fun e => getCurrentSchema db.versions e.id)

theorem Ensured.known_iff {db db1 : Db} {key : EndpointKey} {e : Endpoint}
    (h : Ensured db key db1 e) (f : String) :
    Known db key f ↔ (findFingerprint db.versions e.id f).isSome := by
  rw [known_iff_exists]
  obtain ⟨hf, -⟩ | ⟨hf, hnil⟩ := h.fresh
  · simp [hf]
  · simp [hf, findFingerprint, hnil]

theorem Ensured.currentOf_eq {db db1 : Db} {key : EndpointKey} {e : Endpoint}
    (h : Ensured db key db1 e) : currentOf db key = getCurrentSchema db.versions e.id := by
  rw [currentOf]
  obtain ⟨hf, -⟩ | ⟨hf, hnil⟩ := h.fresh
  · simp [hf]
  · simp [hf, getCurrentSchema, hnil, latest]

/-- Another endpoint has another id. -/
theorem Ensured.id_ne {db db1 : Db} {key k : EndpointKey} {e e' : Endpoint} (h : Ensured db key db1 e)
    (hk : k ≠ key) (he' : findEndpoint db.endpoints k = some e') : e'.id ≠ e.id := by
  intro hid
  have he1 : findEndpoint db1.endpoints k = some e' := by rw [h.find, if_neg hk, he']
  obtain ⟨hm, hkey⟩ := findEndpoint_eq_some he1
  have he : findEndpoint db1.endpoints key = some e := by rw [h.find, if_pos rfl]
  rw [List.inj_on_of_nodup_map h.tidy.endpointIds hm h.mem hid] at hkey
  exact hk (hkey.symm.trans (findEndpoint_eq_some he).2)

theorem Ensured.known_grow {db db1 : Db} {key : EndpointKey} {e : Endpoint}
    (h : Ensured db key db1 e) {new : SchemaVersionRecord} (hn : new.endpointId = e.id)
    (k : EndpointKey) (f : String) :
    Known (grow db1 e.id new) k f ↔ Known db k f ∨ key = k ∧ new.fingerprint = f := by
  by_cases hk : k = key
  · subst hk
    have hfind : findEndpoint (grow db1 e.id new).endpoints k = some e := by
      rw [grow, h.find, if_pos rfl]
    rw [h.known_iff, known_iff_exists, findFingerprint_isSome_iff]
    simp only [hfind, Option.some.injEq, exists_eq_left', findFingerprint_isSome_iff]
    rw [grow, versionsOf_grown hn, if_pos rfl, h.versions]
    simp [clearCurrent, or_and_right, exists_or]
  · have hfind : findEndpoint (grow db1 e.id new).endpoints k = findEndpoint db.endpoints k := by
      rw [grow, h.find, if_neg hk]
    simp only [known_iff_exists, hfind, Ne.symm hk, false_and, or_false]
    refine exists_congr fun e' => and_congr_right fun he' => ?_
    rw [findFingerprint_isSome_iff, findFingerprint_isSome_iff, grow, versionsOf_grown hn,
      if_neg (h.id_ne hk he'), h.versions]

theorem Ensured.currentOf_grow {db db1 : Db} {key : EndpointKey} {e : Endpoint}
    (h : Ensured db key db1 e) {f : String} (hf : findFingerprint db.versions e.id f = none)
    (stored : Schema) (c : Compatibility) :
    currentOf (grow db1 e.id (newVersion db1 e f stored c)) key =
      some (newVersion db1 e f stored c) := by
  have hfind : findEndpoint (grow db1 e.id (newVersion db1 e f stored c)).endpoints key = some e := by
    rw [grow, h.find, if_pos rfl]
  have hf1 : findFingerprint db1.versions e.id f = none := by rw [h.versions, hf]
  have ht := tidy_grow h.tidy (h.tidy.endpointId_lt e h.mem) hf1 stored c
  rw [currentOf, hfind, Option.bind_some, getCurrentSchema_eq ht, grow, versionsOf_grown (by rfl),
    if_pos rfl, List.getLast?_concat]

section

variable (sha256 : ByteArray → String) (isPrintable : Char → Bool) (jsonb : Schema → Option Schema)

theorem tidy_trackPayload {db : Db} (h : Tidy db) (call : Call) :
    Tidy (trackPayload sha256 isPrintable jsonb db call) := by
  rw [trackPayload]
  split
  · next db' res hok =>
    obtain ⟨db1, e, hens, hcase⟩ := trackContract_cases sha256 isPrintable jsonb h hok
    obtain ⟨-, rfl, -, -⟩ | ⟨hf, -, stored, c, -, -, rfl, -⟩ := hcase
    · exact hens.tidy
    · exact tidy_grow hens.tidy (hens.tidy.endpointId_lt e hens.mem) (by rw [hens.versions, hf]) _ _
  · exact h

theorem tidy_runCalls (calls : List Call) : Tidy (runCalls sha256 isPrintable jsonb calls) := by
  induction calls using List.reverseRecOn with
  | nil => exact tidy_empty
  | append_singleton calls call ih =>
    rw [runCalls, List.foldl_concat]
    exact tidy_trackPayload sha256 isPrintable jsonb ih call

theorem known_trackPayload {db : Db} (h : Tidy db) (call : Call) (k : EndpointKey) (f : String) :
    Known (trackPayload sha256 isPrintable jsonb db call) k f ↔
      Known db k f ∨ call.key = k ∧ call.fingerprint sha256 = f ∧
        (trackContract sha256 isPrintable jsonb db call).isOk := by
  rw [trackPayload]
  split
  · next db' res hok =>
    obtain ⟨db1, e, hens, hcase⟩ := trackContract_cases sha256 isPrintable jsonb h hok
    simp only [hok, Except.isOk, Except.toBool, and_true]
    obtain ⟨hs, rfl, -, -⟩ | ⟨-, -, stored, c, -, -, rfl, -⟩ := hcase
    · -- the fingerprint was there already, and with it the endpoint
      have hknown := (hens.known_iff _).mpr hs
      obtain ⟨-, rfl⟩ | ⟨-, hnil⟩ := hens.fresh
      · refine ⟨.inl, ?_⟩
        rintro (hk | ⟨rfl, rfl⟩)
        · exact hk
        · exact hknown
      · simp [findFingerprint, hnil] at hs
    · exact hens.known_grow rfl k f
  · next err herr => simp [herr, Except.isOk, Except.toBool]

/-- The fingerprints the registry knows are those of the earlier calls that returned. -/
theorem known_runCalls (calls : List Call) (k : EndpointKey) (f : String) :
    Known (runCalls sha256 isPrintable jsonb calls) k f ↔
      ∃ before call after, calls = before ++ call :: after ∧ call.key = k ∧
        call.fingerprint sha256 = f ∧
        (trackContract sha256 isPrintable jsonb (runCalls sha256 isPrintable jsonb before) call).isOk := by
  induction calls using List.reverseRecOn with
  | nil => simp [runCalls, Known, Db.empty, findEndpoint]
  | append_singleton calls call ih =>
    rw [runCalls, List.foldl_concat, ← runCalls,
      known_trackPayload sha256 isPrintable jsonb (tidy_runCalls sha256 isPrintable jsonb calls), ih]
    constructor
    · rintro (⟨before, c, after, rfl, hc⟩ | hc)
      · exact ⟨before, c, after ++ [call], by simp, hc⟩
      · exact ⟨calls, call, [], rfl, hc⟩
    · rintro ⟨before, c, after, he, hc⟩
      obtain rfl | ⟨after, last, rfl⟩ := List.eq_nil_or_concat' after
      · obtain ⟨rfl, hlast⟩ := List.append_inj' he rfl
        obtain ⟨rfl, -⟩ := List.cons.inj hlast
        exact .inr hc
      · rw [← List.cons_append, ← List.append_assoc] at he
        exact .inl ⟨before, c, after, (List.append_inj' he rfl).1, hc⟩

/-- In any sequence of calls, a call that returns and brings a new fingerprint becomes the
current version and is classified against the version that was current before it; a call
whose fingerprint an earlier call of the endpoint brought changes nothing and reports SAFE. -/
theorem track_after_calls (calls : List Call) (call : Call) (db' : Db) (res : TrackResult)
    (hok : trackContract sha256 isPrintable jsonb (runCalls sha256 isPrintable jsonb calls) call =
      .ok (db', res)) :
    let db := runCalls sha256 isPrintable jsonb calls
    let f := call.fingerprint sha256
    (Known db call.key f ↔
      ∃ before c after, calls = before ++ c :: after ∧ c.key = call.key ∧
        c.fingerprint sha256 = f ∧
        (trackContract sha256 isPrintable jsonb (runCalls sha256 isPrintable jsonb before) c).isOk) ∧
    (Known db call.key f →
      db' = db ∧ res.inserted = false ∧ res.compatibilityClassification = .SAFE) ∧
    (¬Known db call.key f →
      res.inserted = true ∧
      (∃ new, currentOf db' call.key = some new ∧ new.fingerprint = f ∧
        jsonb (canonicalize call.payload.json) = some new.canonicalSchema) ∧
      match currentOf db call.key with
      | none => res.compatibilityClassification = .SAFE
      | some current => ∃ diffs,
        diffAndClassify isPrintable current.canonicalSchema (canonicalize call.payload.json) =
          .ok diffs ∧
        res.compatibilityClassification = summarizeClassification diffs) := by
  intro db f
  have ht := tidy_runCalls sha256 isPrintable jsonb calls
  obtain ⟨db1, e, hens, hcase⟩ := trackContract_cases sha256 isPrintable jsonb ht hok
  refine ⟨known_runCalls sha256 isPrintable jsonb calls call.key f, ?_, ?_⟩
  · intro hk
    have hs := (hens.known_iff f).mp hk
    obtain ⟨-, rfl, hi, hc⟩ | ⟨hf, -⟩ := hcase
    · obtain ⟨-, he⟩ | ⟨-, hnil⟩ := hens.fresh
      · exact ⟨he, hi, hc⟩
      · simp [findFingerprint, hnil] at hs
    · rw [hf] at hs
      cases hs
  · intro hk
    obtain ⟨hs, -⟩ | ⟨hf, hi, stored, c, hstored, hc, rfl, hm⟩ := hcase
    · exact absurd ((hens.known_iff f).mpr hs) hk
    · refine ⟨hi, ⟨_, hens.currentOf_grow hf stored c, rfl, hstored⟩, ?_⟩
      rw [hens.currentOf_eq, hc]
      exact hm

end

theorem except_map_eq_ok {α β ε : Type} {x : Except ε α} {f : α → β} {b : β}
    (h : x.map f = .ok b) : ∃ a, x = .ok a ∧ f a = b := by
  cases x with
  | error e => cases h
  | ok a => exact ⟨a, rfl, Except.ok.inj h⟩

/-- An integer field that becomes a float is a new version, compared with the first. -/
theorem track_after_calls_widened :
    let key : EndpointKey := ⟨"n", "svc", "POST", "/orders"⟩
    let a : Call := ⟨key, [("score", .num (.int 1))], by decide⟩
    let b : Call := ⟨key, [("score", .num (.float ⟨"1.5", by decide⟩))], by decide⟩
    let sha256 := sampleSha256 [
      (dumpsSorted (canonicalize a.payload.json),
        "0a729e6ab6035dcd37f199094b9a24d60279d01ee62db8fa3cca7c3fa2dcb417"),
      (dumpsSorted (canonicalize b.payload.json),
        "73a603da77a37e886a14b8c2ac441c920e99006a4314627c9abef71b5aed1c6a")]
    let db := runCalls sha256 (fun _ => true) some [a]
    ∃ db' res, trackContract sha256 (fun _ => true) some db b = .ok (db', res) ∧
      res.compatibilityClassification = .RISKY ∧ res.inserted = true ∧
      ∃ new, currentOf db' key = some new ∧ new.fingerprint = b.fingerprint sha256 := by
  intro key a b sha256 db
  have hmap : (trackContract sha256 (fun _ => true) some db b).map
      (fun p => p.2.compatibilityClassification) = .ok .RISKY := by decide +kernel
  obtain ⟨⟨db', res⟩, hok, hres⟩ := except_map_eq_ok hmap
  have hnew : ¬Known db key (b.fingerprint sha256) := by decide +kernel
  obtain ⟨hi, ⟨new, hc, hf, -⟩, -⟩ :=
    (track_after_calls sha256 (fun _ => true) some [a] b db' res hok).2.2 hnew
  exact ⟨db', res, hok, hres, hi, new, hc, hf⟩

/-- Drift back to the first payload: the second stays current, and the call reports SAFE. -/
theorem track_drift_back :
    let key : EndpointKey := ⟨"n", "svc", "POST", "/orders"⟩
    let a : Call := ⟨key, [("score", .num (.int 1))], by decide⟩
    let b : Call := ⟨key, [("score", .num (.float ⟨"1.5", by decide⟩))], by decide⟩
    let sha256 := sampleSha256 [
      (dumpsSorted (canonicalize a.payload.json),
        "0a729e6ab6035dcd37f199094b9a24d60279d01ee62db8fa3cca7c3fa2dcb417"),
      (dumpsSorted (canonicalize b.payload.json),
        "73a603da77a37e886a14b8c2ac441c920e99006a4314627c9abef71b5aed1c6a")]
    let db := runCalls sha256 (fun _ => true) some [a, b]
    ¬∀ db' res, trackContract sha256 (fun _ => true) some db a = .ok (db', res) →
      (∃ new, currentOf db' key = some new ∧ new.fingerprint = a.fingerprint sha256) ∧
      ∀ current, currentOf db key = some current → current.fingerprint ≠ a.fingerprint sha256 →
        ∃ diffs,
          diffAndClassify (fun _ => true) current.canonicalSchema (canonicalize a.payload.json) =
            .ok diffs ∧
          res.compatibilityClassification = summarizeClassification diffs := by
  intro key a b sha256 db h
  have hmap : (trackContract sha256 (fun _ => true) some db a).map
      (fun p => ((currentOf p.1 key).map SchemaVersionRecord.fingerprint,
        p.2.compatibilityClassification)) =
      .ok (some "73a603da77a37e886a14b8c2ac441c920e99006a4314627c9abef71b5aed1c6a", .SAFE) := by decide +kernel
  obtain ⟨⟨db', res⟩, hok, hres⟩ := except_map_eq_ok hmap
  obtain ⟨⟨new, hc, hf⟩, -⟩ := h db' res hok
  have hcurrent := (Prod.mk.inj hres).1
  rw [hc, Option.map_some, hf] at hcurrent
  revert hcurrent
  decide +kernel

end SchemaPilot.Track
