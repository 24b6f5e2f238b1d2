import SchemaPilot.RegistryHistory
import SchemaPilot.UpsertHistory

namespace SchemaPilot.RegistryRows

open Keyed Classifier Registry Track Runs RegistryTxn RegistryHistory UpsertHistory

variable {ι : Type}

section Endpoints

/-- The endpoint that a call works on: a committed one, or the one its transaction has inserted. -/
def Uses (db : Db) (t : Txn) (key : EndpointKey) (e : Endpoint) : Prop :=
  e.key = key ∧ (t.endpoint = none ∧ e ∈ db.endpoints ∨ t.endpoint = some e)

/-- The call has found a row of its fingerprint, and writes nothing. -/
structure Found (db : Db) (req : Request) (t : Txn) (record : SchemaVersionRecord) : Prop where
  endpoint : t.endpoint = none
  row : t.row = none
  cleared : t.cleared = []
  known : ∃ r ∈ rowsOf db req.key, r.fingerprint = req.fingerprint ∧ r.version = record.version

/-- The call has inserted a row, from the arguments of its request. -/
structure Inserted (c : Config ι) (db : Db) (i : ι) (t : Txn) (record r : SchemaVersionRecord) : Prop where
  row : t.row = some r
  uses : ∃ e, Uses db t (c.request i).key e ∧ e.id = r.endpointId
  version : r.version = record.version
  fingerprint : r.fingerprint = (c.request i).fingerprint
  stored : c.jsonb (c.request i).canonicalSchema = some r.canonicalSchema
  classification : r.compatibilityClassification = (c.request i).classification

/-- What a call holds at each of its statements. -/
def PcOk (c : Config ι) (db : Db) (i : ι) (t : Txn) : Prop :=
  match t.pc with
  | .selectEndpoint | .insertEndpoint => t.endpoint = none
  | .selectFingerprint e | .lock e | .selectCurrent e | .recheck e _ | .clear e _ | .clearing e _ _
  | .insert e _ => Uses db t (c.request i).key e
  | .done record true => ∃ r, Inserted c db i t record r
  | .done record false => Found db (c.request i) t record
  | .reselectEndpoint | .committed _ _ | .aborted _ => True

/-- An endpoint that is not committed yet. -/
structure FreshEndpoint (db : Db) (key : EndpointKey) (e : Endpoint) : Prop where
  key : e.key = key
  name : e.endpointName = endpointName e.key
  drawn : e.id < db.nextId
  apart : ∀ e' ∈ db.endpoints, e'.key ≠ e.key ∧ e'.id ≠ e.id

structure FreshRow (db : Db) (r : SchemaVersionRecord) : Prop where
  drawn : r.id < db.nextId
  apart : ∀ v ∈ db.versions, v.id ≠ r.id

/-- The committed tables are in order, and what is not committed yet will fit in. -/
structure Rooted (c : Config ι) (s : State ι) : Prop where
  registered : Registered s.db
  keys : (s.db.endpoints.map Endpoint.key).Nodup
  pc : ∀ i, PcOk c s.db i (s.txn i)
  endpoint : ∀ i e, (s.txn i).endpoint = some e → FreshEndpoint s.db (c.request i).key e
  row : ∀ i r, (s.txn i).row = some r → FreshRow s.db r
  endpointsApart : ∀ i j e e', i ≠ j → (s.txn i).endpoint = some e → (s.txn j).endpoint = some e' →
    e.key ≠ e'.key ∧ e.id ≠ e'.id
  rowsApart : ∀ i j r r', i ≠ j → (s.txn i).row = some r → (s.txn j).row = some r' → r.id ≠ r'.id

variable {c : Config ι} {s s' : State ι} {i : ι} {db : Db} {t : Txn} {key : EndpointKey} {e : Endpoint}

theorem rooted_init (c : Config ι) : Rooted c init where
  registered := registered_empty
  keys := List.nodup_nil
  pc _ := rfl
  endpoint _ _ h := by cases h
  row _ _ h := by cases h
  endpointsApart _ _ _ _ _ h := by cases h
  rowsApart _ _ _ _ _ h := by cases h

theorem find_of_mem (hkeys : (db.endpoints.map Endpoint.key).Nodup) (he : e ∈ db.endpoints) :
    findEndpoint db.endpoints e.key = some e :=
  Keyed.find?_key hkeys he

theorem find_none_of_fresh (h : FreshEndpoint db key e) :
    findEndpoint db.endpoints e.key = none := by
  rw [findEndpoint, List.find?_eq_none]
  intro e' he' heq
  exact (h.apart e' he').1 (of_decide_eq_true heq)

/-- Nothing is registered under an endpoint that is not committed. -/
theorem versionsOf_fresh (hreg : Registered db) (h : FreshEndpoint db key e) :
    versionsOf db.versions e.id = [] := by
  rw [List.eq_nil_iff_forall_not_mem]
  intro r hr
  obtain ⟨hm, hid⟩ := mem_versionsOf.mp hr
  obtain ⟨k, hk⟩ := hreg.owned r hm
  cases hf : findEndpoint db.endpoints k with
  | none =>
    rw [rowsOf_of_none hf] at hk
    cases hk
  | some e' =>
    rw [rowsOf_of_find hf] at hk
    have hid' := (mem_versionsOf.mp hk).2
    exact (h.apart e' (findEndpoint_eq_some hf).1).2 (hid'.symm.trans hid)

theorem find_append_endpoint (hkeys : (db.endpoints.map Endpoint.key).Nodup)
    (huses : Uses db t key e)
    (hfresh : ∀ e', t.endpoint = some e' → FreshEndpoint db key e') (k : EndpointKey) :
    findEndpoint (db.endpoints ++ t.endpoint.toList) k = if k = key then some e else findEndpoint db.endpoints k := by
  obtain ⟨rfl, ⟨hnone, he⟩ | hown⟩ := huses
  · rw [hnone, Option.toList_none, List.append_nil]
    split
    · next hk => rw [hk, find_of_mem hkeys he]
    · rfl
  · rw [hown, Option.toList_some]
    exact findEndpoint_append (find_none_of_fresh (hfresh e hown)) k

theorem rowsOf_of_uses (hreg : Registered db) (hkeys : (db.endpoints.map Endpoint.key).Nodup)
    (huses : Uses db t key e)
    (hfresh : ∀ e', t.endpoint = some e' → FreshEndpoint db key e') :
    rowsOf db key = versionsOf db.versions e.id := by
  obtain ⟨rfl, ⟨-, he⟩ | hown⟩ := huses
  · exact rowsOf_of_find (find_of_mem hkeys he)
  · have h := hfresh e hown
    rw [rowsOf_of_none (find_none_of_fresh h), versionsOf_fresh hreg h]

end Endpoints

section Steps

variable [DecidableEq ι] {c : Config ι} {s s' : State ι} {i : ι} {t : Txn}

/-- What a statement may give a transaction that it did not have: an endpoint with the next id. -/
def NewEndpoint (c : Config ι) (s : State ι) (i : ι) (n : Nat) (e : Endpoint) : Prop :=
  e = ⟨s.db.nextId, (c.request i).key, endpointName (c.request i).key⟩ ∧ s.db.nextId < n ∧
    findEndpoint s.db.endpoints (c.request i).key = none ∧
    ∀ j, j ≠ i → ∀ e', (s.txn j).endpoint = some e' → e'.key ≠ (c.request i).key

theorem FreshEndpoint.later {db : Db} {key : EndpointKey} {e : Endpoint}
    (h : FreshEndpoint db key e) {n : Nat}
    (hn : db.nextId ≤ n) : FreshEndpoint { db with nextId := n } key e :=
  ⟨h.key, h.name, h.drawn.trans_le hn, h.apart⟩

theorem FreshRow.later {db : Db} {r : SchemaVersionRecord} (h : FreshRow db r) {n : Nat}
    (hn : db.nextId ≤ n) :
    FreshRow { db with nextId := n } r :=
  ⟨h.drawn.trans_le hn, h.apart⟩

theorem registered_later {db : Db} (h : Registered db) {n : Nat} (hn : db.nextId ≤ n) :
    Registered { db with nextId := n } := by
  refine ⟨⟨h.tidy.history, h.tidy.endpointIds, fun e he => ?_, h.tidy.versionIds, fun r hr => ?_⟩, h.named, h.used,
    h.owned⟩
  · exact (h.tidy.endpointId_lt e he).trans_le hn
  · exact (h.tidy.versionId_lt r hr).imp (·.trans_le hn) (·.trans_le hn)

omit [DecidableEq ι] in
/-- What a call holds does not depend on the supply of ids. -/
theorem pcOk_later {db : Db} (n : Nat) (h : PcOk c db i t) :
    PcOk c { db with nextId := n } i t := by
  unfold PcOk at h ⊢
  cases hpc : t.pc with
  | done record inserted =>
    simp only [hpc] at h
    cases inserted with
    | true =>
      obtain ⟨r, hr⟩ := h
      exact ⟨r, hr.row, hr.uses, hr.version, hr.fingerprint, hr.stored, hr.classification⟩
    | false => exact ⟨h.endpoint, h.row, h.cleared, h.known⟩
  | _ =>
    simp only [hpc] at h
    exact h

omit [DecidableEq ι] in
theorem NewEndpoint.fresh {n : Nat} {e : Endpoint} (h : NewEndpoint c s i n e)
    (hreg : Registered s.db) :
    FreshEndpoint { s.db with nextId := n } (c.request i).key e := by
  obtain ⟨rfl, hlt, hnone, -⟩ := h
  refine ⟨rfl, rfl, hlt, fun e' he' => ⟨fun heq => ?_, fun heq => ?_⟩⟩
  · rw [findEndpoint, List.find?_eq_none] at hnone
    exact hnone e' he' (decide_eq_true heq)
  · exact absurd (hreg.tidy.endpointId_lt e' he') (heq ▸ Nat.lt_irrefl _)

/-- A statement that commits nothing. -/
theorem Rooted.set (h : Rooted c s) {n : Nat} (hn : s.db.nextId ≤ n) (hpc : PcOk c s.db i t)
    (hendpoint : ∀ e, t.endpoint = some e → (s.txn i).endpoint = some e ∨ NewEndpoint c s i n e)
    (hrow : ∀ r, t.row = some r → (s.txn i).row = some r ∨ r.id = s.db.nextId ∧ s.db.nextId < n) :
    Rooted c ({ s with db := { s.db with nextId := n } }.set i t) := by
  have htxn : ∀ j, ({ s with db := { s.db with nextId := n } }.set i t).txn j = if j = i then t else s.txn j :=
    fun j => Function.update_apply s.txn i t j
  have hapart : ∀ j e e', j ≠ i → t.endpoint = some e → (s.txn j).endpoint = some e' →
      e.key ≠ e'.key ∧ e.id ≠ e'.id := by
    intro j e e' hj he he'
    obtain hold | ⟨rfl, -, -, hothers⟩ := hendpoint e he
    · exact h.endpointsApart i j e e' (Ne.symm hj) hold he'
    · exact ⟨(hothers j hj e' he').symm, ((h.endpoint j e' he').drawn.ne).symm⟩
  have hrows : ∀ j r r', j ≠ i → t.row = some r → (s.txn j).row = some r' → r.id ≠ r'.id := by
    intro j r r' hj hr hr'
    obtain hold | ⟨hid, -⟩ := hrow r hr
    · exact h.rowsApart i j r r' (Ne.symm hj) hold hr'
    · rw [hid]
      exact ((h.row j r' hr').drawn.ne).symm
  refine ⟨registered_later h.registered hn, h.keys, fun j => ?_, fun j e he => ?_, fun j r hr => ?_,
    fun j k e e' hne he he' => ?_, fun j k r r' hne hr hr' => ?_⟩
  · rw [htxn]
    split
    · next hj => exact pcOk_later n (hj ▸ hpc)
    · exact pcOk_later n (h.pc j)
  · rw [htxn] at he
    split at he
    · next hj =>
      subst hj
      obtain hold | hnew := hendpoint e he
      · exact (h.endpoint j e hold).later hn
      · exact hnew.fresh h.registered
    · exact (h.endpoint j e he).later hn
  · rw [htxn] at hr
    split at hr
    · obtain hold | ⟨hid, hlt⟩ := hrow r hr
      · exact (h.row i r hold).later hn
      · exact ⟨hid ▸ hlt, fun v hv => hid ▸ ((h.registered.tidy.versionId_lt v hv).1.ne)⟩
    · exact (h.row j r hr).later hn
  · rw [htxn] at he he'
    split at he <;> split at he'
    · next hj hk => exact absurd (hj.trans hk.symm) hne
    · next hj hk => exact hapart k e e' hk he he'
    · next hj hk => exact (hapart j e' e hj he' he).imp Ne.symm Ne.symm
    · exact h.endpointsApart j k e e' hne he he'
  · rw [htxn] at hr hr'
    split at hr <;> split at hr'
    · next hj hk => exact absurd (hj.trans hk.symm) hne
    · next hj hk => exact hrows k r r' hk hr hr'
    · next hj hk => exact (hrows j r' r hj hr' hr).symm
    · exact h.rowsApart j k r r' hne hr hr'

theorem Rooted.keep (h : Rooted c s) (hpc : PcOk c s.db i t)
    (hendpoint : t.endpoint = (s.txn i).endpoint ∨ t.endpoint = none)
    (hrow : t.row = (s.txn i).row ∨ t.row = none) : Rooted c (s.set i t) := by
  refine h.set (n := s.db.nextId) le_rfl hpc (fun e he => ?_) fun r hr => ?_
  · obtain hsame | hnone := hendpoint
    · exact .inl (hsame ▸ he)
    · rw [hnone] at he
      cases he
  · obtain hsame | hnone := hrow
    · exact .inl (hsame ▸ hr)
    · rw [hnone] at hr
      cases hr

theorem Rooted.goto (h : Rooted c s) {pc : Pc} (hpc : PcOk c s.db i { s.txn i with pc }) :
    Rooted c (s.goto i pc) :=
  h.keep hpc (.inl rfl) (.inl rfl)

theorem Rooted.abort (h : Rooted c s) (i : ι) (u : Bool) :
    Rooted c (s.set i (.finish (.aborted u))) :=
  h.keep trivial (.inr rfl) (.inr rfl)

omit [DecidableEq ι] in
/-- A row of the fingerprint is found under a committed endpoint only. -/
theorem Rooted.found (h : Rooted c s) (hclean : Clean (s.txn i)) {e : Endpoint}
    (huses : Uses s.db (s.txn i) (c.request i).key e) {record : SchemaVersionRecord}
    (hfind : findFingerprint s.db.versions e.id (c.request i).fingerprint = some record) :
    Found s.db (c.request i) (s.txn i) record := by
  obtain ⟨hmem, hfp⟩ := findFingerprint_eq_some hfind
  have hrows := rowsOf_of_uses h.registered h.keys huses (h.endpoint i)
  obtain ⟨-, ⟨hnone, -⟩ | hown⟩ := huses
  · exact ⟨hnone, hclean.1, hclean.2, record, hrows ▸ hmem, hfp, rfl⟩
  · rw [versionsOf_fresh h.registered (h.endpoint i e hown)] at hmem
    cases hmem

variable [Fintype ι]

theorem Rooted.insertEndpoint (h : Rooted c s) (hs : RegistryTxn.insertEndpoint c s i = some s') :
    Rooted c s' := by
  rw [RegistryTxn.insertEndpoint] at hs
  dsimp only at hs
  split_ifs at hs with hwait hthere <;> cases hs
  · exact h.goto trivial
  · refine h.set (Nat.le_succ _) trivial (fun e he => .inr ?_) fun r hr => .inl hr
    refine ⟨(Option.some.inj he).symm, Nat.lt_succ_self _, Option.not_isSome_iff_eq_none.mp hthere,
      fun j hj e' he' hk => ?_⟩
    exact hwait ⟨j, hj, by rw [he', Option.any_some, decide_eq_true hk]⟩

theorem Rooted.insertRow (h : Rooted c s) {e : Endpoint} {current : Option SchemaVersionRecord}
    (huses : Uses s.db (s.txn i) (c.request i).key e)
    (hs : RegistryTxn.insertRow c s i e current = some s') :
    Rooted c s' := by
  rw [RegistryTxn.insertRow] at hs
  dsimp only at hs
  split at hs
  · cases hs
    exact h.abort i false
  · next stored hstored =>
    split_ifs at hs <;> cases hs
    · exact h.abort i true
    · refine h.set (Nat.le_succ _) ?_ (fun e' he' => .inl he') fun r hr => .inr ?_
      · exact ⟨_, rfl, ⟨e, huses, rfl⟩, rfl, rfl, hstored, rfl⟩
      · cases hr
        exact ⟨rfl, Nat.lt_succ_self _⟩

theorem Rooted.advance (h : Rooted c s) (hinv : Inv s)
    (hdone : ∀ record b, (s.txn i).pc ≠ .done record b)
    (hs : RegistryTxn.advance c s i = some s') : Rooted c s' := by
  have ht := hinv.txn i
  have hok := h.pc i
  rw [TxnOk] at ht
  rw [PcOk] at hok
  rw [RegistryTxn.advance] at hs
  cases hpc : (s.txn i).pc with
  | selectEndpoint =>
    simp only [hpc] at hs ht hok
    split at hs <;> cases hs
    · next e hfind =>
      obtain ⟨hm, hkey⟩ := findEndpoint_eq_some hfind
      exact h.goto ⟨hkey, .inl ⟨hok, hm⟩⟩
    · exact h.goto hok
  | insertEndpoint =>
    simp only [hpc] at hs hok
    exact h.insertEndpoint hs
  | reselectEndpoint =>
    simp only [hpc] at hs
    split at hs <;> cases hs
    · next e hfind =>
      obtain ⟨hm, hkey⟩ := findEndpoint_eq_some hfind
      refine h.goto ⟨hkey, ?_⟩
      cases hown : (s.txn i).endpoint with
      | none =>
        rw [hown, Option.toList_none, List.append_nil] at hm
        exact .inl ⟨rfl, hm⟩
      | some e' =>
        have hfresh := h.endpoint i e' hown
        rw [hown, Option.toList_some, List.mem_append, List.mem_singleton] at hm
        obtain hm | rfl := hm
        · exact absurd (hkey.trans hfresh.key.symm) (hfresh.apart e hm).1
        · exact .inr rfl
    · exact h.abort i false
  | selectFingerprint e =>
    simp only [hpc] at hs ht hok
    split at hs <;> cases hs
    · next record hfind =>
      have hfound := h.found ht hok hfind
      exact h.goto ⟨hfound.endpoint, hfound.row, hfound.cleared, hfound.known⟩
    · exact h.goto hok
  | lock e =>
    simp only [hpc] at hs hok
    split at hs
    · cases hs
    · cases hs
      exact h.keep hok (.inl rfl) (.inl rfl)
  | selectCurrent e =>
    simp only [hpc] at hs hok
    cases hs
    exact h.goto hok
  | recheck e current =>
    simp only [hpc] at hs ht hok
    split at hs
    · next record hfind =>
      cases hs
      have hfound := h.found ht.1 hok hfind
      exact h.goto ⟨hfound.endpoint, hfound.row, hfound.cleared, hfound.known⟩
    · cases current with
      | some cur =>
        cases hs
        exact h.goto hok
      | none =>
        cases hs
        exact h.goto hok
  | clear e current =>
    simp only [hpc] at hs hok
    cases hs
    exact h.goto hok
  | clearing e current todo =>
    simp only [hpc] at hs hok
    cases todo with
    | nil =>
      cases hs
      exact h.goto hok
    | cons v todo =>
      dsimp only at hs
      split at hs
      · cases hs
      · cases hs
        exact h.keep hok (.inl rfl) (.inl rfl)
  | insert e current =>
    simp only [hpc] at hs hok
    exact h.insertRow hok hs
  | done record inserted => exact absurd hpc (hdone record inserted)
  | committed record inserted =>
    simp only [hpc] at hs
    cases hs
  | aborted u =>
    simp only [hpc] at hs
    cases hs

end Steps

section Commit

variable {c : Config ι} {s s' : State ι} {i : ι} {record r : SchemaVersionRecord}

theorem wrote_of_inserted (hinv : Inv s) (hpc : (s.txn i).pc = .done record true)
    (hins : Inserted c s.db i (s.txn i) record r) :
    ∃ current, Wrote s.db.versions (s.txn i) r current := by
  have ht := hinv.txn i
  rw [TxnOk] at ht
  simp only [hpc] at ht
  obtain hclean | ⟨r', current, hw⟩ := ht
  · cases hins.row.symm.trans hclean.1
  · obtain rfl := Option.some.inj (hins.row.symm.trans hw.row)
    exact ⟨current, hw⟩

/-- A call that has found its row leaves the tables as they are. -/
theorem commit_found {db : Db} {t : Txn} {req : Request} (h : Found db req t record) :
    commit db t = db := by
  rw [commit, h.endpoint, h.row, h.cleared, applyClears_none fun _ _ => List.not_mem_nil]
  simp only [Option.toList_none, List.append_nil]

/-- The rows of every endpoint after a commit. -/
theorem rowsOf_commit (h : Rooted c s) (hinv : Inv s) (hpc : (s.txn i).pc = .done record true)
    (hins : Inserted c s.db i (s.txn i) record r) (k : EndpointKey) :
    rowsOf (commit s.db (s.txn i)) k =
      if k = (c.request i).key then (rowsOf s.db k).map clearCurrent ++ [r] else rowsOf s.db k := by
  obtain ⟨current, hw⟩ := wrote_of_inserted hinv hpc hins
  obtain ⟨e, huses, hid⟩ := hins.uses
  have hversions := versionsOf_commit hinv.history hw (hinv.free_version hw.row)
  have hfind := find_append_endpoint h.keys huses (h.endpoint i)
  have hrows := rowsOf_of_uses h.registered h.keys huses (h.endpoint i)
  have hcommit : (commit s.db (s.txn i)).endpoints = s.db.endpoints ++ (s.txn i).endpoint.toList := rfl
  by_cases hk : k = (c.request i).key
  · subst hk
    rw [if_pos rfl, rowsOf_of_find (hcommit ▸ (hfind _).trans (if_pos rfl)), hversions, if_pos hid, hrows]
  · rw [if_neg hk]
    have hfindk : findEndpoint (commit s.db (s.txn i)).endpoints k = findEndpoint s.db.endpoints k :=
      hcommit ▸ (hfind k).trans (if_neg hk)
    cases hf : findEndpoint s.db.endpoints k with
    | none => rw [rowsOf_of_none hf, rowsOf_of_none (hfindk.trans hf)]
    | some e' =>
      obtain ⟨he', hkey⟩ := findEndpoint_eq_some hf
      have hne : e'.id ≠ r.endpointId := by
        rw [← hid]
        intro heq
        obtain ⟨hukey, ⟨-, he⟩ | hown⟩ := huses
        · obtain rfl := List.inj_on_of_nodup_map h.registered.tidy.endpointIds he' he heq
          exact hk (hkey.symm.trans hukey)
        · exact ((h.endpoint i e hown).apart e' he').2 heq
      rw [rowsOf_of_find hf, rowsOf_of_find (hfindk.trans hf), hversions, if_neg hne]

theorem ids_applyClears (cleared : List (Nat × Nat)) (versions : List SchemaVersionRecord) :
    (applyClears cleared versions).map SchemaVersionRecord.id = versions.map SchemaVersionRecord.id := by
  rw [applyClears, List.map_map]
  apply List.map_congr_left
  intro v _
  rw [Function.comp_apply]
  split <;> rfl

/-- The rows of an endpoint of a transaction, and those of the table, have ids of their own. -/
theorem tidy_commit (h : Rooted c s) (hinv : Inv s) (hpc : (s.txn i).pc = .done record true)
    (hins : Inserted c s.db i (s.txn i) record r) : Tidy (commit s.db (s.txn i)) := by
  obtain ⟨current, hw⟩ := wrote_of_inserted hinv hpc hins
  obtain ⟨e, huses, hid⟩ := hins.uses
  have hfree : ∀ v ∈ versionsOf s.db.versions r.endpointId, conflicts r v = false :=
    fun v hv => hinv.free i r hw.row v (mem_versionsOf.mp hv).1
  have htidy := h.registered.tidy
  have hlt : e.id < s.db.nextId := by
    obtain ⟨-, ⟨-, he⟩ | hown⟩ := huses
    · exact htidy.endpointId_lt e he
    · exact (h.endpoint i e hown).drawn
  have hrow := h.row i r hins.row
  have hversions : (commit s.db (s.txn i)).versions = applyClears (s.txn i).cleared s.db.versions ++ [r] := by
    rw [commit, hins.row]
    rfl
  refine ⟨history_commit hinv.history hw hfree, ?_, fun e' he' => ?_, ?_, fun v hv => ?_⟩
  · simp only [commit, List.map_append]
    rw [List.nodup_append]
    refine ⟨htidy.endpointIds, ?_, fun a ha b hb => ?_⟩
    · cases (s.txn i).endpoint <;> simp
    · obtain ⟨e₁, he₁, rfl⟩ := List.mem_map.mp ha
      obtain ⟨e₂, he₂, rfl⟩ := List.mem_map.mp hb
      exact ((h.endpoint i e₂ (Option.mem_toList.mp he₂)).apart e₁ he₁).2
  · obtain he' | he' := List.mem_append.mp he'
    · exact htidy.endpointId_lt e' he'
    · exact (h.endpoint i e' (Option.mem_toList.mp he')).drawn
  · rw [hversions, List.map_append, ids_applyClears, List.nodup_append]
    refine ⟨htidy.versionIds, List.nodup_singleton _, fun a ha b hb => ?_⟩
    obtain ⟨v, hv, rfl⟩ := List.mem_map.mp ha
    rw [List.map_singleton, List.mem_singleton] at hb
    exact hb ▸ hrow.apart v hv
  · rw [hversions, List.mem_append, List.mem_singleton] at hv
    obtain hv | rfl := hv
    · obtain ⟨w, hm, rfl⟩ := List.mem_map.mp hv
      have hw := htidy.versionId_lt w hm
      split <;> exact hw
    · exact ⟨hrow.drawn, hid ▸ hlt⟩

theorem registered_commit (h : Rooted c s) (hinv : Inv s) (hpc : (s.txn i).pc = .done record true)
    (hins : Inserted c s.db i (s.txn i) record r) : Registered (commit s.db (s.txn i)) := by
  obtain ⟨e, huses, hid⟩ := hins.uses
  have hrows := rowsOf_commit h hinv hpc hins
  have hfind : ∀ k, findEndpoint (commit s.db (s.txn i)).endpoints k =
      if k = (c.request i).key then some e else findEndpoint s.db.endpoints k :=
    find_append_endpoint h.keys huses (h.endpoint i)
  refine ⟨tidy_commit h hinv hpc hins, fun k e' he' => ?_, fun k e' he' => ?_, fun v hv => ?_⟩
  · rw [hfind] at he'
    by_cases hk : k = (c.request i).key
    · rw [if_pos hk] at he'
      cases he'
      subst hk
      obtain ⟨hkey, ⟨-, he⟩ | hown⟩ := huses
      · exact h.registered.named _ _ (hkey ▸ find_of_mem h.keys he)
      · exact hkey ▸ (h.endpoint i e hown).name
    · rw [if_neg hk] at he'
      exact h.registered.named k e' he'
  · rw [hrows]
    by_cases hk : k = (c.request i).key
    · rw [if_pos hk]
      exact List.append_ne_nil_of_right_ne_nil _ (List.cons_ne_nil _ _)
    · rw [if_neg hk]
      rw [hfind, if_neg hk] at he'
      exact h.registered.used k e' he'
  · obtain ⟨current, hw⟩ := wrote_of_inserted hinv hpc hins
    have hself : rowsOf s.db (c.request i).key = versionsOf s.db.versions r.endpointId :=
      hid ▸ rowsOf_of_uses h.registered h.keys huses (h.endpoint i)
    have hmem := mem_versionsOf.mpr ⟨hv, rfl⟩
    rw [versionsOf_commit hinv.history hw (hinv.free_version hw.row)] at hmem
    by_cases he : v.endpointId = r.endpointId
    · refine ⟨(c.request i).key, ?_⟩
      rw [hrows, if_pos rfl, hself, ← he]
      rwa [if_pos he] at hmem
    · rw [if_neg he] at hmem
      obtain ⟨k, hk⟩ := h.registered.owned v (mem_versionsOf.mp hmem).1
      refine ⟨k, ?_⟩
      rw [hrows, if_neg]
      · exact hk
      · rintro rfl
        rw [hself] at hk
        exact he (mem_versionsOf.mp hk).2

theorem uses_commit {db : Db} {t t' : Txn} {key : EndpointKey} {e : Endpoint}
    (h : Uses db t key e) :
    Uses (commit db t') t key e :=
  ⟨h.1, h.2.imp (fun hold => ⟨hold.1, List.mem_append_left _ hold.2⟩) id⟩

/-- What another call holds is not touched by a commit. -/
theorem pcOk_commit {t : Txn} {j : ι}
    (hrows : ∀ k, ∀ v ∈ rowsOf s.db k, ∃ v' ∈ rowsOf (commit s.db (s.txn i)) k,
    v'.fingerprint = v.fingerprint ∧ v'.version = v.version) (h : PcOk c s.db j t) :
    PcOk c (commit s.db (s.txn i)) j t := by
  unfold PcOk at h ⊢
  cases hpc : t.pc with
  | done record inserted =>
    simp only [hpc] at h
    cases inserted with
    | true =>
      obtain ⟨r, hr⟩ := h
      obtain ⟨e, huses, hid⟩ := hr.uses
      exact ⟨r, hr.row, ⟨e, uses_commit huses, hid⟩, hr.version, hr.fingerprint, hr.stored, hr.classification⟩
    | false =>
      obtain ⟨v, hv, hfp, hversion⟩ := h.known
      obtain ⟨v', hv', hfp', hversion'⟩ := hrows _ v hv
      exact ⟨h.endpoint, h.row, h.cleared, v', hv', hfp'.trans hfp, hversion'.trans hversion⟩
  | selectEndpoint | insertEndpoint =>
    simp only [hpc] at h
    exact h
  | selectFingerprint | lock | selectCurrent | recheck | clear | clearing | insert =>
    simp only [hpc] at h
    exact uses_commit h
  | reselectEndpoint | committed | aborted => trivial

variable [DecidableEq ι]

theorem Rooted.commitInserted (h : Rooted c s) (hinv : Inv s)
    (hpc : (s.txn i).pc = .done record true)
    (hins : Inserted c s.db i (s.txn i) record r) :
    Rooted c ({ s with db := commit s.db (s.txn i) }.set i (.finish (.committed record true))) := by
  have htxn : ∀ j, ({ s with db := commit s.db (s.txn i) }.set i (.finish (.committed record true))).txn j =
      if j = i then .finish (.committed record true) else s.txn j :=
    fun j => Function.update_apply s.txn i _ j
  have hrows := rowsOf_commit h hinv hpc hins
  refine ⟨registered_commit h hinv hpc hins, ?_, fun j => ?_, fun j e he => ?_, fun j v hv => ?_,
    fun j k e e' hne he he' => ?_, fun j k v v' hne hv hv' => ?_⟩
  · change ((s.db.endpoints ++ (s.txn i).endpoint.toList).map Endpoint.key).Nodup
    rw [List.map_append, List.nodup_append]
    refine ⟨h.keys, ?_, fun a ha b hb => ?_⟩
    · cases (s.txn i).endpoint <;> simp
    · obtain ⟨e₁, he₁, rfl⟩ := List.mem_map.mp ha
      obtain ⟨e₂, he₂, rfl⟩ := List.mem_map.mp hb
      exact ((h.endpoint i e₂ (Option.mem_toList.mp he₂)).apart e₁ he₁).1
  · rw [htxn]
    split
    · trivial
    · refine pcOk_commit (fun k v hv => ?_) (h.pc j)
      rw [hrows]
      split
      · exact ⟨clearCurrent v, List.mem_append_left _ (List.mem_map_of_mem hv), rfl, rfl⟩
      · exact ⟨v, hv, rfl, rfl⟩
  · rw [htxn] at he
    split at he
    · cases he
    · next hj =>
      have hfresh := h.endpoint j e he
      refine ⟨hfresh.key, hfresh.name, hfresh.drawn, fun e' he' => ?_⟩
      obtain he' | he' := List.mem_append.mp he'
      · exact hfresh.apart e' he'
      · exact h.endpointsApart i j e' e (Ne.symm hj) (Option.mem_toList.mp he') he
  · rw [htxn] at hv
    split at hv
    · cases hv
    · next hj =>
      have hfresh := h.row j v hv
      refine ⟨hfresh.drawn, fun w hw => ?_⟩
      change w ∈ applyClears (s.txn i).cleared s.db.versions ++ (s.txn i).row.toList at hw
      obtain hw | hw := List.mem_append.mp hw
      · have hids := List.mem_map_of_mem (f := SchemaVersionRecord.id) hw
        rw [ids_applyClears] at hids
        obtain ⟨w', hw', hid⟩ := List.mem_map.mp hids
        exact hid ▸ hfresh.apart w' hw'
      · exact h.rowsApart i j w v (Ne.symm hj) (Option.mem_toList.mp hw) hv
  · rw [htxn] at he he'
    split at he
    · cases he
    · split at he'
      · cases he'
      · exact h.endpointsApart j k e e' hne he he'
  · rw [htxn] at hv hv'
    split at hv
    · cases hv
    · split at hv'
      · cases hv'
      · exact h.rowsApart j k v v' hne hv hv'

theorem Rooted.commitFound (h : Rooted c s) (hfound : Found s.db (c.request i) (s.txn i) record) :
    Rooted c ({ s with db := commit s.db (s.txn i) }.set i (.finish (.committed record false))) := by
  rw [commit_found hfound]
  exact h.keep trivial (.inr rfl) (.inr rfl)

end Commit

end SchemaPilot.RegistryRows
