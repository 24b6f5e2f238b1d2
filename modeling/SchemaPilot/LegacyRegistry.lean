import SchemaPilot.DraftRows
import SchemaPilot.TrackPayload

namespace SchemaPilot.LegacyRegistry

open DraftRows Runs TrackPayload

variable {ι : Type}

def Known (db : Tables) (key : RouteKey) (e : Nat) : Prop :=
  ∃ ep ∈ db.endpoints, ep.id = e ∧ ep.key = key

def Stored (db : Tables) (e : Nat) (f : String) : Prop :=
  ∃ r ∈ db.snapshots, r.endpointId = e ∧ r.fingerprint = f

def Vacant (db : Tables) (key : RouteKey) : Prop := ∀ ep ∈ db.endpoints, ep.key ≠ key

/-- The endpoint of a request that registers: committed, or inserted by the request itself. -/
def Owns (db : Tables) (req : Request) (t : Session) (e : Nat) : Prop :=
  t.endpoint = none ∧ Known db req.key e ∨ t.endpoint = some ⟨e, req.key⟩ ∧ Vacant db req.key

structure Locked (w : Call) : Prop where
  registered : w.registered = none
  lock : w.session.holdsLock = true

structure NoDrafts (t : Session) : Prop where
  lock : t.holdsLock = false
  endpoint : t.endpoint = none
  snapshot : t.snapshot = none

def LocalOk (db : Tables) (req : Request) (w : Call) : Prop :=
  match w.pc with
  | .contract | .begin | .lock => w.registered = none ∧ NoDrafts w.session
  | .selectEndpoint => Locked w ∧ w.session.endpoint = none ∧ w.session.snapshot = none
  | .insertEndpoint =>
    Locked w ∧ w.session.endpoint = none ∧ w.session.snapshot = none ∧ Vacant db req.key
  | .selectSnapshot e => Locked w ∧ w.session.snapshot = none ∧ Owns db req w.session e
  | .insertSnapshot e =>
    Locked w ∧ w.session.snapshot = none ∧ Owns db req w.session e ∧ ¬Stored db e req.fingerprint
  | .commitSnapshot e true =>
    Locked w ∧ Owns db req w.session e ∧ ¬Stored db e req.fingerprint ∧
      ∃ r, w.session.snapshot = some r ∧ r.endpointId = e ∧ r.fingerprint = req.fingerprint
  | .commitSnapshot e false =>
    Locked w ∧ w.session.endpoint = none ∧ w.session.snapshot = none ∧ Known db req.key e ∧
      Stored db e req.fingerprint
  | .selectBaseline e inserted | .logViolations e inserted _ _ | .commitViolations e inserted _ =>
    w.registered = some (e, inserted) ∧ NoDrafts w.session
  | .clearBaselines e | .setBaseline e | .commitBaseline e =>
    w.registered = some (e, true) ∧ NoDrafts w.session
  | .finished _ => NoDrafts w.session
  | .failed uniqueViolation => uniqueViolation = false ∧ NoDrafts w.session

structure Inv (c : Config ι) (s : State ι) : Prop where
  calls : ∀ i, LocalOk s.db (c.request i) (s.call i)
  exclusive : ∀ i j, i ≠ j → (s.call i).session.holdsLock → (s.call j).session.holdsLock →
    (c.request i).key ≠ (c.request j).key
  endpointIds : DraftsOk ApiEndpoint.id s.db.endpoints (fun i => (s.call i).session.endpoint) s.db.nextId
  snapshotIds : DraftsOk SchemaSnapshot.id s.db.snapshots (fun i => (s.call i).session.snapshot)
    s.db.nextId
  keys : (s.db.endpoints.map ApiEndpoint.key).Nodup
  fingerprints : (s.db.snapshots.map (fun r => (r.endpointId, r.fingerprint))).Nodup
  registered : ∀ i e inserted, (s.call i).registered = some (e, inserted) →
    Known s.db (c.request i).key e ∧ Stored s.db e (c.request i).fingerprint
  endpointOwner : ∀ ep ∈ s.db.endpoints, ∃ i inserted, (c.request i).key = ep.key ∧
    (s.call i).registered = some (ep.id, inserted)
  snapshotOwner : ∀ r ∈ s.db.snapshots, ∃ i, (c.request i).fingerprint = r.fingerprint ∧
    (s.call i).registered = some (r.endpointId, true)
  once : ∀ i j e, i ≠ j → (s.call i).registered = some (e, true) →
    (s.call j).registered = some (e, true) → (c.request i).fingerprint ≠ (c.request j).fingerprint

theorem inv_init (c : Config ι) : Inv c init := by
  refine ⟨fun i => ⟨rfl, rfl, rfl, rfl⟩, ?_, ⟨?_, ?_, ?_, ?_, ?_⟩, ⟨?_, ?_, ?_, ?_, ?_⟩, ?_, ?_, ?_, ?_, ?_, ?_⟩ <;>
    simp [init, Tables.empty, Session.closed]

section Commit

variable {db : Tables} {t : Session}

theorem update_id (t : Session) (r : SchemaSnapshot) : (t.update r).id = r.id := by
  rw [Session.update]
  split_ifs <;> rfl

theorem update_endpointId (t : Session) (r : SchemaSnapshot) :
    (t.update r).endpointId = r.endpointId := by
  rw [Session.update]
  split_ifs <;> rfl

theorem update_fingerprint (t : Session) (r : SchemaSnapshot) :
    (t.update r).fingerprint = r.fingerprint := by
  rw [Session.update]
  split_ifs <;> rfl

theorem known_commit {key : RouteKey} {e : Nat} :
    Known (commit db t) key e ↔ Known db key e ∨ t.endpoint = some ⟨e, key⟩ := by
  constructor
  · rintro ⟨ep, hep, rfl, rfl⟩
    obtain hep | hep := List.mem_append.mp hep
    · exact .inl ⟨ep, hep, rfl, rfl⟩
    · exact .inr (Option.mem_toList.mp hep)
  · rintro (⟨ep, hep, hid, hkey⟩ | hep)
    · exact ⟨ep, List.mem_append_left _ hep, hid, hkey⟩
    · exact ⟨_, List.mem_append_right _ (Option.mem_toList.mpr hep), rfl, rfl⟩

theorem stored_commit {e : Nat} {f : String} :
    Stored (commit db t) e f ↔
      Stored db e f ∨ ∃ r, t.snapshot = some r ∧ r.endpointId = e ∧ r.fingerprint = f := by
  constructor
  · rintro ⟨r, hr, he, hf⟩
    obtain hr | hr := List.mem_append.mp hr
    · obtain ⟨r₀, hr₀, rfl⟩ := List.mem_map.mp hr
      exact .inl ⟨r₀, hr₀, update_endpointId t r₀ ▸ he, update_fingerprint t r₀ ▸ hf⟩
    · exact .inr ⟨r, Option.mem_toList.mp hr, he, hf⟩
  · rintro (⟨r, hr, he, hf⟩ | ⟨r, hr, he, hf⟩)
    · refine ⟨t.update r, List.mem_append_left _ (List.mem_map_of_mem hr), ?_, ?_⟩
      · rw [update_endpointId, he]
      · rw [update_fingerprint, hf]
    · exact ⟨r, List.mem_append_right _ (Option.mem_toList.mpr hr), he, hf⟩

theorem findEndpoint_commit (key : RouteKey) (ht : t.endpoint = none) :
    (∀ ep, findEndpoint (commit db t).endpoints key = some ep → Known db key ep.id) ∧
      (findEndpoint (commit db t).endpoints key = none → Vacant db key) := by
  rw [commit, ht]
  simp only [Option.toList_none, List.append_nil, findEndpoint]
  constructor
  · intro ep hfind
    obtain ⟨hep, hkey⟩ := Keyed.mem_of_find?_key hfind
    exact ⟨ep, hep, rfl, hkey⟩
  · intro hfind ep hep hkey
    exact List.find?_eq_none.mp hfind ep hep (decide_eq_true hkey)

theorem findSnapshot_commit (e : Nat) (f : String) (ht : t.snapshot = none) :
    (∀ r, findSnapshot (commit db t).snapshots e f = some r → Stored db e f) ∧
      (findSnapshot (commit db t).snapshots e f = none → ¬Stored db e f) := by
  have hiff : Stored (commit db t) e f ↔ Stored db e f := by
    rw [stored_commit, ht]
    simp
  rw [← hiff, findSnapshot]
  constructor
  · intro r hfind
    exact ⟨r, List.mem_of_find?_eq_some hfind, by simpa using List.find?_some hfind⟩
  · rintro hfind ⟨r, hr, he, hf⟩
    exact List.find?_eq_none.mp hfind r hr (decide_eq_true ⟨he, hf⟩)

end Commit

/-- What another request's step may do to the tables under a request: add rows, but none of
the endpoint and none of the snapshot that the request has locked. -/
structure Keeps (db db' : Tables) (req : Request) (w : Call) : Prop where
  known : ∀ key e, Known db key e → Known db' key e
  stored : ∀ e f, Stored db e f → Stored db' e f
  vacant : w.session.holdsLock → Vacant db req.key → Vacant db' req.key
  free : w.session.holdsLock → ∀ e, Owns db req w.session e → ¬Stored db e req.fingerprint →
    ¬Stored db' e req.fingerprint

section Keeps

variable {db db' : Tables} {req : Request} {w : Call}

theorem Keeps.of_eq (he : db'.endpoints = db.endpoints) (hs : db'.snapshots = db.snapshots) :
    Keeps db db' req w := by
  refine ⟨fun key e h => ?_, fun e f h => ?_, fun _ h => ?_, fun _ e _ h => ?_⟩
  · rwa [Known, he]
  · rwa [Stored, hs]
  · rwa [Vacant, he]
  · rwa [Stored, hs]

theorem Owns.keep (hk : Keeps db db' req w) (hlock : w.session.holdsLock = true) {e : Nat}
    (h : Owns db req w.session e) : Owns db' req w.session e :=
  h.imp (fun h => ⟨h.1, hk.known _ _ h.2⟩) fun h => ⟨h.1, hk.vacant hlock h.2⟩

theorem LocalOk.keep (hk : Keeps db db' req w) (h : LocalOk db req w) : LocalOk db' req w := by
  unfold LocalOk at h ⊢
  cases hpc : w.pc with
  | insertEndpoint =>
    simp only [hpc] at h
    obtain ⟨hl, he, hs, hv⟩ := h
    exact ⟨hl, he, hs, hk.vacant hl.lock hv⟩
  | selectSnapshot e =>
    simp only [hpc] at h
    obtain ⟨hl, hs, ho⟩ := h
    exact ⟨hl, hs, ho.keep hk hl.lock⟩
  | insertSnapshot e =>
    simp only [hpc] at h
    obtain ⟨hl, hs, ho, hn⟩ := h
    exact ⟨hl, hs, ho.keep hk hl.lock, hk.free hl.lock e ho hn⟩
  | commitSnapshot e inserted =>
    simp only [hpc] at h
    cases inserted with
    | true =>
      obtain ⟨hl, ho, hn, hr⟩ := h
      exact ⟨hl, ho.keep hk hl.lock, hk.free hl.lock e ho hn, hr⟩
    | false =>
      obtain ⟨hl, he, hs, hknown, hstored⟩ := h
      exact ⟨hl, he, hs, hk.known _ _ hknown, hk.stored _ _ hstored⟩
  | _ =>
    simp only [hpc] at h
    exact h

end Keeps

section Invariant

variable {c : Config ι} {s : State ι} {i : ι}

theorem Owns.commit {db : Tables} {req : Request} {t : Session} {e : Nat} (h : Owns db req t e) :
    Known (TrackPayload.commit db t) req.key e :=
  known_commit.mpr (h.imp And.right And.left)

theorem Inv.endpoint_eq (h : Inv c s) {key key' : RouteKey} {e : Nat} (hk : Known s.db key e)
    (hk' : Known s.db key' e) : key = key' := by
  obtain ⟨ep, hep, hid, rfl⟩ := hk
  obtain ⟨ep', hep', hid', rfl⟩ := hk'
  rw [h.endpointIds.eq_of_id hep hep' (hid.trans hid'.symm)]

/-- An endpoint that a request has just inserted has no snapshot. -/
theorem Inv.fresh_endpoint (h : Inv c s) {ep : ApiEndpoint} (hep : (s.call i).session.endpoint = some ep)
    (f : String) : ¬Stored s.db ep.id f := by
  rintro ⟨r, hr, he, -⟩
  obtain ⟨j, -, hj⟩ := h.snapshotOwner r hr
  obtain ⟨ep', hep', hid, -⟩ := (h.registered j _ _ hj).1
  exact h.endpointIds.apart i ep hep ep' hep' (hid.trans he)

/-- Two requests that hold their locks work on different endpoints. -/
theorem Inv.owns_ne (h : Inv c s) {j : ι} (hij : i ≠ j) (hi : (s.call i).session.holdsLock)
    (hj : (s.call j).session.holdsLock) {e e' : Nat} (ho : Owns s.db (c.request i) (s.call i).session e)
    (ho' : Owns s.db (c.request j) (s.call j).session e') : e ≠ e' := by
  rintro rfl
  have hkey := h.exclusive i j hij hi hj
  obtain ⟨-, hk⟩ | ⟨hd, -⟩ := ho <;> rcases ho' with ⟨-, hk'⟩ | ⟨hd', -⟩
  · exact hkey (h.endpoint_eq hk hk')
  · obtain ⟨ep, hep, hid, -⟩ := hk
    exact h.endpointIds.apart j _ hd' ep hep hid
  · obtain ⟨ep, hep, hid, -⟩ := hk'
    exact h.endpointIds.apart i _ hd ep hep hid
  · exact h.endpointIds.distinct i j _ _ hij hd hd' rfl

/-- A commit that brings no row changes nothing that registration looks at. -/
theorem keeps_commit_updates {db : Tables} {t : Session} (ht : NoDrafts t) {req : Request} {w : Call} :
    Keeps db (commit db t) req w := by
  have hknown : ∀ key e, Known (commit db t) key e ↔ Known db key e := by
    intro key e
    rw [known_commit, ht.endpoint]
    simp
  have hstored : ∀ e f, Stored (commit db t) e f ↔ Stored db e f := by
    intro e f
    rw [stored_commit, ht.snapshot]
    simp
  refine ⟨fun key e => (hknown key e).mpr, fun e f => (hstored e f).mpr, fun _ hv ep hep => ?_,
    fun _ e _ hn => (hstored e _).not.mpr hn⟩
  obtain hep | hep := List.mem_append.mp hep
  · exact hv ep hep
  · rw [ht.endpoint] at hep
    cases hep

/-- The registration of one route is no news to the requests that hold other locks. -/
theorem keeps_commit_snapshot (h : Inv c s) (hlock : (s.call i).session.holdsLock = true) {e : Nat}
    (ho : Owns s.db (c.request i) (s.call i).session e)
    (hsnapshot : ∀ r, (s.call i).session.snapshot = some r → r.endpointId = e) {j : ι} (hji : j ≠ i) :
    Keeps s.db (commit s.db (s.call i).session) (c.request j) (s.call j) := by
  refine ⟨fun key e hk => known_commit.mpr (.inl hk), fun e f hs => stored_commit.mpr (.inl hs),
    fun hj hv ep hep => ?_, fun hj e' ho' hn hstored => ?_⟩
  · obtain hep | hep := List.mem_append.mp hep
    · exact hv ep hep
    · obtain ⟨hnone, -⟩ | ⟨hd, -⟩ := ho
      · rw [hnone] at hep
        cases hep
      · rw [hd] at hep
        rw [List.mem_singleton.mp hep]
        exact (h.exclusive j i hji hj hlock).symm
  · obtain hs | ⟨r, hr, he, -⟩ := stored_commit.mp hstored
    · exact hn hs
    · exact h.owns_ne hji hj hlock ho' ho (he ▸ hsnapshot r hr)

variable [DecidableEq ι]

theorem set_call (s : State ι) (db : Tables) (i : ι) (w : Call) (j : ι) :
    (s.set db i w).call j = if j = i then w else s.call j :=
  Function.update_apply s.call i w j

theorem drafts_set {α : Type} (f : Call → α) (s : State ι) (db : Tables) (i : ι) (w : Call) :
    (fun j => f ((s.set db i w).call j)) = Function.update (fun j => f (s.call j)) i (f w) := by
  funext j
  rw [set_call, Function.update_apply]
  split <;> rfl

theorem Inv.exclusive_set (h : Inv c s) (db : Tables) {w : Call}
    (hlock : w.session.holdsLock → ∀ j, j ≠ i → (s.call j).session.holdsLock →
      (c.request j).key ≠ (c.request i).key) (j k : ι) (hjk : j ≠ k)
    (hj : ((s.set db i w).call j).session.holdsLock) (hk : ((s.set db i w).call k).session.holdsLock) :
    (c.request j).key ≠ (c.request k).key := by
  rw [set_call] at hj hk
  split at hj <;> split at hk
  · next hji hki => exact absurd (hji.trans hki.symm) hjk
  · next hji hki => exact hji ▸ (hlock hj k hki hk).symm
  · next hji hki => exact hki ▸ hlock hk j hji hj
  · exact h.exclusive j k hjk hj hk

/-- A step of one request that commits nothing. -/
theorem Inv.move (h : Inv c s) (nextId : Nat) {w : Call} (hlocal : LocalOk s.db (c.request i) w)
    (hlock : w.session.holdsLock → ∀ j, j ≠ i → (s.call j).session.holdsLock →
      (c.request j).key ≠ (c.request i).key)
    (hendpoint : DraftsOk ApiEndpoint.id s.db.endpoints
      (Function.update (fun j => (s.call j).session.endpoint) i w.session.endpoint) nextId)
    (hsnapshot : DraftsOk SchemaSnapshot.id s.db.snapshots
      (Function.update (fun j => (s.call j).session.snapshot) i w.session.snapshot) nextId)
    (hregistered : w.registered = (s.call i).registered) :
    Inv c (s.set { s.db with nextId } i w) := by
  have hsame : ∀ j, ((s.set { s.db with nextId } i w).call j).registered = (s.call j).registered := by
    intro j
    rw [set_call]
    split
    · next hji => rw [hji, hregistered]
    · rfl
  refine ⟨fun j => ?_, h.exclusive_set _ hlock, ?_, ?_, h.keys, h.fingerprints, fun j e ins hj => ?_,
    fun ep hep => ?_, fun r hr => ?_, fun j k e hjk hj hk => ?_⟩
  · rw [set_call]
    split
    · next hji =>
      rw [hji]
      exact hlocal.keep (Keeps.of_eq rfl rfl)
    · exact (h.calls j).keep (Keeps.of_eq rfl rfl)
  · exact drafts_set (fun w => w.session.endpoint) s _ i w ▸ hendpoint
  · exact drafts_set (fun w => w.session.snapshot) s _ i w ▸ hsnapshot
  · exact h.registered j e ins (hsame j ▸ hj)
  · obtain ⟨j, ins, hkey, hj⟩ := h.endpointOwner ep hep
    exact ⟨j, ins, hkey, (hsame j).trans hj⟩
  · obtain ⟨j, hf, hj⟩ := h.snapshotOwner r hr
    exact ⟨j, hf, (hsame j).trans hj⟩
  · exact h.once j k e hjk (hsame j ▸ hj) (hsame k ▸ hk)

/-- A step that keeps the drafts and the lock of its request. -/
theorem Inv.goto (h : Inv c s) {w : Call} (hlocal : LocalOk s.db (c.request i) w)
    (hlock : w.session.holdsLock → (s.call i).session.holdsLock)
    (hendpoint : w.session.endpoint = (s.call i).session.endpoint)
    (hsnapshot : w.session.snapshot = (s.call i).session.snapshot)
    (hregistered : w.registered = (s.call i).registered) : Inv c (s.set s.db i w) := by
  refine h.move s.db.nextId hlocal (fun hw j hji hj => h.exclusive j i hji hj (hlock hw)) ?_ ?_
    hregistered
  · rw [hendpoint, Function.update_eq_self]
    exact h.endpointIds
  · rw [hsnapshot, Function.update_eq_self]
    exact h.snapshotIds

/-- A request that ends gives up its drafts. -/
theorem Inv.finish (h : Inv c s) {pc : Pc}
    (hlocal : LocalOk s.db (c.request i) ((s.call i).finish pc)) :
    Inv c (s.set s.db i ((s.call i).finish pc)) :=
  h.move s.db.nextId hlocal nofun (h.endpointIds.drop i) (h.snapshotIds.drop i) rfl

/-- A commit that brings no row. -/
theorem Inv.commitUpdates (h : Inv c s) (ht : NoDrafts (s.call i).session) {w : Call}
    (hlocal : LocalOk s.db (c.request i) w) (hw : NoDrafts w.session)
    (hregistered : w.registered = (s.call i).registered) :
    Inv c (s.set (commit s.db (s.call i).session) i w) := by
  have hsame : ∀ j, ((s.set (commit s.db (s.call i).session) i w).call j).registered =
      (s.call j).registered := by
    intro j
    rw [set_call]
    split
    · next hji => rw [hji, hregistered]
    · rfl
  have hendpoints : (commit s.db (s.call i).session).endpoints = s.db.endpoints := by
    rw [commit, ht.endpoint, Option.toList_none, List.append_nil]
  have hsnapshots : (commit s.db (s.call i).session).snapshots =
      s.db.snapshots.map (s.call i).session.update := by
    rw [commit, ht.snapshot, Option.toList_none, List.append_nil]
  refine ⟨fun j => ?_, h.exclusive_set _ fun hlock => ?_, ?_, ?_, ?_, ?_, fun j e ins hj => ?_,
    fun ep hep => ?_, fun r hr => ?_, fun j k e hjk hj hk => ?_⟩
  · rw [set_call]
    split
    · next hji =>
      rw [hji]
      exact hlocal.keep (keeps_commit_updates ht)
    · exact (h.calls j).keep (keeps_commit_updates ht)
  · rw [hw.lock] at hlock
    cases hlock
  · rw [drafts_set (fun w => w.session.endpoint), hw.endpoint]
    exact hendpoints ▸ h.endpointIds.drop i
  · rw [drafts_set (fun w => w.session.snapshot), hw.snapshot]
    exact hsnapshots ▸ (h.snapshotIds.drop i).map (update_id _)
  · exact hendpoints ▸ h.keys
  · change ((commit s.db (s.call i).session).snapshots.map _).Nodup
    rw [hsnapshots, List.map_map]
    simpa only [Function.comp_def, update_endpointId, update_fingerprint] using h.fingerprints
  · obtain ⟨hk, hs⟩ := h.registered j e ins (hsame j ▸ hj)
    exact ⟨known_commit.mpr (.inl hk), stored_commit.mpr (.inl hs)⟩
  · obtain ⟨j, ins, hkey, hj⟩ := h.endpointOwner ep (hendpoints ▸ hep)
    exact ⟨j, ins, hkey, (hsame j).trans hj⟩
  · have hr : r ∈ (commit s.db (s.call i).session).snapshots := hr
    rw [hsnapshots] at hr
    obtain ⟨r₀, hr₀, rfl⟩ := List.mem_map.mp hr
    obtain ⟨j, hf, hj⟩ := h.snapshotOwner r₀ hr₀
    refine ⟨j, ?_, (hsame j).trans ?_⟩
    · rw [update_fingerprint, hf]
    · rw [update_endpointId, hj]
  · exact h.once j k e hjk (hsame j ▸ hj) (hsame k ▸ hk)

theorem mem_commit_endpoints {db : Tables} {t : Session} {ep : ApiEndpoint} :
    ep ∈ (commit db t).endpoints ↔ ep ∈ db.endpoints ∨ t.endpoint = some ep := by
  rw [commit, List.mem_append, Option.mem_toList]

theorem nodup_keys_commit {db : Tables} {req : Request} {t : Session} {e : Nat}
    (h : (db.endpoints.map ApiEndpoint.key).Nodup) (ho : Owns db req t e) :
    ((commit db t).endpoints.map ApiEndpoint.key).Nodup := by
  rw [commit, List.map_append, List.nodup_append]
  obtain ⟨hnone, -⟩ | ⟨hd, hv⟩ := ho
  · refine ⟨h, ?_, ?_⟩ <;> simp [hnone]
  · refine ⟨h, by simp [hd], fun key hkey key' hkey' => ?_⟩
    obtain ⟨ep, hep, rfl⟩ := List.mem_map.mp hkey
    rw [hd] at hkey'
    rw [List.mem_singleton.mp hkey']
    exact hv ep hep

theorem nodup_fingerprints_commit {db : Tables} {t : Session} {e : Nat} {f : String}
    (h : (db.snapshots.map (fun r => (r.endpointId, r.fingerprint))).Nodup)
    (hnew : ∀ r, t.snapshot = some r → r.endpointId = e ∧ r.fingerprint = f ∧ ¬Stored db e f) :
    ((commit db t).snapshots.map (fun r => (r.endpointId, r.fingerprint))).Nodup := by
  rw [commit, List.map_append, List.map_map, List.nodup_append]
  simp only [Function.comp_def, update_endpointId, update_fingerprint]
  refine ⟨h, ?_, fun p hp q hq hpq => ?_⟩
  · cases t.snapshot <;> simp
  · obtain ⟨r, hr, rfl⟩ := List.mem_map.mp hp
    obtain ⟨r', hr', rfl⟩ := List.mem_map.mp hq
    obtain ⟨he, hf, hn⟩ := hnew r' (Option.mem_toList.mp hr')
    obtain ⟨he', hf'⟩ := Prod.mk.inj hpq
    exact hn ⟨r, hr, he'.trans he, hf'.trans hf⟩

/-- The commit of a registration. -/
theorem Inv.commitSnapshot (h : Inv c s) {e : Nat} {inserted : Bool}
    (hpc : (s.call i).pc = .commitSnapshot e inserted) {w : Call}
    (hlocal : LocalOk (commit s.db (s.call i).session) (c.request i) w) (hw : NoDrafts w.session)
    (hregistered : w.registered = some (e, inserted)) :
    Inv c (s.set (commit s.db (s.call i).session) i w) := by
  have hl := h.calls i
  rw [LocalOk] at hl
  simp only [hpc] at hl
  obtain ⟨hlocked, howns, hnew, hdone⟩ : Locked (s.call i) ∧
      Owns s.db (c.request i) (s.call i).session e ∧
      (∀ r, (s.call i).session.snapshot = some r → inserted = true ∧ r.endpointId = e ∧
        r.fingerprint = (c.request i).fingerprint ∧ ¬Stored s.db e (c.request i).fingerprint) ∧
      Stored (commit s.db (s.call i).session) e (c.request i).fingerprint := by
    cases inserted with
    | true =>
      obtain ⟨hlocked, howns, hn, r, hr, he, hf⟩ := hl
      refine ⟨hlocked, howns, fun r' hr' => ?_, stored_commit.mpr (.inr ⟨r, hr, he, hf⟩)⟩
      obtain rfl := Option.some.inj (hr.symm.trans hr')
      exact ⟨rfl, he, hf, hn⟩
    | false =>
      obtain ⟨hlocked, hnone, hs, hknown, hstored⟩ := hl
      refine ⟨hlocked, .inl ⟨hnone, hknown⟩, fun r hr => ?_, stored_commit.mpr (.inl hstored)⟩
      rw [hs] at hr
      cases hr
  have hregs : ∀ j e' ins, ((s.set (commit s.db (s.call i).session) i w).call j).registered =
      some (e', ins) → (j = i ∧ e' = e ∧ ins = inserted) ∨ (s.call j).registered = some (e', ins) := by
    intro j e' ins hj
    rw [set_call] at hj
    split at hj
    · next hji =>
      rw [hregistered, Option.some.injEq, Prod.mk.injEq] at hj
      exact .inl ⟨hji, hj.1.symm, hj.2.symm⟩
    · exact .inr hj
  have hkeep : ∀ j e' ins, (s.call j).registered = some (e', ins) →
      ((s.set (commit s.db (s.call i).session) i w).call j).registered = some (e', ins) := by
    intro j e' ins hj
    rw [set_call, if_neg]
    · exact hj
    · rintro rfl
      rw [hlocked.registered] at hj
      cases hj
  have hself : ((s.set (commit s.db (s.call i).session) i w).call i).registered = some (e, inserted) := by
    rw [set_call, if_pos rfl, hregistered]
  have hfirst : ∀ k, k ≠ i → inserted = true → (s.call k).registered = some (e, true) →
      (c.request k).fingerprint ≠ (c.request i).fingerprint := by
    intro k hki hins hk hf
    subst hins
    exact hl.2.2.1 (hf ▸ (h.registered k e true hk).2)
  refine ⟨fun j => ?_, h.exclusive_set _ fun hlock => ?_, ?_, ?_, ?_, ?_, fun j e' ins hj => ?_,
    fun ep hep => ?_, fun r hr => ?_, fun j k e' hjk hj hk hf => ?_⟩
  · rw [set_call]
    split
    · next hji => exact hji ▸ hlocal
    · next hji =>
      exact (h.calls j).keep (keeps_commit_snapshot h hlocked.lock howns
        (fun r hr => (hnew r hr).2.1) hji)
  · rw [hw.lock] at hlock
    cases hlock
  · rw [drafts_set (fun w => w.session.endpoint), hw.endpoint]
    exact h.endpointIds.commit i
  · rw [drafts_set (fun w => w.session.snapshot), hw.snapshot]
    exact (h.snapshotIds.map (update_id _)).commit i
  · exact nodup_keys_commit h.keys howns
  · exact nodup_fingerprints_commit h.fingerprints fun r hr => (hnew r hr).2
  · obtain ⟨rfl, rfl, rfl⟩ | hold := hregs j e' ins hj
    · exact ⟨howns.commit, hdone⟩
    · obtain ⟨hk, hs⟩ := h.registered j e' ins hold
      exact ⟨known_commit.mpr (.inl hk), stored_commit.mpr (.inl hs)⟩
  · obtain hep | hep := mem_commit_endpoints.mp hep
    · obtain ⟨j, ins, hkey, hj⟩ := h.endpointOwner ep hep
      exact ⟨j, ins, hkey, hkeep j _ _ hj⟩
    · obtain ⟨hnone, -⟩ | ⟨hd, -⟩ := howns
      · rw [hnone] at hep
        cases hep
      · obtain rfl := Option.some.inj (hd.symm.trans hep)
        exact ⟨i, inserted, rfl, hself⟩
  · obtain hr | hr := List.mem_append.mp hr
    · obtain ⟨r₀, hr₀, rfl⟩ := List.mem_map.mp hr
      obtain ⟨j, hf, hj⟩ := h.snapshotOwner r₀ hr₀
      refine ⟨j, ?_, hkeep j _ _ ?_⟩
      · rw [update_fingerprint, hf]
      · rw [update_endpointId, hj]
    · obtain ⟨rfl, rfl, hf, -⟩ := hnew r (Option.mem_toList.mp hr)
      exact ⟨i, hf.symm, hself⟩
  · obtain ⟨hji, he, hins⟩ | hold := hregs j e' true hj <;>
      obtain ⟨hki, he', hins'⟩ | hold' := hregs k e' true hk
    · exact hjk (hji.trans hki.symm)
    · exact hfirst k (hji ▸ Ne.symm hjk) hins.symm (he ▸ hold') (hji ▸ hf.symm)
    · exact hfirst j (hki ▸ hjk) hins'.symm (he' ▸ hold) (hki ▸ hf)
    · exact h.once j k e' hjk hold hold' hf

variable [Fintype ι] {s' : State ι}

theorem inv_change (h : Inv c s) {db : Tables} {w : Call} (hs : Change c s i db w) :
    Inv c (s.set db i w) := by
  have hl := h.calls i
  rw [LocalOk] at hl
  cases hs with
  | contract hpc =>
    simp only [hpc] at hl
    refine h.goto ?_ id rfl rfl rfl
    cases (c.request i).benchmark with
    | true => exact hl.2
    | false => exact hl
  | begin hpc =>
    simp only [hpc] at hl
    exact h.goto ⟨hl.1, rfl, rfl, rfl⟩ nofun hl.2.endpoint.symm hl.2.snapshot.symm rfl
  | lock hpc hfree =>
    simp only [hpc] at hl
    refine h.move s.db.nextId ⟨⟨hl.1, rfl⟩, hl.2.endpoint, hl.2.snapshot⟩ (fun _ j hji hj hkey => ?_)
      ?_ ?_ rfl
    · exact hfree j hji hj (by rw [lockId, lockId, hkey])
    · rw [Function.update_eq_self]
      exact h.endpointIds
    · rw [Function.update_eq_self]
      exact h.snapshotIds
  | foundEndpoint hpc e hfind =>
    simp only [hpc] at hl
    obtain ⟨hlocked, he, hs⟩ := hl
    exact h.goto ⟨⟨hlocked.registered, hlocked.lock⟩, hs, .inl ⟨he, (findEndpoint_commit _ he).1 e hfind⟩⟩
      id rfl rfl rfl
  | noEndpoint hpc hfind =>
    simp only [hpc] at hl
    obtain ⟨hlocked, he, hs⟩ := hl
    exact h.goto ⟨⟨hlocked.registered, hlocked.lock⟩, he, hs, (findEndpoint_commit _ he).2 hfind⟩
      id rfl rfl rfl
  | endpointConflict hpc e he hkey =>
    simp only [hpc] at hl
    exact absurd hkey (hl.2.2.2 e he)
  | insertEndpoint hpc hfree =>
    simp only [hpc] at hl
    obtain ⟨hlocked, he, hs, hv⟩ := hl
    refine h.move (s.db.nextId + 1) ⟨⟨hlocked.registered, hlocked.lock⟩, hs, .inr ⟨rfl, hv⟩⟩
      (fun hlock j hji hj => h.exclusive j i hji hj hlock) (h.endpointIds.insert i rfl) ?_ rfl
    rw [Function.update_eq_self]
    exact h.snapshotIds.mono (Nat.le_succ _)
  | foundSnapshot e hpc r hfind =>
    simp only [hpc] at hl
    obtain ⟨hlocked, hs, howns⟩ := hl
    have hstored := (findSnapshot_commit _ _ hs).1 r hfind
    obtain ⟨hnone, hknown⟩ | ⟨hd, -⟩ := howns
    · exact h.goto ⟨⟨hlocked.registered, hlocked.lock⟩, hnone, hs, hknown, hstored⟩ id rfl rfl rfl
    · exact absurd hstored (h.fresh_endpoint hd _)
  | noSnapshot e hpc hfind =>
    simp only [hpc] at hl
    obtain ⟨hlocked, hs, howns⟩ := hl
    exact h.goto ⟨⟨hlocked.registered, hlocked.lock⟩, hs, howns, (findSnapshot_commit _ _ hs).2 hfind⟩
      id rfl rfl rfl
  | snapshotConflict e hpc r hr he hf =>
    simp only [hpc] at hl
    exact absurd ⟨r, hr, he, hf⟩ hl.2.2.2
  | insertSnapshot e hpc =>
    simp only [hpc] at hl
    obtain ⟨hlocked, -, howns, hn⟩ := hl
    refine h.move (s.db.nextId + 1)
      ⟨⟨hlocked.registered, hlocked.lock⟩, howns, hn, _, rfl, rfl, rfl⟩
      (fun hlock j hji hj => h.exclusive j i hji hj hlock) ?_ (h.snapshotIds.insert i rfl) rfl
    rw [Function.update_eq_self]
    exact h.endpointIds.mono (Nat.le_succ _)
  | commitSnapshot e inserted hpc =>
    exact h.commitSnapshot hpc ⟨rfl, rfl, rfl, rfl⟩ ⟨rfl, rfl, rfl⟩ rfl
  | compare e inserted hpc r diffs hfind hne hdiffs =>
    simp only [hpc] at hl
    exact h.goto hl id rfl rfl rfl
  | sameBaseline e inserted hpc r hfind heq =>
    simp only [hpc] at hl
    exact h.goto ⟨rfl, rfl, rfl⟩ nofun hl.2.endpoint.symm hl.2.snapshot.symm rfl
  | noBaseline e hpc hfind =>
    simp only [hpc] at hl
    exact h.goto hl id rfl rfl rfl
  | noBaselineKnown e hpc hfind => exact h.finish ⟨rfl, rfl, rfl⟩
  | clearBaselines e hpc ids hids =>
    simp only [hpc] at hl
    exact h.goto ⟨hl.1, hl.2.lock, hl.2.endpoint, hl.2.snapshot⟩ id rfl rfl rfl
  | setBaseline e hpc ids hids =>
    simp only [hpc] at hl
    exact h.goto ⟨hl.1, hl.2.lock, hl.2.endpoint, hl.2.snapshot⟩ id rfl rfl rfl
  | commitBaseline e hpc =>
    simp only [hpc] at hl
    exact h.commitUpdates hl.2 ⟨rfl, rfl, rfl⟩ ⟨rfl, rfl, rfl⟩ rfl
  | logged e inserted diffs hpc =>
    simp only [hpc] at hl
    exact h.goto hl id rfl rfl rfl
  | skipItem e inserted diffs item todo hpc hseverity =>
    simp only [hpc] at hl
    exact h.goto hl id rfl rfl rfl
  | logItem e inserted diffs item todo hpc severity hseverity =>
    simp only [hpc] at hl
    exact h.goto ⟨hl.1, hl.2.lock, hl.2.endpoint, hl.2.snapshot⟩ id rfl rfl rfl
  | commitViolations e inserted diffs hpc =>
    simp only [hpc] at hl
    exact h.commitUpdates hl.2 ⟨rfl, rfl, rfl⟩ ⟨rfl, rfl, rfl⟩ rfl

theorem inv_step {a : Action ι} (h : Inv c s) (hs : step c s a = some s') : Inv c s' := by
  cases a with
  | advance i =>
    obtain ⟨db, w, hchange, rfl⟩ := change_of_advance hs
    exact inv_change h hchange
  | fail i =>
    rw [step] at hs
    split at hs
    · cases hs
      exact h.finish ⟨rfl, rfl, rfl, rfl⟩
    · cases hs
  | tick =>
    cases hs
    exact ⟨h.calls, h.exclusive, h.endpointIds, h.snapshotIds, h.keys, h.fingerprints, h.registered,
      h.endpointOwner, h.snapshotOwner, h.once⟩

theorem reachable_inv {ok : State ι → Action ι → Prop} (h : Reachable (step c) ok init s) : Inv c s :=
  h.invariant (inv_init c) fun _ _ _ hi _ hs => inv_step hi hs

omit [DecidableEq ι] [Fintype ι] in
theorem Inv.no_violation (h : Inv c s) (i : ι) : (s.call i).pc ≠ .failed true := by
  intro hpc
  have hl := h.calls i
  rw [LocalOk] at hl
  simp only [hpc] at hl
  cases hl.1

end Invariant

theorem countP_eq_one {α β : Type} [DecidableEq β] {xs : List α} {f : α → β} (h : (xs.map f).Nodup)
    {b : β} (hb : b ∈ xs.map f) : xs.countP (fun x => f x = b) = 1 := by
  have hcount := List.count_eq_one_of_mem h hb
  rw [List.count, List.countP_map] at hcount
  rw [← hcount]
  exact List.countP_congr fun x _ => by simp

variable [Fintype ι] [DecidableEq ι]

/-- A request that has finished has registered and answers with its registration, unless it skips
the legacy tables. -/
def Answered (req : Request) (w : Call) : Prop :=
  ∀ result, w.pc = .finished result →
    req.benchmark = true ∨ ∃ e inserted diffs, w.registered = some (e, inserted) ∧
      result = some (trackResult e inserted diffs)

theorem answered_change {c : Config ι} {s : State ι} {i : ι} {db : Tables} {w : Call} (h : Inv c s)
    (hs : Change c s i db w) : Answered (c.request i) w := by
  have hl := h.calls i
  rw [LocalOk] at hl
  intro result hpc'
  cases hs with
  | contract hpc =>
    cases hb : (c.request i).benchmark with
    | true => exact .inl rfl
    | false =>
      rw [hb] at hpc'
      cases hpc'
  | sameBaseline e inserted hpc r hfind heq =>
    simp only [hpc] at hl
    cases hpc'
    exact .inr ⟨e, inserted, [], hl.1, rfl⟩
  | noBaselineKnown e hpc hfind =>
    simp only [hpc] at hl
    cases hpc'
    exact .inr ⟨e, false, [], hl.1, rfl⟩
  | commitBaseline e hpc =>
    simp only [hpc] at hl
    cases hpc'
    exact .inr ⟨e, true, [], hl.1, rfl⟩
  | commitViolations e inserted diffs hpc =>
    simp only [hpc] at hl
    cases hpc'
    exact .inr ⟨e, inserted, diffs, hl.1, rfl⟩
  | _ => cases hpc'

theorem answered_step {c : Config ι} {s s' : State ι} {a : Action ι} (h : Inv c s)
    (ha : ∀ i, Answered (c.request i) (s.call i)) (hs : step c s a = some s') (i : ι) :
    Answered (c.request i) (s'.call i) := by
  cases a with
  | advance j =>
    obtain ⟨db, w, hchange, rfl⟩ := change_of_advance hs
    rw [set_call]
    split
    · next hij => exact hij ▸ answered_change h hchange
    · exact ha i
  | fail j =>
    rw [step] at hs
    split at hs
    · cases hs
      rw [set_call]
      split
      · exact fun _ hpc => Pc.noConfusion hpc
      · exact ha i
    · cases hs
  | tick =>
    cases hs
    exact ha i

theorem reachable_answered {c : Config ι} {s : State ι} {ok : State ι → Action ι → Prop}
    (h : Reachable (step c) ok init s) (i : ι) : Answered (c.request i) (s.call i) := by
  have hboth : Inv c s ∧ ∀ i, Answered (c.request i) (s.call i) :=
    h.invariant (I := fun s => Inv c s ∧ ∀ i, Answered (c.request i) (s.call i))
      ⟨inv_init c, fun _ _ hpc => Pc.noConfusion hpc⟩
      fun _ _ _ hi _ hs => ⟨inv_step hi.1 hs, answered_step hi.1 hi.2 hs⟩
  exact hboth.2 i

/-- Registration is free of UNIQUE violations. A committed registration finds its endpoint and
its snapshot exactly once in the tables, which hold nothing else; a request that finishes has
committed one and answers with it, unless it skips the legacy tables; registrations of one route
agree about the endpoint; and one registration of each snapshot reports it as inserted. -/
theorem registered_once (c : Config ι) (s : State ι) (h : Reachable (step c) always init s) :
    (∀ i, (s.call i).pc ≠ .failed true) ∧
      (∀ i e inserted, (s.call i).registered = some (e, inserted) →
        ⟨e, (c.request i).key⟩ ∈ s.db.endpoints ∧
        s.db.endpoints.countP (fun ep => ep.key = (c.request i).key) = 1 ∧
        s.db.snapshots.countP
          (fun r => (r.endpointId, r.fingerprint) = (e, (c.request i).fingerprint)) = 1 ∧
        ∃! j, (c.request j).fingerprint = (c.request i).fingerprint ∧
          (s.call j).registered = some (e, true)) ∧
      (∀ i result, (s.call i).pc = .finished result → (c.request i).benchmark = false →
        ∃ e inserted diffs, (s.call i).registered = some (e, inserted) ∧
          result = some (trackResult e inserted diffs)) ∧
      (∀ ep ∈ s.db.endpoints, ∃ i inserted, (c.request i).key = ep.key ∧
        (s.call i).registered = some (ep.id, inserted)) ∧
      (∀ r ∈ s.db.snapshots, ∃ i inserted, (c.request i).fingerprint = r.fingerprint ∧
        (s.call i).registered = some (r.endpointId, inserted)) ∧
      ∀ i j e e' inserted inserted', (s.call i).registered = some (e, inserted) →
        (s.call j).registered = some (e', inserted') → (c.request i).key = (c.request j).key → e = e' := by
  have hinv := reachable_inv h
  refine ⟨hinv.no_violation, fun i e inserted hi => ?_, fun i result hpc hbenchmark => ?_,
    hinv.endpointOwner, fun r hr => ?_, fun i j e e' ins ins' hi hj hkey => ?_⟩
  · obtain ⟨⟨ep, hep, rfl, hkey⟩, r, hr, he, hf⟩ := hinv.registered i e inserted hi
    refine ⟨hkey ▸ hep, ?_, ?_, ?_⟩
    · exact countP_eq_one hinv.keys (hkey ▸ List.mem_map_of_mem hep)
    · refine countP_eq_one hinv.fingerprints (List.mem_map.mpr ⟨r, hr, ?_⟩)
      rw [he, hf]
    · obtain ⟨j, hfj, hj⟩ := hinv.snapshotOwner r hr
      refine ⟨j, ⟨hfj.trans hf, he ▸ hj⟩, fun k ⟨hfk, hk⟩ => ?_⟩
      by_contra hne
      exact hinv.once k j _ hne hk (he ▸ hj) (hfk.trans (hfj.trans hf).symm)
  · exact (reachable_answered h i result hpc).resolve_left (Bool.eq_false_iff.mp hbenchmark)
  · obtain ⟨i, hf, hi⟩ := hinv.snapshotOwner r hr
    exact ⟨i, true, hf, hi⟩
  · obtain ⟨ep, hep, rfl, hk⟩ := (hinv.registered i e ins hi).1
    obtain ⟨ep', hep', rfl, hk'⟩ := (hinv.registered j e' ins' hj).1
    have heq : ep.key = ep'.key := hk.trans (hkey.trans hk'.symm)
    rw [List.inj_on_of_nodup_map hinv.keys hep hep' heq]

/-- Two requests with one payload; the second gets the lock after the first and finds its rows. -/
theorem registered_once_two_requests :
    let c := sampleConfig (fun _ : Fin 2 => intSubmission)
    ∃ s : State (Fin 2), Reachable (step c) always init s ∧ (s.call 1).registered = some (0, false) ∧
      ∃! j, (c.request j).fingerprint = (c.request 1).fingerprint ∧
        (s.call j).registered = some (0, true) := by
  intro c
  let acts := List.replicate 6 (Action.advance (0 : Fin 2)) ++ List.replicate 2 (Action.advance 1) ++
    [Action.tick] ++ List.replicate 2 (Action.advance 0) ++ List.replicate 4 (Action.advance 1)
  have hreg : (run (step c) always init acts).map (fun s => (s.call 1).registered) =
      some (some (0, false)) := by decide +kernel
  obtain ⟨s, hs, hreg⟩ := Option.map_eq_some_iff.mp hreg
  have hreach : Reachable (step c) always init s := reachable_run (step c) always .start hs
  exact ⟨s, hreach, hreg, ((registered_once c s hreach).2.1 1 0 false hreg).2.2.2⟩

end SchemaPilot.LegacyRegistry
