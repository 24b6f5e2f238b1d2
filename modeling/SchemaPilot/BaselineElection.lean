import SchemaPilot.LegacyRegistry

namespace SchemaPilot.BaselineElection

open DraftRows Runs TrackPayload LegacyRegistry

variable {ι : Type}

/-- The endpoint whose baselines the request has cleared, until it commits its own. -/
def electing : Pc → Option Nat
  | .setBaseline e | .commitBaseline e => some e
  | _ => none

/-- The snapshots that a request has cleared belong to its endpoint, and its own is one of them,
as is every active one. -/
structure Cleared (db : Tables) (f : String) (t : Session) (e : Nat) : Prop where
  cleared : ∀ id ∈ t.cleared, ∃ r ∈ db.snapshots, r.id = id ∧ r.endpointId = e
  own : ∀ r ∈ db.snapshots, r.endpointId = e → r.fingerprint = f → r.id ∈ t.cleared
  active : ∀ r ∈ db.snapshots, r.endpointId = e → r.isActiveBaseline = true → r.id ∈ t.cleared

def Elected (db : Tables) (f : String) (t : Session) (e : Nat) : Prop :=
  (∀ id ∈ t.elected, ∃ r ∈ db.snapshots, r.id = id ∧ r.endpointId = e ∧ r.fingerprint = f) ∧
    ∀ r ∈ db.snapshots, r.endpointId = e → r.fingerprint = f → r.id ∈ t.elected

def ElectionOk (db : Tables) (req : Request) (w : Call) : Prop :=
  (∀ r, w.session.snapshot = some r → r.isActiveBaseline = false) ∧
    match w.pc with
    | .setBaseline e => w.session.elected = [] ∧ Cleared db req.fingerprint w.session e
    | .commitBaseline e =>
      Cleared db req.fingerprint w.session e ∧ Elected db req.fingerprint w.session e
    | _ => w.session.cleared = [] ∧ w.session.elected = []

/-- The request may still elect its snapshot, or has failed. -/
def mayElect : Pc → Bool
  | .selectBaseline _ true | .clearBaselines _ | .setBaseline _ | .commitBaseline _ | .failed _ => true
  | _ => false

def HasBaseline (db : Tables) (e : Nat) : Prop :=
  ∃ r ∈ db.snapshots, r.endpointId = e ∧ r.isActiveBaseline = true

structure ElectionInv (c : Config ι) (s : State ι) : Prop where
  base : Inv c s
  calls : ∀ i, ElectionOk s.db (c.request i) (s.call i)
  electors : ∀ i j e, electing (s.call i).pc = some e → electing (s.call j).pc = some e → i = j
  active : ∀ r ∈ s.db.snapshots, ∀ r' ∈ s.db.snapshots, r.endpointId = r'.endpointId →
    r.isActiveBaseline = true → r'.isActiveBaseline = true → r = r'
  pending : ∀ r ∈ s.db.snapshots, HasBaseline s.db r.endpointId ∨
    ∃ i, (c.request i).fingerprint = r.fingerprint ∧
      (s.call i).registered = some (r.endpointId, true) ∧ mayElect (s.call i).pc = true

theorem registered_endpoint {w : Call} {e e' : Nat} {b b' : Bool} (h : w.registered = some (e, b))
    (h' : w.registered = some (e', b')) : e = e' :=
  (Prod.mk.inj (Option.some.inj (h.symm.trans h'))).1

theorem electionInv_init (c : Config ι) : ElectionInv c init := by
  refine ⟨inv_init c, fun i => ⟨nofun, rfl, rfl⟩, nofun, ?_, ?_⟩
  · simp [init, Tables.empty]
  · simp [init, Tables.empty]

/-- What another request's step may do to the snapshots of an endpoint: add inactive ones of
other fingerprints. -/
structure KeepsSnapshots (db db' : Tables) (e : Nat) (f : String) : Prop where
  rows : ∀ r ∈ db.snapshots, ∃ r' ∈ db'.snapshots, r'.id = r.id ∧ r'.endpointId = r.endpointId ∧
    r'.fingerprint = r.fingerprint
  new : ∀ r ∈ db'.snapshots, r.endpointId = e → r ∈ db.snapshots ∨
    r.isActiveBaseline = false ∧ r.fingerprint ≠ f

section Keeps

variable {db db' : Tables} {f : String} {t : Session} {e : Nat}

theorem KeepsSnapshots.of_eq (h : db'.snapshots = db.snapshots) : KeepsSnapshots db db' e f :=
  ⟨fun r hr => ⟨r, h ▸ hr, rfl, rfl, rfl⟩, fun _ hr _ => .inl (h ▸ hr)⟩

theorem Cleared.keep (hk : KeepsSnapshots db db' e f) (h : Cleared db f t e) : Cleared db' f t e := by
  refine ⟨fun id hid => ?_, fun r hr he hf => ?_, fun r hr he ha => ?_⟩
  · obtain ⟨r, hr, rfl, he⟩ := h.cleared id hid
    obtain ⟨r', hr', hid', he', -⟩ := hk.rows r hr
    exact ⟨r', hr', hid', he'.trans he⟩
  · obtain hr | ⟨-, hne⟩ := hk.new r hr he
    · exact h.own r hr he hf
    · exact absurd hf hne
  · obtain hr | ⟨hina, -⟩ := hk.new r hr he
    · exact h.active r hr he ha
    · rw [ha] at hina
      cases hina

theorem Elected.keep (hk : KeepsSnapshots db db' e f) (h : Elected db f t e) : Elected db' f t e := by
  refine ⟨fun id hid => ?_, fun r hr he hf => ?_⟩
  · obtain ⟨r, hr, rfl, he, hf⟩ := h.1 id hid
    obtain ⟨r', hr', hid', he', hf'⟩ := hk.rows r hr
    exact ⟨r', hr', hid', he'.trans he, hf'.trans hf⟩
  · obtain hr | ⟨-, hne⟩ := hk.new r hr he
    · exact h.2 r hr he hf
    · exact absurd hf hne

theorem ElectionOk.keep {req : Request} {w : Call}
    (hk : ∀ e, electing w.pc = some e → KeepsSnapshots db db' e req.fingerprint) (h : ElectionOk db req w) :
    ElectionOk db' req w := by
  refine ⟨h.1, ?_⟩
  have h2 := h.2
  cases hpc : w.pc with
  | setBaseline e =>
    simp only [hpc] at h2 ⊢
    exact ⟨h2.1, h2.2.keep (hk e (by rw [hpc]; rfl))⟩
  | commitBaseline e =>
    simp only [hpc] at h2 ⊢
    exact ⟨h2.1.keep (hk e (by rw [hpc]; rfl)), h2.2.keep (hk e (by rw [hpc]; rfl))⟩
  | _ =>
    simp only [hpc] at h2 ⊢
    exact h2

end Keeps

section Commit

variable {c : Config ι} {s : State ι} {i : ι}

theorem update_untouched {t : Session} (hc : t.cleared = []) (he : t.elected = []) (r : SchemaSnapshot) :
    t.update r = r := by
  simp [Session.update, hc, he]

theorem mem_commit_snapshots {db : Tables} {t : Session} (hc : t.cleared = []) (he : t.elected = [])
    (r : SchemaSnapshot) : r ∈ (commit db t).snapshots ↔ r ∈ db.snapshots ∨ t.snapshot = some r := by
  have hmap : db.snapshots.map t.update = db.snapshots :=
    (List.map_congr_left fun r _ => update_untouched hc he r).trans (List.map_id _)
  rw [commit, hmap, List.mem_append, Option.mem_toList]

/-- An election leaves its own snapshot as the only active one of the endpoint, and other
endpoints as they are. -/
theorem update_election {db : Tables} {f : String} {t : Session} {e : Nat}
    (hids : (db.snapshots.map SchemaSnapshot.id).Nodup) (hc : Cleared db f t e) (he : Elected db f t e)
    {r : SchemaSnapshot} (hr : r ∈ db.snapshots) :
    t.update r =
      if r.endpointId = e then { r with isActiveBaseline := decide (r.fingerprint = f) } else r := by
  have hrow : ∀ r' ∈ db.snapshots, r'.id = r.id → r' = r := fun r' hr' hid =>
    List.inj_on_of_nodup_map hids hr' hr hid
  have helected : r.id ∈ t.elected ↔ r.endpointId = e ∧ r.fingerprint = f := by
    constructor
    · intro hid
      obtain ⟨r', hr', hid', he', hf'⟩ := he.1 _ hid
      obtain rfl := hrow r' hr' hid'
      exact ⟨he', hf'⟩
    · exact fun h => he.2 r hr h.1 h.2
  rw [Session.update]
  by_cases hre : r.endpointId = e
  · rw [if_pos hre]
    by_cases hrf : r.fingerprint = f
    · rw [if_pos (helected.mpr ⟨hre, hrf⟩), decide_eq_true hrf]
    · rw [if_neg fun h => hrf (helected.mp h).2, decide_eq_false hrf]
      split
      · rfl
      · next hnot =>
        have hina : r.isActiveBaseline = false := by
          by_contra ha
          exact hnot (hc.active r hr hre (Bool.not_eq_false _ ▸ ha))
        rw [← hina]
  · rw [if_neg hre, if_neg fun h => hre (helected.mp h).1, if_neg]
    intro hid
    obtain ⟨r', hr', hid', he'⟩ := hc.cleared _ hid
    obtain rfl := hrow r' hr' hid'
    exact hre he'

end Commit

theorem getActiveBaselineSnapshot_spec (snapshots : List SchemaSnapshot) (e : Nat) :
    (∀ r, getActiveBaselineSnapshot snapshots e = some r →
        r ∈ snapshots ∧ r.endpointId = e ∧ r.isActiveBaseline = true) ∧
      (getActiveBaselineSnapshot snapshots e = none →
        ∀ r ∈ snapshots, r.endpointId = e → r.isActiveBaseline = false) := by
  have hmem : ∀ r, r ∈ (snapshots.filter (fun r => r.endpointId = e ∧ r.isActiveBaseline)).insertionSort
      (fun r r' => r'.createdAt ≤ r.createdAt) ↔
        r ∈ snapshots ∧ r.endpointId = e ∧ r.isActiveBaseline = true := by
    intro r
    rw [(List.perm_insertionSort _ _).mem_iff, List.mem_filter, decide_eq_true_eq]
  constructor
  · exact fun r hr => (hmem r).mp (List.mem_of_head? hr)
  · intro hnone r hr he
    by_contra ha
    rw [getActiveBaselineSnapshot, List.head?_eq_none_iff] at hnone
    have hm := (hmem r).mpr ⟨hr, he, Bool.not_eq_false _ ▸ ha⟩
    rw [hnone] at hm
    cases hm

section Invariant

variable {c : Config ι} {s : State ι} {i : ι} [DecidableEq ι]

theorem electing_registered {db : Tables} {req : Request} {w : Call} (h : LocalOk db req w) {e : Nat}
    (he : electing w.pc = some e) : w.registered = some (e, true) ∧ NoDrafts w.session := by
  rw [LocalOk] at h
  cases hpc : w.pc with
  | setBaseline e' | commitBaseline e' =>
    rw [hpc] at he
    cases he
    simp only [hpc] at h
    exact h
  | _ =>
    rw [hpc] at he
    cases he

/-- A snapshot that is committed without a UNIQUE violation is the first of its fingerprint. -/
theorem new_fingerprint {db : Tables} {t : Session}
    (h : ((commit db t).snapshots.map (fun r => (r.endpointId, r.fingerprint))).Nodup)
    {r : SchemaSnapshot} (hr : t.snapshot = some r) : ¬Stored db r.endpointId r.fingerprint := by
  rintro ⟨r', hr', he, hf⟩
  rw [commit, List.map_append, hr, List.nodup_append] at h
  apply h.2.2 _ (List.mem_map_of_mem (List.mem_map_of_mem hr')) _ (List.mem_singleton.mpr rfl)
  rw [update_endpointId, update_fingerprint, he, hf]

/-- A step of one request that changes no committed snapshot. -/
theorem ElectionInv.quiet (h : ElectionInv c s) {db : Tables} {w : Call}
    (hbase : Inv c (s.set db i w)) (hdb : db.snapshots = s.db.snapshots)
    (hlocal : ElectionOk s.db (c.request i) w)
    (helect : ∀ e, electing w.pc = some e → ∀ j, j ≠ i → electing (s.call j).pc ≠ some e)
    (hpending : mayElect (s.call i).pc = true → ∀ e, (s.call i).registered = some (e, true) →
      HasBaseline s.db e ∨ w.registered = some (e, true) ∧ mayElect w.pc = true) :
    ElectionInv c (s.set db i w) := by
  have hkeeps : ∀ e f, KeepsSnapshots s.db db e f := fun e f => .of_eq hdb
  have hhas : ∀ e, HasBaseline s.db e → HasBaseline db e := fun e ⟨r, hr, hb⟩ => ⟨r, hdb ▸ hr, hb⟩
  refine ⟨hbase, fun j => ?_, fun j k e hj hk => ?_, fun r hr r' hr' => ?_, fun r hr => ?_⟩
  · rw [set_call]
    split
    · next hji =>
      rw [hji]
      exact hlocal.keep fun e _ => hkeeps e _
    · exact (h.calls j).keep fun e _ => hkeeps e _
  · rw [set_call] at hj hk
    split at hj <;> split at hk
    · next hji hki => rw [hji, hki]
    · next hji hki => exact absurd hk (helect e hj k hki)
    · next hji hki => exact absurd hj (helect e hk j hji)
    · exact h.electors j k e hj hk
  · exact h.active r (hdb ▸ hr) r' (hdb ▸ hr')
  · obtain hb | ⟨j, hf, hj, hmay⟩ := h.pending r (hdb ▸ hr)
    · exact .inl (hhas _ hb)
    · by_cases hji : j = i
      · subst hji
        obtain hb | ⟨hreg, hmay'⟩ := hpending hmay _ hj
        · exact .inl (hhas _ hb)
        · refine .inr ⟨j, hf, ?_⟩
          rw [set_call, if_pos rfl]
          exact ⟨hreg, hmay'⟩
      · refine .inr ⟨j, hf, ?_⟩
        rw [set_call, if_neg hji]
        exact ⟨hj, hmay⟩

/-- A step of a request that is not electing and keeps no row locked. -/
theorem ElectionInv.plain (h : ElectionInv c s) {db : Tables} {w : Call}
    (hbase : Inv c (s.set db i w)) (hdb : db.snapshots = s.db.snapshots)
    (hsnapshot : ∀ r, w.session.snapshot = some r → r.isActiveBaseline = false)
    (hcleared : w.session.cleared = []) (helected : w.session.elected = [])
    (hpc : electing w.pc = none)
    (hpending : mayElect (s.call i).pc = true → ∀ e, (s.call i).registered = some (e, true) →
      HasBaseline s.db e ∨ w.registered = some (e, true) ∧ mayElect w.pc = true) :
    ElectionInv c (s.set db i w) := by
  refine h.quiet hbase hdb ⟨hsnapshot, ?_⟩ (fun e he => ?_) hpending
  · cases hp : w.pc with
    | setBaseline e | commitBaseline e =>
      rw [hp] at hpc
      cases hpc
    | _ => exact ⟨hcleared, helected⟩
  · rw [hpc] at he
    cases he

/-- The commit of rows that touches no snapshot but the new one. -/
theorem ElectionInv.commitRows (h : ElectionInv c s) {w : Call}
    (hbase : Inv c (s.set (commit s.db (s.call i).session) i w))
    (hc : (s.call i).session.cleared = []) (he : (s.call i).session.elected = [])
    (hsession : w.session = .closed) (helect : electing w.pc = none)
    (hpending : mayElect (s.call i).pc = true → mayElect w.pc = true ∧ w.registered = (s.call i).registered)
    (hnew : ∀ r, (s.call i).session.snapshot = some r →
      (c.request i).fingerprint = r.fingerprint ∧ w.registered = some (r.endpointId, true) ∧
        mayElect w.pc = true) :
    ElectionInv c (s.set (commit s.db (s.call i).session) i w) := by
  have hrows : ∀ r, r ∈ (commit s.db (s.call i).session).snapshots ↔
      r ∈ s.db.snapshots ∨ (s.call i).session.snapshot = some r := mem_commit_snapshots hc he
  have hhas : ∀ e, HasBaseline s.db e → HasBaseline (commit s.db (s.call i).session) e :=
    fun e ⟨r, hr, hb⟩ => ⟨r, (hrows r).mpr (.inl hr), hb⟩
  have hinactive := (h.calls i).1
  refine ⟨hbase, fun j => ?_, fun j k e hj hk => ?_, fun r hr r' hr' hend ha ha' => ?_, fun r hr => ?_⟩
  · rw [set_call]
    split
    · refine ⟨by simp [hsession, Session.closed], ?_⟩
      cases hp : w.pc with
      | setBaseline e | commitBaseline e =>
        rw [hp] at helect
        cases helect
      | _ => simp [hsession, Session.closed]
    · next hji =>
      refine (h.calls j).keep fun e hj => ⟨fun r hr => ⟨r, (hrows r).mpr (.inl hr), rfl, rfl, rfl⟩,
        fun r hr hre => ((hrows r).mp hr).imp_right fun hdraft => ⟨hinactive r hdraft, fun hf => ?_⟩⟩
      have hreg := (electing_registered (h.base.calls j) hj).1
      exact new_fingerprint hbase.fingerprints hdraft (hre ▸ hf ▸ (h.base.registered j e true hreg).2)
  · rw [set_call] at hj hk
    split at hj
    · rw [helect] at hj
      cases hj
    · split at hk
      · rw [helect] at hk
        cases hk
      · exact h.electors j k e hj hk
  · rcases (hrows r).mp hr with hr | hr <;> rcases (hrows r').mp hr' with hr' | hr'
    · exact h.active r hr r' hr' hend ha ha'
    · rw [hinactive r' hr'] at ha'
      cases ha'
    · rw [hinactive r hr] at ha
      cases ha
    · exact Option.some.inj (hr.symm.trans hr')
  · rcases (hrows r).mp hr with hr | hr
    · obtain hb | ⟨j, hf, hj, hmay⟩ := h.pending r hr
      · exact .inl (hhas _ hb)
      · refine .inr ⟨j, hf, ?_⟩
        rw [set_call]
        split
        · next hji =>
          subst hji
          obtain ⟨hmay', hreg⟩ := hpending hmay
          exact ⟨hreg.trans hj, hmay'⟩
        · exact ⟨hj, hmay⟩
    · obtain ⟨hf, hreg, hmay⟩ := hnew r hr
      refine .inr ⟨i, hf, ?_⟩
      rw [set_call, if_pos rfl]
      exact ⟨hreg, hmay⟩

omit [DecidableEq ι] in
theorem ElectionInv.commit_election (h : ElectionInv c s) {e : Nat}
    (hpc : (s.call i).pc = .commitBaseline e) :
    (commit s.db (s.call i).session).snapshots =
      s.db.snapshots.map (fun r => if r.endpointId = e then
        { r with isActiveBaseline := decide (r.fingerprint = (c.request i).fingerprint) } else r) := by
  have hel : electing (s.call i).pc = some e := by rw [hpc]; rfl
  have hnone := (electing_registered (h.base.calls i) hel).2.snapshot
  have hok := (h.calls i).2
  simp only [hpc] at hok
  rw [commit, hnone, Option.toList_none, List.append_nil]
  exact List.map_congr_left fun r hr => update_election h.base.snapshotIds.ids hok.1 hok.2 hr

omit [DecidableEq ι] in
theorem ElectionInv.mem_commit_election (h : ElectionInv c s) {e : Nat}
    (hpc : (s.call i).pc = .commitBaseline e) {r : SchemaSnapshot} (hne : r.endpointId ≠ e) :
    r ∈ (commit s.db (s.call i).session).snapshots ↔ r ∈ s.db.snapshots := by
  rw [h.commit_election hpc, List.mem_map]
  constructor
  · rintro ⟨r₀, hr₀, rfl⟩
    split at hne
    · next he => exact absurd he hne
    · next he => rwa [if_neg he]
  · exact fun hr => ⟨r, hr, if_neg hne⟩

omit [DecidableEq ι] in
theorem ElectionInv.hasBaseline_commit (h : ElectionInv c s) {e : Nat}
    (hpc : (s.call i).pc = .commitBaseline e) : HasBaseline (commit s.db (s.call i).session) e := by
  have hel : electing (s.call i).pc = some e := by rw [hpc]; rfl
  obtain ⟨-, r, hr, hre, hrf⟩ :=
    h.base.registered i e true (electing_registered (h.base.calls i) hel).1
  refine ⟨_, h.commit_election hpc ▸ List.mem_map_of_mem hr, ?_, ?_⟩
  · rw [if_pos hre]
    exact hre
  · rw [if_pos hre]
    exact decide_eq_true hrf

/-- The commit of an election. -/
theorem ElectionInv.commitElection (h : ElectionInv c s) {e : Nat}
    (hpc : (s.call i).pc = .commitBaseline e) {w : Call}
    (hbase : Inv c (s.set (commit s.db (s.call i).session) i w)) (hsession : w.session = .closed)
    (helect : electing w.pc = none) :
    ElectionInv c (s.set (commit s.db (s.call i).session) i w) := by
  have hel : electing (s.call i).pc = some e := by rw [hpc]; rfl
  have hreg := (electing_registered (h.base.calls i) hel).1
  have hsnapshots := h.commit_election hpc
  have helected := h.hasBaseline_commit hpc
  have hother : ∀ e', e' ≠ e → ∀ r, r.endpointId = e' →
      (r ∈ (commit s.db (s.call i).session).snapshots ↔ r ∈ s.db.snapshots) :=
    fun e' hne r hre => h.mem_commit_election hpc (hre ▸ hne)
  refine ⟨hbase, fun j => ?_, fun j k e' hj hk => ?_, fun r hr r' hr' hend ha ha' => ?_, fun r hr => ?_⟩
  · rw [set_call]
    split
    · refine ⟨by simp [hsession, Session.closed], ?_⟩
      cases hp : w.pc with
      | setBaseline e | commitBaseline e =>
        rw [hp] at helect
        cases helect
      | _ => simp [hsession, Session.closed]
    · next hji =>
      refine (h.calls j).keep fun e' hj => ?_
      have hne : e' ≠ e := by
        rintro rfl
        exact hji (h.electors j i e' hj hel)
      refine ⟨fun r hr => ?_, fun r hr hre => .inl ((hother e' hne r hre).mp hr)⟩
      refine ⟨_, hsnapshots ▸ List.mem_map_of_mem hr, ?_⟩
      split <;> exact ⟨rfl, rfl, rfl⟩
  · rw [set_call] at hj hk
    split at hj
    · rw [helect] at hj
      cases hj
    · split at hk
      · rw [helect] at hk
        cases hk
      · exact h.electors j k e' hj hk
  · by_cases hre : r.endpointId = e
    · have hown : ∀ r ∈ (commit s.db (s.call i).session).snapshots, r.endpointId = e →
          r.isActiveBaseline = true → (r.endpointId, r.fingerprint) = (e, (c.request i).fingerprint) := by
        intro r hr hre ha
        rw [hsnapshots] at hr
        obtain ⟨r₀, -, rfl⟩ := List.mem_map.mp hr
        split at ha
        · next he => simpa [he] using ha
        · next he =>
          rw [if_neg he] at hre
          exact absurd hre he
      exact List.inj_on_of_nodup_map hbase.fingerprints hr hr'
        ((hown r hr hre ha).trans (hown r' hr' (hend ▸ hre) ha').symm)
    · exact h.active r ((hother _ hre r rfl).mp hr) r' ((hother _ hre r' hend.symm).mp hr') hend ha ha'
  · by_cases hre : r.endpointId = e
    · exact .inl (hre ▸ helected)
    · obtain ⟨r', hr', hend, hb⟩ | ⟨j, hf, hj, hmay⟩ := h.pending r ((hother _ hre r rfl).mp hr)
      · exact .inl ⟨r', (hother _ hre r' hend).mpr hr', hend, hb⟩
      · refine .inr ⟨j, hf, ?_⟩
        rw [set_call, if_neg]
        · exact ⟨hj, hmay⟩
        · rintro rfl
          rw [hreg] at hj
          exact hre (Prod.mk.inj (Option.some.inj hj)).1.symm

section Targets

variable [Fintype ι]

/-- An UPDATE by endpoint and fingerprint finds the committed snapshots, none of them locked. -/
theorem mem_updateTargets {p : SchemaSnapshot → Bool} {ids : List Nat}
    (hids : updateTargets s i p = some ids) (hp : ∀ r, p ((s.call i).session.update r) = p r)
    (hsnapshot : (s.call i).session.snapshot = none) :
    (∀ id, id ∈ ids ↔ ∃ r ∈ s.db.snapshots, p r = true ∧ r.id = id) ∧
      ∀ j, j ≠ i → ∀ id ∈ ids, id ∉ (s.call j).session.locks := by
  unfold updateTargets at hids
  dsimp only at hids
  split at hids
  · cases hids
  · next hfree =>
    cases hids
    refine ⟨fun id => ?_, fun j hji id hid hlock => hfree ⟨j, hji, id, hid, hlock⟩⟩
    rw [commit, hsnapshot, Option.toList_none, List.append_nil, List.mem_map]
    constructor
    · rintro ⟨r, hr, rfl⟩
      obtain ⟨hr, hpr⟩ := List.mem_filter.mp hr
      obtain ⟨r₀, hr₀, rfl⟩ := List.mem_map.mp hr
      exact ⟨r₀, hr₀, (hp r₀).symm.trans hpr, (update_id _ r₀).symm⟩
    · rintro ⟨r, hr, hpr, rfl⟩
      refine ⟨(s.call i).session.update r, List.mem_filter.mpr ⟨List.mem_map_of_mem hr, ?_⟩, update_id _ r⟩
      rw [hp, hpr]

/-- The clearing UPDATE waits for every other election of the endpoint. -/
theorem ElectionInv.clear (h : ElectionInv c s) {e : Nat} (hpc : (s.call i).pc = .clearBaselines e)
    {ids : List Nat} (hids : updateTargets s i (fun r => r.endpointId = e) = some ids)
    (hbase : Inv c (s.set s.db i
      { s.call i with pc := .setBaseline e, session := { (s.call i).session with cleared := ids } })) :
    ElectionInv c (s.set s.db i
      { s.call i with pc := .setBaseline e, session := { (s.call i).session with cleared := ids } }) := by
  have hl := h.base.calls i
  rw [LocalOk] at hl
  simp only [hpc] at hl
  obtain ⟨hinactive, hok⟩ := h.calls i
  simp only [hpc] at hok
  obtain ⟨hmem, hfree⟩ := mem_updateTargets hids (fun r => by rw [update_endpointId]) hl.2.snapshot
  have htarget : ∀ r ∈ s.db.snapshots, r.endpointId = e → r.id ∈ ids := fun r hr he =>
    (hmem r.id).mpr ⟨r, hr, decide_eq_true he, rfl⟩
  refine h.quiet hbase rfl ⟨hinactive, hok.2, fun id hid => ?_, fun r hr he _ => htarget r hr he,
    fun r hr he _ => htarget r hr he⟩ (fun e' he j hji hj => ?_) fun _ e' he => .inr ⟨he, rfl⟩
  · obtain ⟨r, hr, he, hid⟩ := (hmem id).mp hid
    exact ⟨r, hr, hid, of_decide_eq_true he⟩
  · obtain rfl : e = e' := Option.some.inj he
    obtain ⟨r, hr, hre, hrf⟩ := (h.base.registered j e true
      (electing_registered (h.base.calls j) hj).1).2
    refine hfree j hji r.id (htarget r hr hre) (List.mem_append_left _ ?_)
    have hjok := (h.calls j).2
    cases hjpc : (s.call j).pc with
    | setBaseline e' =>
      simp only [hjpc] at hjok
      rw [hjpc] at hj
      cases hj
      exact hjok.2.own r hr hre hrf
    | commitBaseline e' =>
      simp only [hjpc] at hjok
      rw [hjpc] at hj
      cases hj
      exact hjok.1.own r hr hre hrf
    | _ =>
      rw [hjpc] at hj
      cases hj

theorem ElectionInv.elect (h : ElectionInv c s) {e : Nat} (hpc : (s.call i).pc = .setBaseline e)
    {ids : List Nat} (hids : updateTargets s i
      (fun r => r.endpointId = e ∧ r.fingerprint = (c.request i).fingerprint) = some ids)
    (hbase : Inv c (s.set s.db i
      { s.call i with pc := .commitBaseline e, session := { (s.call i).session with elected := ids } })) :
    ElectionInv c (s.set s.db i
      { s.call i with pc := .commitBaseline e, session := { (s.call i).session with elected := ids } }) := by
  have hl := h.base.calls i
  rw [LocalOk] at hl
  simp only [hpc] at hl
  obtain ⟨hinactive, hok⟩ := h.calls i
  simp only [hpc] at hok
  obtain ⟨hmem, -⟩ := mem_updateTargets hids
    (fun r => by rw [update_endpointId, update_fingerprint]) hl.2.snapshot
  refine h.quiet hbase rfl ⟨hinactive, ⟨hok.2.cleared, hok.2.own, hok.2.active⟩, fun id hid => ?_,
    fun r hr he hf => (hmem r.id).mpr ⟨r, hr, decide_eq_true ⟨he, hf⟩, rfl⟩⟩ (fun e' he j hji hj => ?_)
    fun _ e' he => .inr ⟨he, rfl⟩
  · obtain ⟨r, hr, hp, hid⟩ := (hmem id).mp hid
    obtain ⟨he, hf⟩ := of_decide_eq_true hp
    exact ⟨r, hr, hid, he, hf⟩
  · obtain rfl : e = e' := Option.some.inj he
    exact hji (h.electors j i e hj (by rw [hpc]; rfl))

end Targets

omit [DecidableEq ι] in
theorem ElectionInv.untouched (h : ElectionInv c s) (hpc : electing (s.call i).pc = none) :
    (s.call i).session.cleared = [] ∧ (s.call i).session.elected = [] := by
  have hok := (h.calls i).2
  cases hp : (s.call i).pc with
  | setBaseline e | commitBaseline e =>
    rw [hp] at hpc
    cases hpc
  | _ =>
    simp only [hp] at hok
    exact hok

omit [DecidableEq ι] in
/-- A request that has nothing uncommitted reads the committed snapshots. -/
theorem ElectionInv.view (h : ElectionInv c s) (hpc : electing (s.call i).pc = none)
    (hsnapshot : (s.call i).session.snapshot = none) :
    (commit s.db (s.call i).session).snapshots = s.db.snapshots := by
  obtain ⟨hc, he⟩ := h.untouched hpc
  rw [commit, hsnapshot, Option.toList_none, List.append_nil]
  exact (List.map_congr_left fun r _ => update_untouched hc he r).trans (List.map_id _)

omit [DecidableEq ι] in
/-- A baseline that a request finds is committed. -/
theorem ElectionInv.found (h : ElectionInv c s) {e : Nat} {inserted : Bool} {r : SchemaSnapshot}
    (hpc : (s.call i).pc = .selectBaseline e inserted)
    (hfind : getActiveBaselineSnapshot (commit s.db (s.call i).session).snapshots e = some r) :
    r ∈ s.db.snapshots ∧ r.endpointId = e ∧ r.isActiveBaseline = true := by
  have hl := h.base.calls i
  unfold LocalOk at hl
  simp only [hpc] at hl
  rw [h.view (by rw [hpc]; rfl) hl.2.snapshot] at hfind
  exact (getActiveBaselineSnapshot_spec _ _).1 r hfind

/-- A statement of a request with no election to do, which leaves the snapshots alone. -/
theorem ElectionInv.move (h : ElectionInv c s) {db : Tables} {w : Call} {pc : Pc}
    (hbase : Inv c (s.set db i w)) (hdb : db.snapshots = s.db.snapshots)
    (hpc : (s.call i).pc = pc) (hidle : electing pc = none ∧ mayElect pc = false)
    (hsession : w.session.snapshot = (s.call i).session.snapshot ∧
      w.session.cleared = (s.call i).session.cleared ∧
      w.session.elected = (s.call i).session.elected)
    (hw : electing w.pc = none) : ElectionInv c (s.set db i w) := by
  subst hpc
  obtain ⟨hsnapshot, hcleared, helected⟩ := hsession
  obtain ⟨hc, he⟩ := h.untouched hidle.1
  refine h.plain hbase hdb ?_ (hcleared.trans hc) (helected.trans he) hw fun hmay => ?_
  · rw [hsnapshot]
    exact (h.calls i).1
  · exact absurd (hidle.2.symm.trans hmay) Bool.false_ne_true

/-- A request with no election to do closes its session, or opens a new one. -/
theorem ElectionInv.reset (h : ElectionInv c s) {db : Tables} {w : Call} {pc : Pc}
    (hbase : Inv c (s.set db i w)) (hdb : db.snapshots = s.db.snapshots)
    (hpc : (s.call i).pc = pc) (hmay : mayElect pc = false)
    (hsession : w.session.snapshot = none ∧ w.session.cleared = [] ∧ w.session.elected = [])
    (hw : electing w.pc = none) : ElectionInv c (s.set db i w) := by
  subst hpc
  obtain ⟨hsnapshot, hcleared, helected⟩ := hsession
  refine h.plain hbase hdb ?_ hcleared helected hw fun hmay' => ?_
  · intro r hr
    cases hsnapshot.symm.trans hr
  · exact absurd (hmay.symm.trans hmay') Bool.false_ne_true

variable [Fintype ι] {s' : State ι}

theorem electionInv_change (h : ElectionInv c s) {db : Tables} {w : Call} (hs : Change c s i db w) :
    ElectionInv c (s.set db i w) := by
  have hbase := inv_change h.base hs
  have hl := h.base.calls i
  unfold LocalOk at hl
  have hinactive := (h.calls i).1
  have hplain : electing (s.call i).pc = none →
      (s.call i).session.cleared = [] ∧ (s.call i).session.elected = [] := h.untouched
  have hnever : ∀ {P : Prop}, mayElect (s.call i).pc = false → mayElect (s.call i).pc = true → P :=
    fun hf ht => absurd (hf.symm.trans ht) Bool.false_ne_true
  cases hs with
  | contract hpc =>
    refine h.move hbase rfl hpc ⟨rfl, rfl⟩ ⟨rfl, rfl, rfl⟩ ?_
    cases (c.request i).benchmark <;> rfl
  | begin hpc => exact h.reset hbase rfl hpc rfl ⟨rfl, rfl, rfl⟩ rfl
  | lock hpc hfree =>
    exact h.move hbase rfl hpc ⟨rfl, rfl⟩ ⟨rfl, rfl, rfl⟩ rfl
  | foundEndpoint hpc e hfind =>
    exact h.move hbase rfl hpc ⟨rfl, rfl⟩ ⟨rfl, rfl, rfl⟩ rfl
  | noEndpoint hpc hfind =>
    exact h.move hbase rfl hpc ⟨rfl, rfl⟩ ⟨rfl, rfl, rfl⟩ rfl
  | endpointConflict hpc e he hkey =>
    exact h.reset hbase rfl hpc rfl ⟨rfl, rfl, rfl⟩ rfl
  | insertEndpoint hpc hfree =>
    exact h.move hbase rfl hpc ⟨rfl, rfl⟩ ⟨rfl, rfl, rfl⟩ rfl
  | foundSnapshot e hpc r hfind =>
    exact h.move hbase rfl hpc ⟨rfl, rfl⟩ ⟨rfl, rfl, rfl⟩ rfl
  | noSnapshot e hpc hfind =>
    exact h.move hbase rfl hpc ⟨rfl, rfl⟩ ⟨rfl, rfl, rfl⟩ rfl
  | snapshotConflict e hpc r hr he hf =>
    exact h.reset hbase rfl hpc rfl ⟨rfl, rfl, rfl⟩ rfl
  | insertSnapshot e hpc =>
    obtain ⟨hc, he⟩ := hplain (by rw [hpc]; rfl)
    refine h.plain hbase rfl (fun r hr => ?_) hc he rfl (hnever (by rw [hpc]; rfl))
    rw [← Option.some.inj hr]
  | commitSnapshot e inserted hpc =>
    obtain ⟨hc, he⟩ := hplain (by rw [hpc]; rfl)
    refine h.commitRows hbase hc he rfl rfl (hnever (by rw [hpc]; rfl)) fun r hr => ?_
    simp only [hpc] at hl
    cases inserted with
    | true =>
      obtain ⟨-, -, -, r', hr', rfl, hf⟩ := hl
      obtain rfl := Option.some.inj (hr.symm.trans hr')
      exact ⟨hf.symm, rfl, rfl⟩
    | false =>
      rw [hl.2.2.1] at hr
      cases hr
  | compare e inserted hpc r diffs hfind hne hdiffs =>
    simp only [hpc] at hl
    obtain ⟨hc, he⟩ := hplain (by rw [hpc]; rfl)
    refine h.plain hbase rfl hinactive hc he rfl fun _ e' he' => .inl ?_
    obtain rfl := registered_endpoint hl.1 he'
    exact ⟨r, h.found hpc hfind⟩
  | sameBaseline e inserted hpc r hfind heq =>
    simp only [hpc] at hl
    refine h.plain hbase rfl nofun rfl rfl rfl fun _ e' he' => .inl ?_
    obtain rfl := registered_endpoint hl.1 he'
    exact ⟨r, h.found hpc hfind⟩
  | noBaseline e hpc hfind =>
    obtain ⟨hc, he⟩ := hplain (by rw [hpc]; rfl)
    exact h.plain hbase rfl hinactive hc he rfl fun _ e' he' => .inr ⟨he', rfl⟩
  | noBaselineKnown e hpc hfind =>
    exact h.reset hbase rfl hpc rfl ⟨rfl, rfl, rfl⟩ rfl
  | clearBaselines e hpc ids hids => exact h.clear hpc hids hbase
  | setBaseline e hpc ids hids => exact h.elect hpc hids hbase
  | commitBaseline e hpc => exact h.commitElection hpc hbase rfl rfl
  | logged e inserted diffs hpc =>
    exact h.move hbase rfl hpc ⟨rfl, rfl⟩ ⟨rfl, rfl, rfl⟩ rfl
  | skipItem e inserted diffs item todo hpc hseverity =>
    exact h.move hbase rfl hpc ⟨rfl, rfl⟩ ⟨rfl, rfl, rfl⟩ rfl
  | logItem e inserted diffs item todo hpc severity hseverity =>
    exact h.move hbase rfl hpc ⟨rfl, rfl⟩ ⟨rfl, rfl, rfl⟩ rfl
  | commitViolations e inserted diffs hpc =>
    obtain ⟨hc, he⟩ := hplain (by rw [hpc]; rfl)
    simp only [hpc] at hl
    refine h.commitRows hbase hc he rfl rfl (hnever (by rw [hpc]; rfl)) fun r hr => ?_
    rw [hl.2.snapshot] at hr
    cases hr

theorem electionInv_step {a : Action ι} (h : ElectionInv c s) (hs : step c s a = some s') :
    ElectionInv c s' := by
  cases a with
  | advance i =>
    obtain ⟨db, w, hchange, rfl⟩ := change_of_advance hs
    exact electionInv_change h hchange
  | fail i =>
    have hbase := inv_step h.base hs
    rw [step] at hs
    split at hs
    · cases hs
      exact h.plain hbase rfl (fun _ heq => by cases heq) rfl rfl rfl fun _ e he => .inr ⟨he, rfl⟩
    · cases hs
  | tick =>
    have hbase := inv_step h.base hs
    cases hs
    exact ⟨hbase, h.calls, h.electors, h.active, h.pending⟩

theorem reachable_electionInv {ok : State ι → Action ι → Prop} (h : Reachable (step c) ok init s) :
    ElectionInv c s :=
  h.invariant (electionInv_init c) fun _ _ _ hi _ hs => electionInv_step hi hs

end Invariant

theorem countP_le_one {α : Type} {p : α → Bool} {xs : List α} (hnodup : xs.Nodup)
    (h : ∀ x ∈ xs, ∀ y ∈ xs, p x = true → p y = true → x = y) : xs.countP p ≤ 1 := by
  by_contra hlt
  obtain ⟨x, y, rest, hxs⟩ : ∃ x y rest, xs.filter p = x :: y :: rest := by
    rw [List.countP_eq_length_filter] at hlt
    match hf : xs.filter p with
    | [] | [_] => simp [hf] at hlt
    | x :: y :: rest => exact ⟨x, y, rest, rfl⟩
  have hne := (List.nodup_cons.mp (hxs ▸ hnodup.filter p)).1
  obtain ⟨hx, hpx⟩ := List.mem_filter.mp (hxs ▸ List.mem_cons_self)
  obtain ⟨hy, hpy⟩ := List.mem_filter.mp (hxs ▸ List.mem_cons_of_mem x List.mem_cons_self)
  exact hne (h x hx y hy hpx hpy ▸ List.mem_cons_self)

variable [Fintype ι] [DecidableEq ι]

/-- No endpoint ever has two active baselines, and once every request has finished, each
endpoint that has a snapshot has one. -/
theorem one_active_baseline (c : Config ι) (s : State ι) (h : Reachable (step c) always init s) :
    (∀ e, s.db.snapshots.countP (fun r => r.endpointId = e ∧ r.isActiveBaseline) ≤ 1) ∧
      ((∀ i, ∃ result, (s.call i).pc = .finished result) →
        ∀ ep ∈ s.db.endpoints, (∃ r ∈ s.db.snapshots, r.endpointId = ep.id) →
          s.db.snapshots.countP (fun r => r.endpointId = ep.id ∧ r.isActiveBaseline) = 1) := by
  have hinv := reachable_electionInv h
  have hle : ∀ e, s.db.snapshots.countP (fun r => r.endpointId = e ∧ r.isActiveBaseline) ≤ 1 := by
    intro e
    apply countP_le_one (List.Nodup.of_map _ hinv.base.snapshotIds.ids)
    intro r hr r' hr' hp hp'
    obtain ⟨he, ha⟩ := of_decide_eq_true hp
    obtain ⟨he', ha'⟩ := of_decide_eq_true hp'
    exact hinv.active r hr r' hr' (he.trans he'.symm) ha ha'
  refine ⟨hle, fun hfinished ep _ ⟨r, hr, he⟩ => le_antisymm (hle ep.id) ?_⟩
  rw [Nat.succ_le_iff, List.countP_pos_iff]
  obtain ⟨r', hr', hend, ha⟩ | ⟨i, -, -, hmay⟩ := hinv.pending r hr
  · exact ⟨r', hr', decide_eq_true ⟨hend.trans he, ha⟩⟩
  · obtain ⟨result, hpc⟩ := hfinished i
    rw [hpc] at hmay
    cases hmay

/-- Two first submissions of different payloads; the second to read finds the baseline. -/
theorem one_active_baseline_two_requests :
    let c := sampleConfig (fun i : Fin 2 => if i = 0 then intSubmission else floatSubmission)
    ∃ s, Reachable (step c) always init s ∧ (∀ i, ∃ result, (s.call i).pc = .finished result) ∧
      s.db.snapshots.countP (fun r => r.endpointId = 0 ∧ r.isActiveBaseline) = 1 := by
  intro c
  let acts := List.replicate 8 (Action.advance (0 : Fin 2)) ++ List.replicate 7 (Action.advance 1) ++
    List.replicate 4 (Action.advance 0) ++ List.replicate 4 (Action.advance 1)
  have hrun : (run (step c) always init acts).map (fun s => ((s.call 0).pc, (s.call 1).pc,
      s.db.endpoints, s.db.snapshots.map SchemaSnapshot.endpointId)) = some
        (.finished (some ⟨0, true, 0, 0, 0, 0⟩), .finished (some ⟨0, true, 0, 1, 0, 1⟩),
          [⟨0, (c.request 0).key⟩], [0, 0]) := by decide +kernel
  obtain ⟨s, hs, hpcs⟩ := Option.map_eq_some_iff.mp hrun
  obtain ⟨hpc, hrest⟩ := Prod.mk.inj hpcs
  obtain ⟨hpc', hrest⟩ := Prod.mk.inj hrest
  obtain ⟨hendpoints, hsnapshots⟩ := Prod.mk.inj hrest
  have hreach : Reachable (step c) always init s := reachable_run (step c) always .start hs
  have hfinished : ∀ i, ∃ result, (s.call i).pc = .finished result :=
    Fin.forall_fin_two.mpr ⟨⟨_, hpc⟩, ⟨_, hpc'⟩⟩
  refine ⟨s, hreach, hfinished, (one_active_baseline c s hreach).2 hfinished ⟨0, (c.request 0).key⟩ ?_ ?_⟩
  · rw [hendpoints]
    exact List.mem_cons_self
  · obtain ⟨r, hr, he⟩ := List.mem_map.mp (show 0 ∈ s.db.snapshots.map SchemaSnapshot.endpointId by
      rw [hsnapshots]
      exact List.mem_cons_self)
    exact ⟨r, hr, he⟩

end SchemaPilot.BaselineElection
