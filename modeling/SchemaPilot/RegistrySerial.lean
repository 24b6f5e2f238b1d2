import SchemaPilot.RegistryRows

namespace SchemaPilot.RegistrySerial

open Keyed Classifier Registry Track Runs RegistryTxn RegistryHistory UpsertHistory FirstLog RegistryRows

variable {ι : Type}

section Serial

/-- The calls that a step commits. -/
def commits (s : State ι) : Action ι → List ι
  | .advance i =>
    match (s.txn i).pc with
    | .done _ _ => [i]
    | _ => []
  | .abort _ => []

def submission (c : Config ι) (i : ι) : Submission :=
  ⟨(c.request i).key, (c.request i).fingerprint, (c.request i).canonicalSchema, (c.request i).classification⟩

/-- The calls, one after the other. -/
def serially (c : Config ι) (order : List ι) :
    Db := runSubmissions c.jsonb (order.map (submission c))

/-- What a call tells its caller about the version. -/
def answer (r : Except PyError (Db × Endpoint × SchemaVersionRecord × Bool)) :
    Except PyError (Nat × Bool) :=
  r.map fun a => (a.2.2.1.version, a.2.2.2)

variable {c : Config ι} {s s' : State ι} {i : ι} {order : List ι} {record r : SchemaVersionRecord}

theorem answer_of_log {db db' : Db} (h : Registered db) (h' : Registered db') {sub : Submission}
    (hlog : logOf db sub.key = logOf db' sub.key) :
    answer (upsert c.jsonb db sub) = answer (upsert c.jsonb db' sub) := by
  have hview : ∀ (db : Db) (r : Except PyError (Db × Endpoint × SchemaVersionRecord × Bool)),
      answer r = (resultView sub.key r).map fun a => (a.2.1.version, a.2.2) := by
    rintro - (_ | _) <;> rfl
  rw [hview db, hview db, resultView_upsert c.jsonb h, resultView_upsert c.jsonb h', hlog]

theorem answer_found (h : Registered s.db) (hfound : Found s.db (c.request i) (s.txn i) record) :
    answer (upsert c.jsonb s.db (submission c i)) = .ok (record.version, false) := by
  obtain ⟨r, hr, hfp, hversion⟩ := hfound.known
  have hup := upserted c.jsonb h.tidy (submission c i)
  have hsome : knownRow s.db (submission c i).key (submission c i).fingerprint = some r := by
    obtain ⟨r', hr'⟩ : ∃ r', knownRow s.db (submission c i).key (submission c i).fingerprint = some r' := by
      rw [← Option.isSome_iff_exists, knownRow, List.find?_isSome]
      exact ⟨r, hr, decide_eq_true hfp⟩
    obtain ⟨hm, hfp'⟩ := knownRow_eq_some hr'
    rw [hr', List.inj_on_of_nodup_map (history_rowsOf h.tidy _).fingerprints hm hr (hfp'.trans hfp.symm)]
  generalize upsert c.jsonb s.db (submission c i) = result at hup
  cases hup with
  | known hf hrow =>
    obtain rfl := Option.some.inj (hsome.symm.trans hrow)
    rw [← hversion]
    rfl
  | refused hrow | added _ _ hrow => cases hsome.symm.trans hrow

/-- No committed row has the fingerprint of an uncommitted one. -/
theorem unknown_of_inserted (h : Rooted c s) (hinv : Inv s)
    (hins : Inserted c s.db i (s.txn i) record r) :
    knownRow s.db (submission c i).key (submission c i).fingerprint = none := by
  obtain ⟨e, huses, hid⟩ := hins.uses
  rw [knownRow, List.find?_eq_none]
  intro v hv hfp
  have hself : rowsOf s.db (c.request i).key = versionsOf s.db.versions e.id :=
    rowsOf_of_uses h.registered h.keys huses (h.endpoint i)
  change v ∈ rowsOf s.db (c.request i).key at hv
  obtain ⟨hm, hep⟩ := mem_versionsOf.mp (hself ▸ hv)
  have hfree := hinv.free i r hins.row v hm
  have hsame : r.fingerprint = v.fingerprint := hins.fingerprint.trans (of_decide_eq_true hfp).symm
  rw [conflicts_iff.mpr ⟨hid.symm.trans hep.symm, .inr hsame⟩] at hfree
  cases hfree

theorem answer_inserted (h : Rooted c s) (hinv : Inv s) (hpc : (s.txn i).pc = .done record true)
    (hins : Inserted c s.db i (s.txn i) record r) :
    answer (upsert c.jsonb s.db (submission c i)) = .ok (record.version, true) := by
  obtain ⟨current, hw⟩ := wrote_of_inserted hinv hpc hins
  obtain ⟨e, huses, hid⟩ := hins.uses
  have hself : rowsOf s.db (c.request i).key = versionsOf s.db.versions r.endpointId :=
    hid ▸ rowsOf_of_uses h.registered h.keys huses (h.endpoint i)
  have hnext := (hw.next hinv.history (hinv.free_version hw.row)).1
  have hlen : (logOf s.db (submission c i).key).length + 1 = record.version := by
    rw [logOf, List.length_map, ← hins.version, hnext, ← hself]
    rfl
  have hnone := find?_viewsOf h.registered (submission c i).key (submission c i).fingerprint
  rw [unknown_of_inserted h hinv hins, Option.map_none] at hnone
  have hresult := resultView_upsert c.jsonb h.registered (submission c i)
  rw [outcome, hnone, show c.jsonb (submission c i).canonicalSchema = some r.canonicalSchema from hins.stored,
    hlen] at hresult
  have hview : ∀ r : Except PyError (Db × Endpoint × SchemaVersionRecord × Bool),
      answer r = (resultView (submission c i).key r).map fun a => (a.2.1.version, a.2.2) := by
    rintro (_ | _) <;> rfl
  rw [hview, hresult]
  rfl

theorem logOf_found (hfound : Found s.db (c.request i) (s.txn i) record) :
    logOf s.db = putEntry c.jsonb (logOf s.db) (submission c i) := by
  obtain ⟨r, hr, hfp, -⟩ := hfound.known
  have hmem : (c.request i).fingerprint ∈ keys (logOf s.db (c.request i).key) := by
    rw [keys, logOf, List.map_map]
    exact List.mem_map.mpr ⟨r, hr, hfp⟩
  rw [putEntry, entryOf]
  cases hs : c.jsonb (submission c i).canonicalSchema with
  | none => rfl
  | some stored => exact (put_of_mem hmem).symm

theorem logOf_inserted (h : Rooted c s) (hinv : Inv s) (hpc : (s.txn i).pc = .done record true)
    (hins : Inserted c s.db i (s.txn i) record r) :
    logOf (commit s.db (s.txn i)) = putEntry c.jsonb (logOf s.db) (submission c i) := by
  have hnot := (knownRow_eq_none_iff s.db _ _).mp (unknown_of_inserted h hinv hins)
  have hentry : entry r = ((c.request i).fingerprint, r.canonicalSchema, (c.request i).classification) := by
    rw [entry, hins.fingerprint, hins.classification]
  rw [putEntry, entryOf, show c.jsonb (submission c i).canonicalSchema = some r.canonicalSchema from hins.stored,
    Option.map_some]
  refine Eq.trans ?_ (put_of_not_mem hnot).symm
  funext k
  rw [logOf, rowsOf_commit h hinv hpc hins]
  by_cases hk : k = (c.request i).key
  · subst hk
    rw [if_pos rfl, List.map_append, List.map_map, List.map_singleton, hentry]
    exact (Function.update_self (submission c i).key _ (logOf s.db)).symm
  · rw [if_neg hk]
    exact (Function.update_of_ne (show k ≠ (submission c i).key from hk) _ (logOf s.db)).symm

/-- The committed registry is that of the committed calls in the order of their commits. -/
structure Serial (c : Config ι) (s : State ι) (order : List ι) : Prop where
  inv : Inv s
  rooted : Rooted c s
  log : logOf s.db = logOf (serially c order)
  nodup : order.Nodup
  committed : ∀ i, i ∈ order ↔ ∃ record b, (s.txn i).pc = .committed record b
  answers : ∀ pre i post, order = pre ++ i :: post → ∃ record b, (s.txn i).pc = .committed record b ∧
    answer (upsert c.jsonb (serially c pre) (submission c i)) = .ok (record.version, b)

theorem serial_init (c : Config ι) : Serial c init [] := by
  refine ⟨inv_init, rooted_init c, rfl, List.nodup_nil, fun i => ⟨nofun, ?_⟩, ?_⟩
  · rintro ⟨record, b, hpc⟩
    cases hpc
  · intro pre i post heq
    cases (List.append_eq_nil_iff.mp heq.symm).2

variable [DecidableEq ι]

/-- A step that commits nothing leaves the order as it is. -/
theorem Serial.keep (h : Serial c s order) {n : Nat} {t : Txn}
    (hinv : RegistryHistory.Inv ({ s with db := { s.db with nextId := n } }.set i t))
    (hrooted : Rooted c ({ s with db := { s.db with nextId := n } }.set i t))
    (hold : ∀ record b, (s.txn i).pc ≠ .committed record b)
    (hnew : ∀ record b, t.pc ≠ .committed record b) :
    Serial c ({ s with db := { s.db with nextId := n } }.set i t) order := by
  have htxn : ∀ j record b, (({ s with db := { s.db with nextId := n } }.set i t).txn j).pc = .committed record b ↔
      (s.txn j).pc = .committed record b := by
    intro j record b
    have heq : ({ s with db := { s.db with nextId := n } }.set i t).txn j = if j = i then t else s.txn j :=
      Function.update_apply s.txn i t j
    rw [heq]
    split
    · next hj =>
      subst hj
      exact ⟨fun hpc => absurd hpc (hnew record b), fun hpc => absurd hpc (hold record b)⟩
    · exact Iff.rfl
  refine ⟨hinv, hrooted, h.log, h.nodup, fun j => ?_, fun pre j post heq => ?_⟩
  · simp only [htxn]
    exact h.committed j
  · simp only [htxn]
    exact h.answers pre j post heq

/-- A commit comes last in the order. -/
theorem Serial.concat (h : Serial c s order) {db : Db} {b : Bool}
    (hpc : (s.txn i).pc = .done record b)
    (hinv : RegistryHistory.Inv ({ s with db }.set i (.finish (.committed record b))))
    (hrooted : Rooted c ({ s with db }.set i (.finish (.committed record b))))
    (hlog : logOf db = putEntry c.jsonb (logOf s.db) (submission c i))
    (hanswer : answer (upsert c.jsonb s.db (submission c i)) = .ok (record.version, b)) :
    Serial c ({ s with db }.set i (.finish (.committed record b))) (order ++ [i]) := by
  have htxn : ∀ j, ({ s with db }.set i (.finish (.committed record b))).txn j =
      if j = i then .finish (.committed record b) else s.txn j := fun j => Function.update_apply s.txn i _ j
  have hnot : i ∉ order := by
    intro hm
    obtain ⟨record', b', hpc'⟩ := (h.committed i).mp hm
    cases hpc.symm.trans hpc'
  have hserial := registered_runSubmissions c.jsonb (order.map (submission c))
  refine ⟨hinv, hrooted, ?_, ?_, fun j => ?_, fun pre j post heq => ?_⟩
  · have hstep := logOf_submit c.jsonb hserial.tidy (submission c i)
    rw [serially, List.map_append, List.map_singleton, runSubmissions, List.foldl_concat]
    exact hlog.trans ((congrArg (putEntry c.jsonb · (submission c i)) h.log).trans hstep.symm)
  · exact List.nodup_append.mpr ⟨h.nodup, List.nodup_singleton _, fun a ha b hb hab =>
      hnot (List.mem_singleton.mp hb ▸ hab ▸ ha)⟩
  · rw [htxn, List.mem_append, List.mem_singleton]
    by_cases hj : j = i
    · rw [if_pos hj]
      exact ⟨fun _ => ⟨record, b, rfl⟩, fun _ => .inr hj⟩
    · rw [if_neg hj, ← h.committed j]
      exact or_iff_left hj
  · obtain ⟨hpost, rfl, rfl⟩ | ⟨post', rfl, hold⟩ : (post = [] ∧ pre = order ∧ j = i) ∨
        ∃ post', post = post' ++ [i] ∧ order = pre ++ j :: post' := by
      obtain rfl | ⟨post', last, rfl⟩ := List.eq_nil_or_concat' post
      · obtain ⟨hpre, hj⟩ := List.append_inj' heq rfl
        exact .inl ⟨rfl, hpre.symm, (List.singleton_inj.mp hj).symm⟩
      · rw [← List.cons_append, ← List.append_assoc] at heq
        obtain ⟨hpre, hlast⟩ := List.append_inj' heq rfl
        exact .inr ⟨post', by rw [List.singleton_inj.mp hlast], hpre⟩
    · refine ⟨record, b, by rw [htxn, if_pos rfl]; rfl, ?_⟩
      rw [← hanswer]
      exact (answer_of_log h.rooted.registered hserial (congrFun h.log _)).symm
    · obtain ⟨record', b', hpc', hanswer'⟩ := h.answers pre j post' hold
      have hj : j ≠ i := by
        rintro rfl
        cases hpc.symm.trans hpc'
      exact ⟨record', b', by rw [htxn, if_neg hj]; exact hpc', hanswer'⟩

variable [Fintype ι]

/-- What a statement other than the commit does to the state. -/
theorem advance_quiet (hdone : ∀ record b, (s.txn i).pc ≠ .done record b)
    (hs : advance c s i = some s') :
    ∃ n t, s' = { s with db := { s.db with nextId := n } }.set i t ∧ (∀ record b, t.pc ≠ .committed record b) ∧
      ∀ record b, (s.txn i).pc ≠ .committed record b := by
  have hgoto : ∀ pc, (∀ record b, pc ≠ .committed record b) → (∀ record b, (s.txn i).pc ≠ .committed record b) →
      ∃ n t, s.goto i pc = { s with db := { s.db with nextId := n } }.set i t ∧
        (∀ record b, t.pc ≠ .committed record b) ∧ ∀ record b, (s.txn i).pc ≠ .committed record b :=
    fun pc hpc hold => ⟨s.db.nextId, { s.txn i with pc }, rfl, hpc, hold⟩
  have habort : ∀ u, (∀ record b, (s.txn i).pc ≠ .committed record b) →
      ∃ n t, s.set i (.finish (.aborted u)) = { s with db := { s.db with nextId := n } }.set i t ∧
        (∀ record b, t.pc ≠ .committed record b) ∧ ∀ record b, (s.txn i).pc ≠ .committed record b :=
    fun u hold => ⟨s.db.nextId, .finish (.aborted u), rfl, by simp [Txn.finish], hold⟩
  rw [advance] at hs
  cases hpc : (s.txn i).pc with
  | selectEndpoint =>
    simp only [hpc] at hs hgoto
    split at hs <;> cases hs <;> exact hgoto _ (by simp) (by simp)
  | insertEndpoint =>
    simp only [hpc, insertEndpoint] at hs hgoto
    split_ifs at hs <;> cases hs
    · exact hgoto _ (by simp) (by simp)
    · exact ⟨_, _, rfl, by simp, by simp⟩
  | reselectEndpoint =>
    simp only [hpc] at hs hgoto habort
    split at hs <;> cases hs
    · exact hgoto _ (by simp) (by simp)
    · exact habort _ (by simp)
  | selectFingerprint e =>
    simp only [hpc] at hs hgoto
    split at hs <;> cases hs <;> exact hgoto _ (by simp) (by simp)
  | lock e =>
    simp only [hpc] at hs
    split at hs <;> cases hs
    exact ⟨s.db.nextId, _, rfl, by simp, by simp⟩
  | selectCurrent e | clear e current =>
    simp only [hpc] at hs hgoto
    cases hs
    exact hgoto _ (by simp) (by simp)
  | recheck e current =>
    simp only [hpc] at hs hgoto
    split at hs
    · cases hs
      exact hgoto _ (by simp) (by simp)
    · cases current <;> cases hs <;> exact hgoto _ (by simp) (by simp)
  | clearing e current todo =>
    simp only [hpc] at hs hgoto
    cases todo with
    | nil =>
      cases hs
      exact hgoto _ (by simp) (by simp)
    | cons v todo =>
      dsimp only at hs
      split at hs <;> cases hs
      exact ⟨s.db.nextId, _, rfl, by simp, by simp⟩
  | insert e current =>
    simp only [hpc, insertRow] at hs habort
    split at hs
    · cases hs
      exact habort _ (by simp)
    · split_ifs at hs <;> cases hs
      · exact habort _ (by simp)
      · exact ⟨_, _, rfl, by simp, by simp⟩
  | done record inserted => exact absurd hpc (hdone record inserted)
  | committed record inserted | aborted u =>
    simp only [hpc] at hs
    cases hs

theorem Serial.commit (h : Serial c s order) {b : Bool} (hpc : (s.txn i).pc = .done record b)
    (hs : advance c s i = some s') : Serial c s' (order ++ [i]) := by
  have hinv := inv_advance h.inv hs
  have hok := h.rooted.pc i
  rw [PcOk, hpc] at hok
  simp only [advance, hpc] at hs
  cases hs
  cases b with
  | true =>
    obtain ⟨r, hins⟩ := hok
    exact h.concat hpc hinv (h.rooted.commitInserted h.inv hpc hins) (logOf_inserted h.rooted h.inv hpc hins)
      (answer_inserted h.rooted h.inv hpc hins)
  | false =>
    refine h.concat hpc hinv (h.rooted.commitFound hok) ?_ (answer_found h.rooted.registered hok)
    rw [commit_found hok]
    exact logOf_found hok

theorem serial_step {a : Action ι} (h : Serial c s order) (hs : step c s a = some s') :
    Serial c s' (order ++ commits s a) := by
  cases a with
  | abort i =>
    simp only [step] at hs
    split at hs
    · next hactive =>
      cases hs
      rw [commits, List.append_nil]
      have hold : ∀ record b, (s.txn i).pc ≠ .committed record b := by
        intro record b hpc
        rw [hpc] at hactive
        cases hactive
      exact h.keep (n := s.db.nextId) (h.inv.finish i false) (h.rooted.abort i false) hold (by simp [Txn.finish])
    · cases hs
  | advance i =>
    by_cases hdone : ∃ record b, (s.txn i).pc = .done record b
    · obtain ⟨record, b, hpc⟩ := hdone
      rw [show commits s (.advance i) = [i] by simp only [commits, hpc]]
      exact h.commit hpc hs
    · have hdone : ∀ record b, (s.txn i).pc ≠ .done record b := fun record b hpc => hdone ⟨record, b, hpc⟩
      have hnone : commits s (.advance i) = [] := by
        rw [commits]
        split
        · next record b hpc => exact absurd hpc (hdone record b)
        · rfl
      have hinv := inv_advance h.inv hs
      have hrooted := h.rooted.advance h.inv hdone hs
      obtain ⟨n, t, rfl, hnew, hold⟩ := advance_quiet hdone hs
      rw [hnone, List.append_nil]
      exact h.keep hinv hrooted hold hnew

/-- Whatever the interleaving, the aborts and the lock ids of the processes: what is committed is,
up to the generated ids, what the committed calls give when they run one after the other in the
order of their commits, and each of them is answered as it is there. -/
theorem serial_in_commit_order (c : Config ι) (s : State ι) (order : List ι)
    (h : Reachable (traced (step c) commits) always (init, []) (s, order)) :
    (∀ key, view s.db key = view (serially c order) key) ∧ order.Nodup ∧
      (∀ i, i ∈ order ↔ ∃ record b, (s.txn i).pc = .committed record b) ∧
      ∀ pre i post, order = pre ++ i :: post → ∃ record b, (s.txn i).pc = .committed record b ∧
        answer (upsert c.jsonb (serially c pre) (submission c i)) = .ok (record.version, b) := by
  have hserial : Serial c s order := by
    apply h.invariant (I := fun p : State ι × List ι => Serial c p.1 p.2)
    · exact serial_init c
    · rintro ⟨s, order⟩ a p hp - hs
      obtain ⟨s', hs', rfl⟩ := Option.map_eq_some_iff.mp hs
      exact serial_step hp hs'
  refine ⟨fun key => ?_, hserial.nodup, hserial.committed, hserial.answers⟩
  rw [view_eq hserial.rooted.registered, hserial.log]
  exact (view_eq (registered_runSubmissions c.jsonb (order.map (submission c))) key).symm

/-- The call that comes first commits last. -/
theorem serial_in_commit_order_overtaken :
    let key : EndpointKey := ⟨"n", "svc", "POST", "/orders"⟩
    let c : Config (Fin 2) := {
      request := fun i =>
        { key, fingerprint := if i = 0 then "a" else "b", canonicalSchema := .obj [],
          classification := .SAFE }
      hash := fun i _ => if i = 0 then 7 else -12
      jsonb := some }
    ∃ s, Reachable (traced (step c) commits) always (init, []) (s, [1, 0]) ∧
      (rowsOf s.db key).map SchemaVersionRecord.fingerprint = ["b", "a"] ∧
      view s.db key = view (serially c [1, 0]) key := by
  intro key c
  have hrun : (run (traced (step c) commits) always (init, [])
      (Action.advance 0 :: List.replicate 9 (.advance 1) ++ List.replicate 11 (.advance 0))).map
        (fun p => (p.2, (rowsOf p.1.db key).map SchemaVersionRecord.fingerprint)) = some ([1, 0], ["b", "a"]) := by
    decide +kernel
  obtain ⟨⟨s, order⟩, hs, hrest⟩ := Option.map_eq_some_iff.mp hrun
  obtain ⟨rfl, hrows⟩ := Prod.mk.inj hrest
  have hreach := reachable_run (traced (step c) commits) always .start hs
  exact ⟨s, hreach, hrows, (serial_in_commit_order c s [1, 0] hreach).1 key⟩

end Serial

end SchemaPilot.RegistrySerial
