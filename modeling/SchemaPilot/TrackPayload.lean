import SchemaPilot.Digest
import SchemaPilot.Engine
import SchemaPilot.StructuralType
import SchemaPilot.Runs
import Mathlib.Data.Fintype.Basic
import Mathlib.Data.List.Sort
import Mathlib.Logic.Function.Basic

namespace SchemaPilot.TrackPayload

open Digest Engine StructuralType Runs

structure RouteKey where
  serviceName : String
  httpMethod : String
  routePath : String
  deriving DecidableEq

structure ApiEndpoint where
  id : Nat
  key : RouteKey
  deriving DecidableEq

structure SchemaSnapshot where
  id : Nat
  endpointId : Nat
  fingerprint : String
  normalizedSchema : Schema
  isActiveBaseline : Bool
  createdAt : Nat
  deriving DecidableEq

structure Violation where
  endpointId : Nat
  observedFingerprint : String
  severity : ChangeSeverity
  path : String
  old : Option String
  new : Option String
  deriving DecidableEq

structure Tables where
  endpoints : List ApiEndpoint
  snapshots : List SchemaSnapshot
  violations : List Violation
  nextId : Nat

def Tables.empty : Tables := ⟨[], [], [], 0⟩

structure PayloadSubmission where
  namespace_ : String
  serviceName : String
  httpMethod : String
  routePath : String
  payload : Payload

/-- What the legacy part of a request works with. The normalized payload is a dict. -/
structure Request where
  benchmark : Bool
  key : RouteKey
  fingerprint : String
  normalizedSchema : List (String × Schema)

/-- The request of a submission, with the digest and with Python's case mappings. -/
def PayloadSubmission.request (sha256 : ByteArray → String) (lower upper : String → String)
    (submission : PayloadSubmission) : Request where
  benchmark := "k6".toList.isPrefixOf (lower submission.namespace_).toList
  key := ⟨submission.serviceName, upper submission.httpMethod, submission.routePath⟩
  fingerprint := fingerprintSchema sha256 submission.payload
  normalizedSchema := Keyed.sortByKey (normalizeFields submission.payload.fields)

def hexDigit (ch : Char) : Nat := if ch.isDigit then ch.toNat - '0'.toNat else ch.toNat - 'a'.toNat + 10

/-- `int(digest[:15], 16)` -/
def routeLockId (sha256 : ByteArray → String) (routePath : String) : Nat :=
  ((sha256 routePath.toUTF8).toList.take 15).foldl (fun n ch => 16 * n + hexDigit ch) 0

/-- What the request answers, without what `track_contract` adds. -/
structure TrackResult where
  legacyEndpointId : Nat
  inserted : Bool
  safe : Nat
  risky : Nat
  breaking : Nat
  legacyDiffCount : Nat
  deriving DecidableEq

def trackResult (endpointId : Nat) (inserted : Bool) (legacyDiffs : List DriftItem) : TrackResult where
  legacyEndpointId := endpointId
  inserted := inserted
  safe := legacyDiffs.countP (fun d => d.severity = some .SAFE)
  risky := legacyDiffs.countP (fun d => d.severity = some .RISKY)
  breaking := legacyDiffs.countP (fun d => d.severity = some .BREAKING)
  legacyDiffCount := legacyDiffs.countP (fun d => d.severity ≠ none)

/-- Where a request stands: the statement it executes next. -/
inductive Pc where
  | contract
  | begin
  | lock
  | selectEndpoint
  | insertEndpoint
  | selectSnapshot (endpointId : Nat)
  | insertSnapshot (endpointId : Nat)
  | commitSnapshot (endpointId : Nat) (inserted : Bool)
  | selectBaseline (endpointId : Nat) (inserted : Bool)
  | clearBaselines (endpointId : Nat)
  | setBaseline (endpointId : Nat)
  | commitBaseline (endpointId : Nat)
  | logViolations (endpointId : Nat) (inserted : Bool) (legacyDiffs todo : List DriftItem)
  | commitViolations (endpointId : Nat) (inserted : Bool) (legacyDiffs : List DriftItem)
  | finished (result : Option TrackResult)
  | failed (uniqueViolation : Bool)
  deriving DecidableEq

/-- The open transaction of a request: its uncommitted rows, and the snapshots that it has
updated, which it keeps locked. -/
structure Session where
  startedAt : Nat := 0
  holdsLock : Bool := false
  endpoint : Option ApiEndpoint := none
  snapshot : Option SchemaSnapshot := none
  cleared : List Nat := []
  elected : List Nat := []
  violations : List Violation := []

def Session.closed : Session := {}

def Session.locks (t : Session) : List Nat := t.cleared ++ t.elected

def Session.update (t : Session) (r : SchemaSnapshot) : SchemaSnapshot :=
  if r.id ∈ t.elected then { r with isActiveBaseline := true }
  else if r.id ∈ t.cleared then { r with isActiveBaseline := false }
  else r

/-- The committed tables with the writes of a transaction. -/
def commit (db : Tables) (t : Session) : Tables where
  endpoints := db.endpoints ++ t.endpoint.toList
  snapshots := db.snapshots.map t.update ++ t.snapshot.toList
  violations := db.violations ++ t.violations
  nextId := db.nextId

/-- A request in progress, with what `register_payload_snapshot` has returned to it and the
fingerprint of the baseline it goes by. -/
structure Call where
  pc : Pc
  session : Session := .closed
  registered : Option (Nat × Bool) := none
  baselineFingerprint : Option String := none

def Call.finish (w : Call) (pc : Pc) : Call := { w with pc, session := .closed }

variable {ι : Type} [Fintype ι] [DecidableEq ι]

structure Config (ι : Type) where
  request : ι → Request
  sha256 : ByteArray → String

structure State (ι : Type) where
  db : Tables
  clock : Nat
  call : ι → Call

def init : State ι := ⟨.empty, 0, fun _ => { pc := .contract }⟩

def State.set (s : State ι) (db : Tables) (i : ι) (w : Call) : State ι :=
  { s with db, call := Function.update s.call i w }

def lockId (c : Config ι) (i : ι) : Nat := routeLockId c.sha256 (c.request i).key.routePath

def findEndpoint (endpoints : List ApiEndpoint) (key : RouteKey) : Option ApiEndpoint :=
  endpoints.find? (fun e => e.key = key)

def findSnapshot (snapshots : List SchemaSnapshot) (endpointId : Nat) (fingerprint : String) :
    Option SchemaSnapshot :=
  snapshots.find? (fun r => r.endpointId = endpointId ∧ r.fingerprint = fingerprint)

def getActiveBaselineSnapshot (snapshots : List SchemaSnapshot) (endpointId : Nat) :
    Option SchemaSnapshot :=
  ((snapshots.filter (fun r => r.endpointId = endpointId ∧ r.isActiveBaseline)).insertionSort
    (fun r r' => r'.createdAt ≤ r.createdAt)).head?

/-- The INSERT of an endpoint: a committed row in its way is a UNIQUE violation, an
uncommitted one makes it wait. -/
def insertEndpoint (c : Config ι) (s : State ι) (i : ι) : Option (State ι) :=
  let key := (c.request i).key
  let w := s.call i
  if s.db.endpoints.any (fun e => e.key = key) then some (s.set s.db i (w.finish (.failed true)))
  else if ∃ j, j ≠ i ∧ (s.call j).session.endpoint.any (fun e => e.key = key) then none
  else
    some (s.set { s.db with nextId := s.db.nextId + 1 } i
      { w with
        pc := .selectSnapshot s.db.nextId
        session := { w.session with endpoint := some ⟨s.db.nextId, key⟩ } })

def insertSnapshot (c : Config ι) (s : State ι) (i : ι) (endpointId : Nat) : Option (State ι) :=
  let req := c.request i
  let w := s.call i
  let conflicts := fun r : SchemaSnapshot => decide (r.endpointId = endpointId ∧ r.fingerprint = req.fingerprint)
  if s.db.snapshots.any conflicts then some (s.set s.db i (w.finish (.failed true)))
  else if ∃ j, j ≠ i ∧ (s.call j).session.snapshot.any conflicts then none
  else
    let row : SchemaSnapshot :=
      ⟨s.db.nextId, endpointId, req.fingerprint, .obj req.normalizedSchema, false, w.session.startedAt⟩
    some (s.set { s.db with nextId := s.db.nextId + 1 } i
      { w with
        pc := .commitSnapshot endpointId true
        session := { w.session with snapshot := some row } })

/-- The snapshots that an UPDATE touches, unless another transaction has one of them locked. -/
def updateTargets (s : State ι) (i : ι) (p : SchemaSnapshot → Bool) : Option (List Nat) :=
  let ids := ((commit s.db (s.call i).session).snapshots.filter p).map SchemaSnapshot.id
  if ∃ j, j ≠ i ∧ ∃ id ∈ ids, id ∈ (s.call j).session.locks then none else some ids

/-- The next statement of a request; `none` while it waits. -/
def advance (c : Config ι) (s : State ι) (i : ι) : Option (State ι) :=
  let req := c.request i
  let w := s.call i
  let view := commit s.db w.session
  match w.pc with
  | .contract =>
    some (s.set s.db i { w with pc := if req.benchmark then .finished none else .begin })
  | .begin => some (s.set s.db i { w with pc := .lock, session := { startedAt := s.clock } })
  | .lock =>
    if ∃ j, j ≠ i ∧ (s.call j).session.holdsLock ∧ lockId c j = lockId c i then none
    else
      some (s.set s.db i
        { w with pc := .selectEndpoint, session := { w.session with holdsLock := true } })
  | .selectEndpoint =>
    match findEndpoint view.endpoints req.key with
    | some e => some (s.set s.db i { w with pc := .selectSnapshot e.id })
    | none => some (s.set s.db i { w with pc := .insertEndpoint })
  | .insertEndpoint => insertEndpoint c s i
  | .selectSnapshot e =>
    match findSnapshot view.snapshots e req.fingerprint with
    | some _ => some (s.set s.db i { w with pc := .commitSnapshot e false })
    | none => some (s.set s.db i { w with pc := .insertSnapshot e })
  | .insertSnapshot e => insertSnapshot c s i e
  | .commitSnapshot e inserted =>
    some (s.set view i
      { w with pc := .selectBaseline e inserted, session := .closed, registered := some (e, inserted) })
  | .selectBaseline e inserted =>
    match getActiveBaselineSnapshot view.snapshots e with
    | some r =>
      let w := { w with baselineFingerprint := some r.fingerprint }
      if r.fingerprint ≠ req.fingerprint then
        let legacyDiffs := classifyContractDrift
          (structuralDiff r.normalizedSchema (.obj req.normalizedSchema))
        some (s.set s.db i { w with pc := .logViolations e inserted legacyDiffs legacyDiffs })
      else some (s.set s.db i (w.finish (.finished (some (trackResult e inserted [])))))
    | none =>
      if inserted then some (s.set s.db i { w with pc := .clearBaselines e })
      else some (s.set s.db i (w.finish (.finished (some (trackResult e inserted [])))))
  | .clearBaselines e =>
    (updateTargets s i (fun r => r.endpointId = e)).map (fun ids =>
      s.set s.db i { w with pc := .setBaseline e, session := { w.session with cleared := ids } })
  | .setBaseline e =>
    (updateTargets s i (fun r => r.endpointId = e ∧ r.fingerprint = req.fingerprint)).map (fun ids =>
      s.set s.db i { w with pc := .commitBaseline e, session := { w.session with elected := ids } })
  | .commitBaseline e =>
    let w := { w with baselineFingerprint := some req.fingerprint }
    some (s.set view i (w.finish (.finished (some (trackResult e true [])))))
  | .logViolations e inserted legacyDiffs [] =>
    some (s.set s.db i { w with pc := .commitViolations e inserted legacyDiffs })
  | .logViolations e inserted legacyDiffs (item :: todo) =>
    let pc := .logViolations e inserted legacyDiffs todo
    match item.severity with
    | none => some (s.set s.db i { w with pc })
    | some severity =>
      let row : Violation := ⟨e, req.fingerprint, severity, item.path, item.old, item.new⟩
      some (s.set s.db i
        { w with pc, session := { w.session with violations := w.session.violations ++ [row] } })
  | .commitViolations e inserted legacyDiffs =>
    some (s.set view i (w.finish (.finished (some (trackResult e inserted legacyDiffs)))))
  | .finished _ | .failed _ => none

def Pc.active : Pc → Bool
  | .finished _ | .failed _ => false
  | _ => true

inductive Action (ι : Type) where
  | advance (i : ι)
  | fail (i : ι)
  | tick

/-- What the next statement of a request can do to the tables and to the request. -/
inductive Change (c : Config ι) (s : State ι) (i : ι) : Tables → Call → Prop
  | contract (hpc : (s.call i).pc = .contract) :
    Change c s i s.db
      { s.call i with pc := if (c.request i).benchmark then .finished none else .begin }
  | begin (hpc : (s.call i).pc = .begin) :
    Change c s i s.db { s.call i with pc := .lock, session := { startedAt := s.clock } }
  | lock (hpc : (s.call i).pc = .lock)
    (hfree : ∀ j, j ≠ i → (s.call j).session.holdsLock → lockId c j ≠ lockId c i) :
    Change c s i s.db
      { s.call i with pc := .selectEndpoint, session := { (s.call i).session with holdsLock := true } }
  | foundEndpoint (hpc : (s.call i).pc = .selectEndpoint) (e : ApiEndpoint)
    (hfind : findEndpoint (commit s.db (s.call i).session).endpoints (c.request i).key = some e) :
    Change c s i s.db { s.call i with pc := .selectSnapshot e.id }
  | noEndpoint (hpc : (s.call i).pc = .selectEndpoint)
    (hfind : findEndpoint (commit s.db (s.call i).session).endpoints (c.request i).key = none) :
    Change c s i s.db { s.call i with pc := .insertEndpoint }
  | endpointConflict (hpc : (s.call i).pc = .insertEndpoint) (e : ApiEndpoint)
    (he : e ∈ s.db.endpoints) (hkey : e.key = (c.request i).key) :
    Change c s i s.db ((s.call i).finish (.failed true))
  | insertEndpoint (hpc : (s.call i).pc = .insertEndpoint)
    (hfree : ∀ e ∈ s.db.endpoints, e.key ≠ (c.request i).key) :
    Change c s i { s.db with nextId := s.db.nextId + 1 }
      { s.call i with
        pc := .selectSnapshot s.db.nextId
        session := { (s.call i).session with endpoint := some ⟨s.db.nextId, (c.request i).key⟩ } }
  | foundSnapshot (e : Nat) (hpc : (s.call i).pc = .selectSnapshot e) (r : SchemaSnapshot)
    (hfind : findSnapshot (commit s.db (s.call i).session).snapshots e (c.request i).fingerprint =
      some r) :
    Change c s i s.db { s.call i with pc := .commitSnapshot e false }
  | noSnapshot (e : Nat) (hpc : (s.call i).pc = .selectSnapshot e)
    (hfind : findSnapshot (commit s.db (s.call i).session).snapshots e (c.request i).fingerprint =
      none) :
    Change c s i s.db { s.call i with pc := .insertSnapshot e }
  | snapshotConflict (e : Nat) (hpc : (s.call i).pc = .insertSnapshot e) (r : SchemaSnapshot)
    (hr : r ∈ s.db.snapshots) (he : r.endpointId = e) (hf : r.fingerprint = (c.request i).fingerprint) :
    Change c s i s.db ((s.call i).finish (.failed true))
  | insertSnapshot (e : Nat) (hpc : (s.call i).pc = .insertSnapshot e) :
    Change c s i { s.db with nextId := s.db.nextId + 1 }
      { s.call i with
        pc := .commitSnapshot e true
        session := { (s.call i).session with
          snapshot := some ⟨s.db.nextId, e, (c.request i).fingerprint,
            .obj (c.request i).normalizedSchema, false, (s.call i).session.startedAt⟩ } }
  | commitSnapshot (e : Nat) (inserted : Bool) (hpc : (s.call i).pc = .commitSnapshot e inserted) :
    Change c s i (commit s.db (s.call i).session)
      { s.call i with
        pc := .selectBaseline e inserted
        session := .closed
        registered := some (e, inserted) }
  | compare (e : Nat) (inserted : Bool) (hpc : (s.call i).pc = .selectBaseline e inserted)
    (r : SchemaSnapshot) (diffs : List DriftItem)
    (hfind : getActiveBaselineSnapshot (commit s.db (s.call i).session).snapshots e = some r)
    (hne : r.fingerprint ≠ (c.request i).fingerprint)
    (hdiffs : diffs = classifyContractDrift
      (structuralDiff r.normalizedSchema (.obj (c.request i).normalizedSchema))) :
    Change c s i s.db
      { s.call i with
        pc := .logViolations e inserted diffs diffs
        baselineFingerprint := some r.fingerprint }
  | sameBaseline (e : Nat) (inserted : Bool) (hpc : (s.call i).pc = .selectBaseline e inserted)
    (r : SchemaSnapshot)
    (hfind : getActiveBaselineSnapshot (commit s.db (s.call i).session).snapshots e = some r)
    (heq : r.fingerprint = (c.request i).fingerprint) :
    Change c s i s.db
      { s.call i with
        pc := .finished (some (trackResult e inserted []))
        session := .closed
        baselineFingerprint := some r.fingerprint }
  | noBaseline (e : Nat) (hpc : (s.call i).pc = .selectBaseline e true)
    (hfind : getActiveBaselineSnapshot (commit s.db (s.call i).session).snapshots e = none) :
    Change c s i s.db { s.call i with pc := .clearBaselines e }
  | noBaselineKnown (e : Nat) (hpc : (s.call i).pc = .selectBaseline e false)
    (hfind : getActiveBaselineSnapshot (commit s.db (s.call i).session).snapshots e = none) :
    Change c s i s.db ((s.call i).finish (.finished (some (trackResult e false []))))
  | clearBaselines (e : Nat) (hpc : (s.call i).pc = .clearBaselines e) (ids : List Nat)
    (hids : updateTargets s i (fun r => r.endpointId = e) = some ids) :
    Change c s i s.db
      { s.call i with pc := .setBaseline e, session := { (s.call i).session with cleared := ids } }
  | setBaseline (e : Nat) (hpc : (s.call i).pc = .setBaseline e) (ids : List Nat)
    (hids : updateTargets s i
      (fun r => r.endpointId = e ∧ r.fingerprint = (c.request i).fingerprint) = some ids) :
    Change c s i s.db
      { s.call i with pc := .commitBaseline e, session := { (s.call i).session with elected := ids } }
  | commitBaseline (e : Nat) (hpc : (s.call i).pc = .commitBaseline e) :
    Change c s i (commit s.db (s.call i).session)
      { s.call i with
        pc := .finished (some (trackResult e true []))
        session := .closed
        baselineFingerprint := some (c.request i).fingerprint }
  | logged (e : Nat) (inserted : Bool) (diffs : List DriftItem)
    (hpc : (s.call i).pc = .logViolations e inserted diffs []) :
    Change c s i s.db { s.call i with pc := .commitViolations e inserted diffs }
  | skipItem (e : Nat) (inserted : Bool) (diffs : List DriftItem) (item : DriftItem)
    (todo : List DriftItem) (hpc : (s.call i).pc = .logViolations e inserted diffs (item :: todo))
    (hseverity : item.severity = none) :
    Change c s i s.db { s.call i with pc := .logViolations e inserted diffs todo }
  | logItem (e : Nat) (inserted : Bool) (diffs : List DriftItem) (item : DriftItem)
    (todo : List DriftItem) (hpc : (s.call i).pc = .logViolations e inserted diffs (item :: todo))
    (severity : ChangeSeverity) (hseverity : item.severity = some severity) :
    Change c s i s.db
      { s.call i with
        pc := .logViolations e inserted diffs todo
        session := { (s.call i).session with
          violations := (s.call i).session.violations ++
            [⟨e, (c.request i).fingerprint, severity, item.path, item.old, item.new⟩] } }
  | commitViolations (e : Nat) (inserted : Bool) (diffs : List DriftItem)
    (hpc : (s.call i).pc = .commitViolations e inserted diffs) :
    Change c s i (commit s.db (s.call i).session)
      ((s.call i).finish (.finished (some (trackResult e inserted diffs))))

theorem change_of_insertEndpoint {c : Config ι} {s s' : State ι} {i : ι}
    (hpc : (s.call i).pc = .insertEndpoint) (hs : insertEndpoint c s i = some s') :
    ∃ db w, Change c s i db w ∧ s' = s.set db i w := by
  rw [insertEndpoint] at hs
  dsimp only at hs
  split_ifs at hs with hany hwait
  · obtain ⟨e, he, hkey⟩ := List.any_eq_true.mp hany
    exact ⟨_, _, .endpointConflict hpc e he (of_decide_eq_true hkey), (Option.some.inj hs).symm⟩
  · refine ⟨_, _, .insertEndpoint hpc fun e he hkey => ?_, (Option.some.inj hs).symm⟩
    exact hany (List.any_eq_true.mpr ⟨e, he, decide_eq_true hkey⟩)

theorem change_of_insertSnapshot {c : Config ι} {s s' : State ι} {i : ι} {e : Nat}
    (hpc : (s.call i).pc = .insertSnapshot e) (hs : insertSnapshot c s i e = some s') :
    ∃ db w, Change c s i db w ∧ s' = s.set db i w := by
  rw [insertSnapshot] at hs
  dsimp only at hs
  split_ifs at hs with hany hwait
  · obtain ⟨r, hr, hc⟩ := List.any_eq_true.mp hany
    obtain ⟨he, hf⟩ := of_decide_eq_true hc
    exact ⟨_, _, .snapshotConflict e hpc r hr he hf, (Option.some.inj hs).symm⟩
  · exact ⟨_, _, .insertSnapshot e hpc, (Option.some.inj hs).symm⟩

theorem change_of_selectBaseline {c : Config ι} {s s' : State ι} {i : ι} {e : Nat} {inserted : Bool}
    (hpc : (s.call i).pc = .selectBaseline e inserted) (hs : advance c s i = some s') :
    ∃ db w, Change c s i db w ∧ s' = s.set db i w := by
  simp only [advance, hpc] at hs
  split at hs
  · next r hr =>
    split_ifs at hs with hne
    · exact ⟨_, _, .compare e inserted hpc r _ hr hne rfl, (Option.some.inj hs).symm⟩
    · exact ⟨_, _, .sameBaseline e inserted hpc r hr (not_not.mp hne), (Option.some.inj hs).symm⟩
  · next hnone =>
    cases inserted with
    | true => exact ⟨_, _, .noBaseline e hpc hnone, (Option.some.inj hs).symm⟩
    | false => exact ⟨_, _, .noBaselineKnown e hpc hnone, (Option.some.inj hs).symm⟩

theorem change_of_advance {c : Config ι} {s s' : State ι} {i : ι} (hs : advance c s i = some s') :
    ∃ db w, Change c s i db w ∧ s' = s.set db i w := by
  cases hpc : (s.call i).pc with
  | selectBaseline e inserted => exact change_of_selectBaseline hpc hs
  | contract =>
    simp only [advance, hpc] at hs
    exact ⟨_, _, .contract hpc, (Option.some.inj hs).symm⟩
  | begin =>
    simp only [advance, hpc] at hs
    exact ⟨_, _, .begin hpc, (Option.some.inj hs).symm⟩
  | lock =>
    simp only [advance, hpc] at hs
    split at hs
    · cases hs
    · next hfree =>
      refine ⟨_, _, .lock hpc fun j hji hj he => hfree ⟨j, hji, hj, he⟩, (Option.some.inj hs).symm⟩
  | selectEndpoint =>
    simp only [advance, hpc] at hs
    split at hs
    · next e he => exact ⟨_, _, .foundEndpoint hpc e he, (Option.some.inj hs).symm⟩
    · next he => exact ⟨_, _, .noEndpoint hpc he, (Option.some.inj hs).symm⟩
  | insertEndpoint =>
    simp only [advance, hpc] at hs
    exact change_of_insertEndpoint hpc hs
  | selectSnapshot e =>
    simp only [advance, hpc] at hs
    split at hs
    · next r hr => exact ⟨_, _, .foundSnapshot e hpc r hr, (Option.some.inj hs).symm⟩
    · next hr => exact ⟨_, _, .noSnapshot e hpc hr, (Option.some.inj hs).symm⟩
  | insertSnapshot e =>
    simp only [advance, hpc] at hs
    exact change_of_insertSnapshot hpc hs
  | commitSnapshot e inserted =>
    simp only [advance, hpc] at hs
    exact ⟨_, _, .commitSnapshot e inserted hpc, (Option.some.inj hs).symm⟩
  | clearBaselines e =>
    simp only [advance, hpc] at hs
    obtain ⟨ids, hids, rfl⟩ := Option.map_eq_some_iff.mp hs
    exact ⟨_, _, .clearBaselines e hpc ids hids, rfl⟩
  | setBaseline e =>
    simp only [advance, hpc] at hs
    obtain ⟨ids, hids, rfl⟩ := Option.map_eq_some_iff.mp hs
    exact ⟨_, _, .setBaseline e hpc ids hids, rfl⟩
  | commitBaseline e =>
    simp only [advance, hpc] at hs
    exact ⟨_, _, .commitBaseline e hpc, (Option.some.inj hs).symm⟩
  | logViolations e inserted diffs todo =>
    cases todo with
    | nil =>
      simp only [advance, hpc] at hs
      exact ⟨_, _, .logged e inserted diffs hpc, (Option.some.inj hs).symm⟩
    | cons item todo =>
      simp only [advance, hpc] at hs
      split at hs
      · next hnone =>
        exact ⟨_, _, .skipItem e inserted diffs item todo hpc hnone, (Option.some.inj hs).symm⟩
      · next severity hsome =>
        exact ⟨_, _, .logItem e inserted diffs item todo hpc severity hsome, (Option.some.inj hs).symm⟩
  | commitViolations e inserted diffs =>
    simp only [advance, hpc] at hs
    exact ⟨_, _, .commitViolations e inserted diffs hpc, (Option.some.inj hs).symm⟩
  | finished result | failed u =>
    simp only [advance, hpc] at hs
    cases hs

/-- Any request takes its next statement, or fails at whatever statement it stands. -/
def step (c : Config ι) (s : State ι) : Action ι → Option (State ι)
  | .advance i => advance c s i
  | .fail i =>
    if (s.call i).pc.active then some (s.set s.db i ((s.call i).finish (.failed false))) else none
  | .tick => some { s with clock := s.clock + 1 }

section Sample

def intSubmission : PayloadSubmission :=
  ⟨"default", "svc-a", "POST", "/v1/orders", ⟨[("score", .num (.int 42))], by decide⟩⟩

def floatSubmission : PayloadSubmission :=
  { intSubmission with payload := ⟨[("score", .num (.float ⟨"42.5", by decide⟩))], by decide⟩ }

/-- The digests are those of the route and of the two structural strings. -/
def sampleConfig {ι : Type} (submission : ι → PayloadSubmission) : Config ι :=
  let sha256 := sampleSha256 [
    ("/v1/orders", "7c8314de4242dc77859f5f15a2caa40f2b655717f4d72db327b230055e714d5e"),
    ("score:int;", "5381fb50557c4c9e7a6d540bf0809d238493074cb095dfcfe7dfb7cb61746bae"),
    ("score:float;", "77e36689ac6441f218c35c234488def4a2277d2431bd9f2df65f1d4ec0f2698c")]
  { request := fun i => (submission i).request sha256 id id, sha256 }

end Sample

end SchemaPilot.TrackPayload
