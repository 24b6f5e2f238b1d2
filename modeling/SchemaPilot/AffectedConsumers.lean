import SchemaPilot.DeliveryInvariant

namespace SchemaPilot.AffectedConsumers

open Classifier Registry Track Webhook OutboxWorker Enqueue Runs DeliverySystem

def versionIds (db : Db) : List Nat := db.versions.map SchemaVersionRecord.id

/-- What a call may do to the version ids: those that it adds are fresh. -/
structure Grows (db db' : Db) : Prop where
  le : db.nextId ≤ db'.nextId
  ids : ∀ id ∈ versionIds db', id ∈ versionIds db ∨ db.nextId ≤ id ∧ id < db'.nextId

section Registry

variable {db db' : Db}

theorem grows_of_ids (hle : db.nextId ≤ db'.nextId) (hids : versionIds db' = versionIds db) :
    Grows db db' :=
  ⟨hle, fun _ hid => .inl (hids ▸ hid)⟩

theorem ensureEndpoint_grows {key : EndpointKey} {e : Endpoint}
    (h : ensureEndpoint db key = .ok (db', e)) : db'.versions = db.versions ∧ db.nextId ≤ db'.nextId := by
  rw [ensureEndpoint] at h
  split at h
  · cases h
    exact ⟨rfl, le_rfl⟩
  · dsimp only at h
    split at h
    · cases h
      exact ⟨rfl, Nat.le_succ _⟩
    · cases h

theorem versionIds_clear (e : Nat) (versions : List SchemaVersionRecord) :
    (clearEndpoint e versions).map SchemaVersionRecord.id = versions.map SchemaVersionRecord.id := by
  rw [clearEndpoint, List.map_map]
  apply List.map_congr_left
  intro r _
  rw [Function.comp_apply]
  split <;> rfl

theorem insertVersion_grows {jsonb : Schema → Option Schema} {e : Endpoint} {f : String}
    {schema : Schema} {classification : Compatibility} {new : SchemaVersionRecord}
    (h : insertVersion jsonb db e f schema classification = .ok (db', new)) :
    versionIds db' = versionIds db ++ [db.nextId] ∧ db'.nextId = db.nextId + 1 ∧ new.id = db.nextId := by
  simp only [insertVersion] at h
  generalize hv : (if (getCurrentSchema db.versions e.id).isSome = true then
    clearEndpoint e.id db.versions else db.versions) = versions at h
  have hids : versions.map SchemaVersionRecord.id = versionIds db := by
    rw [← hv]
    split
    · exact versionIds_clear _ _
    · rfl
  split at h
  · cases h
  · split at h
    · cases h
    · cases h
      refine ⟨?_, rfl, rfl⟩
      rw [versionIds, List.map_append, hids]
      rfl

theorem upsert_grows {jsonb : Schema → Option Schema} {key : EndpointKey} {f : String}
    {schema : Schema} {classification : Compatibility} {e : Endpoint} {new : SchemaVersionRecord}
    {inserted : Bool}
    (h : upsertSchemaVersion jsonb db key f schema classification = .ok (db', e, new, inserted)) :
    Grows db db' ∧ (inserted = true → db.nextId ≤ new.id ∧ new.id < db'.nextId) := by
  rw [upsertSchemaVersion] at h
  cases hensure : ensureEndpoint db key with
  | error err =>
    simp only [hensure, bind, Except.bind] at h
    cases h
  | ok p =>
    obtain ⟨db₁, e₁⟩ := p
    obtain ⟨hversions, hle⟩ := ensureEndpoint_grows hensure
    have hids : versionIds db₁ = versionIds db := by rw [versionIds, versionIds, hversions]
    simp only [hensure, bind, Except.bind] at h
    split at h
    · cases h
      exact ⟨grows_of_ids hle hids, nofun⟩
    · cases hinsert : insertVersion jsonb db₁ e₁ f schema classification with
      | error err =>
        rw [hinsert] at h
        cases h
      | ok q =>
        obtain ⟨db₂, new₂⟩ := q
        obtain ⟨hids₂, hnext, hnew⟩ := insertVersion_grows hinsert
        rw [hinsert] at h
        change Except.ok (db₂, e₁, { new₂ with canonicalSchema := schema }, true) = _ at h
        cases h
        refine ⟨⟨by omega, fun id hid => ?_⟩, fun _ => ?_⟩
        · rw [hids₂, hids] at hid
          obtain hid | hid := List.mem_append.mp hid
          · exact .inl hid
          · rw [List.mem_singleton.mp hid]
            exact .inr ⟨hle, by omega⟩
        · change db.nextId ≤ new₂.id ∧ new₂.id < db'.nextId
          omega

theorem classifyVersion_ids {isPrintable : Char → Bool} {new : SchemaVersionRecord} {schema : Schema}
    {classification : Compatibility} {diffs : List DiffItem}
    (h : classifyVersion isPrintable db new schema = .ok (db', classification, diffs)) :
    versionIds db' = versionIds db ∧ db'.nextId = db.nextId := by
  rw [classifyVersion] at h
  split at h
  · cases h
    exact ⟨rfl, rfl⟩
  · split at h
    · cases h
    · split at h
      · cases h
      · cases h
        refine ⟨?_, rfl⟩
        rw [versionIds, setClassification, List.map_map]
        apply List.map_congr_left
        intro r _
        rw [Function.comp_apply]
        split <;> rfl

end Registry

/-- The outbox has a row about the event for the subscription. -/
def HasRow (db : Tables) (d : Drift) (sub : Subscription) : Prop :=
  ∃ row ∈ db.outbox, row.subscriptionId = sub.id ∧ row.payload = d.event

/-- The version that the event is about is among the tables' versions. -/
def HasVersion (db : Tables) (d : Drift) : Prop := d.version.id ∈ versionIds db.registry

section View

variable {db db' : Tables} {session : Session} {d : Drift} {sub : Subscription}

theorem hasRow_view : HasRow (session.view db) d sub ↔
    HasRow db d sub ∨ ∃ row ∈ inserted session.writes, row.subscriptionId = sub.id ∧ row.payload = d.event :=
  exists_view_iff (fun _ _ => Iff.rfl) session db

theorem hasRow_view_mono (h : HasRow db d sub → HasRow db' d sub)
    (hv : HasRow (session.view db) d sub) : HasRow (session.view db') d sub :=
  hasRow_view.mpr ((hasRow_view.mp hv).imp_left h)

/-- No write takes a row back. -/
theorem hasRow_concat {session' : Session} {w : Write} (hwrites : session'.writes = session.writes ++ [w])
    (h : HasRow (session.view db) d sub) : HasRow (session'.view db) d sub := by
  rw [hasRow_view] at h ⊢
  refine h.imp_right fun ⟨row, hr, hid⟩ => ⟨row, ?_, hid⟩
  rw [hwrites, inserted_concat]
  exact List.mem_append_left _ hr

theorem view_registry_congr (h : db'.registry = db.registry) :
    (session.view db').registry = (session.view db).registry := by
  unfold Session.view
  induction session.writes using List.reverseRecOn with
  | nil => exact h
  | append_singleton writes w ih =>
    rw [List.foldl_concat, List.foldl_concat]
    cases w with
    | setRegistry registry => rfl
    | insertOutbox row | updateOutbox id u | insertAttempt attempt | upsertDlq entry => exact ih

/-- A write that leaves the registry alone. -/
def KeepsRegistry : Write → Prop
  | .setRegistry _ => False
  | _ => True

theorem KeepsRegistry.of_quiet {x : Write} (h : DeliveryInvariant.Quiet x) : KeepsRegistry x := by
  cases x with
  | setRegistry registry => exact h.elim
  | _ => trivial

theorem view_registry (h : ∀ x ∈ session.writes, KeepsRegistry x) :
    (session.view db).registry = db.registry := by
  obtain ⟨startedAt, writes, locks⟩ := session
  rw [Session.view]
  dsimp only at h ⊢
  induction writes using List.reverseRecOn with
  | nil => rfl
  | append_singleton writes w ih =>
    rw [List.foldl_concat, ← ih fun x hx => h x (List.mem_append_left _ hx)]
    have hlast := h w (List.mem_append_right _ (List.mem_singleton.mpr rfl))
    cases w with
    | setRegistry registry => exact hlast.elim
    | insertOutbox row | updateOutbox id u | insertAttempt attempt | upsertDlq entry => rfl

end View

/-- The event whose rows a call is queueing, and the subscriptions that it has still to come to. -/
def current : CallPc → Option Drift
  | .loop drift _ | .deliver drift _ _ _ _ => some drift
  | _ => none

def remaining : CallPc → List Subscription
  | .loop _ todo | .deliver _ _ _ todo _ => todo
  | _ => []

/-- The version that a call has added and not yet selected subscriptions for. -/
def newVersion : CallPc → Option SchemaVersionRecord
  | .classify new _ | .selectAffected new _ _ => some new
  | _ => none

/-- The session says nothing new about the version of the event, or has all rows for it. -/
def Safe (db view : Tables) (d : Drift) : Prop :=
  (HasVersion view d → HasVersion db d) ∨ ∀ sub ∈ d.affected, HasRow view d sub

def Enqueued (db : Tables) (d : Drift) : Prop := HasVersion db d → ∀ sub ∈ d.affected, HasRow db d sub

structure CallerOk (db : Tables) (drifts : List Drift) (w : Caller) : Prop where
  known : ∀ d ∈ drifts, d.version.id < db.registry.nextId
  bound : ∀ id ∈ versionIds db.registry, id < db.registry.nextId
  boundView : ∀ id ∈ versionIds (w.session.view db).registry, id < db.registry.nextId
  sync : (w.session.view db).registry.nextId = db.registry.nextId
  enqueued : ∀ d ∈ drifts, Enqueued db d
  safe : ∀ d ∈ drifts, d ∈ current w.pc ∨ Safe db (w.session.view db) d
  current : ∀ d ∈ current w.pc, ∀ sub ∈ d.affected,
    sub ∈ remaining w.pc ∨ HasRow (w.session.view db) d sub
  fresh : ∀ r ∈ newVersion w.pc, r.id < db.registry.nextId ∧ r.id ∉ versionIds db.registry
  start : ∀ call, w.pc = .upsert call → w.session.writes = []

section Caller

variable {db db' : Tables} {drifts : List Drift} {w : Caller}

/-- What other processes do leaves the registry and the rows there. -/
theorem CallerOk.keep (h : CallerOk db drifts w) (hreg : db'.registry = db.registry)
    (hrows : ∀ d sub, HasRow db d sub → HasRow db' d sub) : CallerOk db' drifts w := by
  have hview : (w.session.view db').registry = (w.session.view db).registry := view_registry_congr hreg
  refine ⟨hreg ▸ h.known, hreg ▸ h.bound, ?_, ?_, fun d hd hv sub hs => ?_, fun d hd => ?_,
    fun d hd sub hs => ?_, hreg ▸ h.fresh, h.start⟩
  · rw [hview, hreg]
    exact h.boundView
  · rw [hview, hreg]
    exact h.sync
  · rw [HasVersion, hreg] at hv
    exact hrows d sub (h.enqueued d hd hv sub hs)
  · refine (h.safe d hd).imp_right fun hsafe => hsafe.imp (fun himp hv => ?_) fun hall sub hs => ?_
    · rw [HasVersion, hview] at hv
      rw [HasVersion, hreg]
      exact himp hv
    · exact hasRow_view_mono (hrows d sub) (hall sub hs)
  · exact (h.current d hd sub hs).imp_right (hasRow_view_mono (hrows d sub))

/-- A call that stops, or that begins. -/
theorem CallerOk.close (h : CallerOk db drifts w) {pc : CallPc}
    (hcurrent : AffectedConsumers.current pc = none) (hnew : newVersion pc = none) :
    CallerOk db drifts ⟨pc, .closed⟩ := by
  refine ⟨h.known, h.bound, h.bound, rfl, h.enqueued, fun d _ => .inr (.inl id), fun d hd => ?_,
    fun r hr => ?_, fun _ _ => rfl⟩
  · rw [hcurrent] at hd
    cases hd
  · rw [hnew] at hr
    cases hr

/-- A step that keeps the versions as the session sees them, and its rows. -/
theorem CallerOk.next (h : CallerOk db drifts w) {w' : Caller}
    (hreg : (w'.session.view db).registry = (w.session.view db).registry)
    (hrows : ∀ d sub, HasRow (w.session.view db) d sub → HasRow (w'.session.view db) d sub)
    (hleft : ∀ d ∈ AffectedConsumers.current w.pc, d ∈ AffectedConsumers.current w'.pc ∨
      ∀ sub ∈ d.affected, HasRow (w'.session.view db) d sub)
    (hcurrent : ∀ d ∈ AffectedConsumers.current w'.pc, ∀ sub ∈ d.affected,
      sub ∈ remaining w'.pc ∨ HasRow (w'.session.view db) d sub)
    (hnew : newVersion w'.pc = none) (hstart : ∀ call, w'.pc ≠ .upsert call) :
    CallerOk db drifts w' := by
  refine ⟨h.known, h.bound, hreg ▸ h.boundView, hreg ▸ h.sync, h.enqueued, fun d hd => ?_, hcurrent,
    fun r hr => ?_, fun call hpc => absurd hpc (hstart call)⟩
  · obtain hd | hsafe := h.safe d hd
    · exact (hleft d hd).imp_right .inr
    · refine .inr (hsafe.imp (fun himp hv => himp ?_) fun hall sub hs => hrows d sub (hall sub hs))
      rw [HasVersion, ← hreg]
      exact hv
  · rw [hnew] at hr
    cases hr

/-- The commit of a session: all that it has queued, and no version without its rows. -/
theorem CallerOk.commit (h : CallerOk db drifts w)
    (hall : ∀ d ∈ AffectedConsumers.current w.pc, ∀ sub ∈ d.affected, HasRow (w.session.view db) d sub)
    {pc : CallPc} (hcurrent : ∀ d ∈ AffectedConsumers.current pc, d ∈ AffectedConsumers.current w.pc)
    (hnew : newVersion pc = none) : CallerOk (w.session.view db) drifts ⟨pc, .closed⟩ := by
  have hsync := h.sync
  refine ⟨hsync ▸ h.known, hsync ▸ h.boundView, hsync ▸ h.boundView, rfl, fun d hd hv sub hs => ?_,
    fun d _ => .inr (.inl id), fun d hd sub hs => .inr (hall d (hcurrent d hd) sub hs), fun r hr => ?_,
    fun _ _ => rfl⟩
  · obtain hcur | hsafe | hrows := h.safe d hd
    · exact hall d hcur sub hs
    · exact hasRow_view.mpr (.inl (h.enqueued d hd (hsafe hv) sub hs))
    · exact hrows sub hs
  · rw [hnew] at hr
    cases hr

/-- The session's new registry, whose ids are gone for the others. -/
theorem CallerOk.setRegistry {pc pc' : CallPc} {session : Session}
    (h : CallerOk db drifts ⟨pc, session⟩) (hidle : AffectedConsumers.current pc = none)
    {registry : Db} (hgrows : Grows (session.view db).registry registry)
    (hcurrent : AffectedConsumers.current pc' = none)
    (hnew : ∀ r ∈ newVersion pc', r.id < registry.nextId ∧ r.id ∉ versionIds db.registry)
    (hstart : ∀ call, pc' ≠ .upsert call) (clock : Nat) :
    CallerOk ((Effect.write (.setRegistry registry)).run clock db session).1 drifts
      ⟨pc', ((Effect.write (.setRegistry registry)).run clock db session).2⟩ := by
  have hreg : (((Effect.write (.setRegistry registry)).run clock db session).2.view
      ((Effect.write (.setRegistry registry)).run clock db session).1).registry = registry := by
    simp only [Effect.run, view_concat]
    rfl
  have hrows : ∀ d sub, HasRow (session.view db) d sub →
      HasRow (((Effect.write (.setRegistry registry)).run clock db session).2.view
        ((Effect.write (.setRegistry registry)).run clock db session).1) d sub := by
    intro d sub hrow
    have hdb : HasRow db d sub →
        HasRow ((Effect.write (.setRegistry registry)).run clock db session).1 d sub := fun hr => hr
    exact hasRow_concat rfl (hasRow_view_mono hdb hrow)
  have hle : db.registry.nextId ≤ registry.nextId := h.sync ▸ hgrows.le
  refine ⟨fun d hd => (h.known d hd).trans_le hle, fun id hid => (h.bound id hid).trans_le hle,
    fun id hid => ?_, ?_, h.enqueued, fun d hd => .inr ?_, fun d hd => ?_, hnew,
    fun call hpc => absurd hpc (hstart call)⟩
  · rw [hreg] at hid
    obtain hold | hfresh := hgrows.ids id hid
    · exact (h.boundView id hold).trans_le hle
    · exact hfresh.2
  · rw [hreg]
    rfl
  · obtain hcur | hsafe := h.safe d hd
    · rw [hidle] at hcur
      cases hcur
    · refine hsafe.imp (fun himp hv => ?_) fun hall sub hs => hrows d sub (hall sub hs)
      rw [HasVersion, hreg] at hv
      obtain hold | ⟨hfresh, -⟩ := hgrows.ids _ hv
      · exact himp hold
      · have hlt := h.known d hd
        rw [h.sync] at hfresh
        omega
  · rw [hcurrent] at hd
    cases hd

/-- The selection of the subscriptions for a version that is not committed yet. -/
theorem CallerOk.selected (h : CallerOk db drifts w) {new : SchemaVersionRecord}
    (hidle : AffectedConsumers.current w.pc = none) (hnew : newVersion w.pc = some new) {d : Drift}
    (hd : d.version = new) {w' : Caller} (hpc : w'.pc = .loop d d.affected)
    (hwrites : w'.session.writes = w.session.writes) : CallerOk db (drifts ++ [d]) w' := by
  have hfresh := h.fresh new (by rw [hnew]; rfl)
  have hview : w'.session.view db = w.session.view db := by rw [Session.view, Session.view, hwrites]
  have hcur : AffectedConsumers.current w'.pc = some d := by rw [hpc]; rfl
  have hnever : ¬HasVersion db d := by
    rw [HasVersion, hd]
    exact hfresh.2
  refine ⟨forall_mem_concat h.known (hd ▸ hfresh.1), h.bound, hview ▸ h.boundView, hview ▸ h.sync,
    forall_mem_concat h.enqueued fun hv => absurd hv hnever,
    forall_mem_concat (fun d' hd' => .inr ?_) (.inl (by rw [hcur]; rfl)),
    fun d' hd' sub hs => .inl ?_, fun r hr => ?_, fun call heq => ?_⟩
  · rw [hview]
    refine (h.safe d' hd').resolve_left fun hcur' => ?_
    rw [hidle] at hcur'
    cases hcur'
  · rw [hcur] at hd'
    cases hd'
    rw [hpc]
    exact hs
  · rw [hpc] at hr
    cases hr
  · rw [hpc] at heq
    cases heq

end Caller

/-- The subscriptions that a delivery's commit leaves without a row. -/
def leftBehind : CallPc → List Subscription
  | .deliver _ _ _ todo (.commit _) => todo
  | _ => []

section Step

variable {c : Config} {db : Tables} {fresh now clock : Nat} {locked : Nat → Bool} {drifts : List Drift}

theorem callerOk_deliver {session : Session} {drift : Drift} {outboxId : Nat} {sub : Subscription}
    {todo : List Subscription} {pc pc' : DeliverPc} {effect : Effect}
    (h : CallerOk db drifts ⟨.deliver drift outboxId sub todo pc, session⟩)
    (hlast : leftBehind (.deliver drift outboxId sub todo pc) = [])
    (hnext : (Enqueue.delivery drift sub).next pc = some (effect, pc')) :
    CallerOk (effect.run clock db session).1 drifts
      ⟨.deliver drift outboxId sub todo pc', (effect.run clock db session).2⟩ := by
  have hwrite : ∀ x, DeliveryInvariant.Quiet x → ∀ session' : Session,
      session'.writes = session.writes ++ [x] →
      CallerOk db drifts ⟨.deliver drift outboxId sub todo pc', session'⟩ := by
    intro x hx session' hwrites
    have hview : session'.view db = x.apply (session.view db) := by
      rw [Session.view, hwrites, List.foldl_concat]
      rfl
    have hrows : ∀ d sub, HasRow (session.view db) d sub → HasRow (session'.view db) d sub :=
      fun _ _ => hasRow_concat hwrites
    apply h.next
    · rw [hview]
      cases x with
      | insertAttempt attempt | upsertDlq entry => rfl
      | _ => exact hx.elim
    · exact hrows
    · exact fun d hd => .inl hd
    · exact fun d hd sub' hs => (h.current d hd sub' hs).imp_right (hrows d sub')
    · rfl
    · intro call heq
      cases heq
  cases pc with
  | post attempt =>
    cases hnext
    apply h.next
    · rfl
    · exact fun _ _ => id
    · exact fun d hd => .inl hd
    · exact h.current
    · rfl
    · intro call heq
      cases heq
  | awaiting attempt => cases hnext
  | succeeded attempt | failed attempt reason =>
    cases hnext
    exact hwrite (.insertAttempt _) trivial _ rfl
  | dlq attempt reason =>
    cases hnext
    exact hwrite (.upsertDlq _) trivial _ rfl
  | commit ok =>
    cases hnext
    refine h.commit (fun d hd sub' hs => ?_) (fun d hd => hd) rfl
    obtain hrem | hrow := h.current d hd sub' hs
    · change sub' ∈ todo at hrem
      change todo = [] at hlast
      rw [hlast] at hrem
      cases hrem
    · exact hrow
  | returned ok => cases hnext

/-- The INSERT of the row for the next subscription. -/
theorem callerOk_insert {session session' : Session} {drift : Drift} {sub : Subscription}
    {todo : List Subscription} {id : Nat} {pc : CallPc}
    (h : CallerOk db drifts ⟨.loop drift (sub :: todo), session⟩)
    (hwrites : session'.writes = session.writes ++ [.insertOutbox (outboxRow drift id now sub)])
    (hcurrent : AffectedConsumers.current pc = some drift) (hremaining : remaining pc = todo)
    (hnew : newVersion pc = none) (hstart : ∀ call, pc ≠ .upsert call) :
    CallerOk db drifts ⟨pc, session'⟩ := by
  have hview : session'.view db =
      (Write.insertOutbox (outboxRow drift id now sub)).apply (session.view db) := by
    rw [Session.view, hwrites, List.foldl_concat]
    rfl
  have hrows : ∀ d sub', HasRow (session.view db) d sub' → HasRow (session'.view db) d sub' :=
    fun _ _ => hasRow_concat hwrites
  apply h.next
  · rw [hview]
    rfl
  · exact hrows
  · exact fun d hd => .inl (hcurrent ▸ hd)
  · intro d hd sub' hs
    rw [hcurrent] at hd
    cases hd
    obtain hrem | hrow := h.current _ rfl sub' hs
    · obtain rfl | hrem := List.mem_cons.mp hrem
      · refine .inr ?_
        rw [hview]
        exact ⟨_, List.mem_append_right _ (List.mem_singleton.mpr rfl), rfl, rfl⟩
      · exact .inl (hremaining ▸ hrem)
    · exact .inr (hrows _ sub' hrow)
  · exact hnew
  · exact hstart

theorem callerOk_step {w : Caller} (h : CallerOk db drifts w) (hlast : leftBehind w.pc = [])
    {pc : CallPc} {effect : Effect}
    (hstep : CallStep c (w.session.view db) fresh now locked w.pc effect pc) :
    CallerOk (effect.run clock db w.session).1 (drifts ++ selected w.pc pc)
      ⟨pc, (effect.run clock db w.session).2⟩ := by
  obtain ⟨pc₀, session⟩ := w
  change CallStep c (session.view db) fresh now locked pc₀ effect pc at hstep
  change CallerOk _ (drifts ++ selected pc₀ pc) _
  have hsame : selected pc₀ pc = [] → drifts ++ selected pc₀ pc = drifts := by
    intro hnil
    rw [hnil, List.append_nil]
  cases hstep with
  | refused | unclassified =>
    rw [hsame rfl]
    exact h.close rfl rfl
  | @drift call registry e new hupsert _ =>
    rw [hsame rfl]
    have hview : session.view db = db := by rw [Session.view, h.start call rfl, List.foldl_nil]
    obtain ⟨hgrows, hnew⟩ := upsert_grows hupsert
    refine h.setRegistry rfl hgrows rfl (fun r hr => ?_) (fun call heq => ?_) clock
    · cases hr
      rw [hview] at hnew
      obtain ⟨hle, hlt⟩ := hnew rfl
      exact ⟨hlt, fun hmem => absurd (h.bound _ hmem) (Nat.not_lt.mpr hle)⟩
    · cases heq
  | @noDrift call registry e new ins hupsert _ =>
    rw [hsame rfl]
    refine h.setRegistry rfl (upsert_grows hupsert).1 rfl (fun r hr => ?_) (fun call heq => ?_) clock
    · cases hr
    · cases heq
  | @classified new schema registry classification diffs hclassify =>
    rw [hsame rfl]
    obtain ⟨hids, hnext⟩ := classifyVersion_ids hclassify
    refine h.setRegistry rfl (grows_of_ids hnext.ge hids) rfl (fun r hr => ?_) (fun call heq => ?_) clock
    · cases hr
      rw [hnext, h.sync]
      exact h.fresh new rfl
    · cases heq
  | selected => exact h.selected rfl rfl rfl rfl rfl
  | done =>
    rw [hsame rfl]
    apply h.next
    · rfl
    · exact fun _ _ => id
    · exact fun d hd => .inr fun sub hs => (h.current d hd sub hs).resolve_left List.not_mem_nil
    · exact fun d hd => by cases hd
    · rfl
    · exact fun call heq => by cases heq
  | inline _ =>
    rw [hsame rfl]
    exact callerOk_insert h rfl rfl rfl rfl fun call heq => by cases heq
  | queued _ =>
    rw [hsame rfl]
    exact callerOk_insert h rfl rfl rfl rfl fun call heq => by cases heq
  | deliver hnext =>
    rw [hsame rfl]
    exact callerOk_deliver h hlast hnext
  | mark _ =>
    rw [hsame rfl]
    apply h.next
    · simp only [Effect.run, view_concat]
      rfl
    · exact fun _ _ => hasRow_concat rfl
    · exact fun d hd => .inl hd
    · exact fun d hd sub hs => (h.current d hd sub hs).imp_right (hasRow_concat rfl)
    · rfl
    · exact fun call heq => by cases heq
  | count =>
    rw [hsame rfl]
    apply h.next
    · rfl
    · exact fun _ _ => id
    · exact fun d hd => by cases hd
    · exact fun d hd => by cases hd
    · rfl
    · exact fun call heq => by cases heq
  | commit =>
    rw [hsame rfl]
    refine h.commit (fun d hd => ?_) (fun d hd => hd) rfl
    cases hd

/-- A worker leaves the registry and the rows there. -/
theorem worker_keeps {session : Session} {effect : Effect} (h : ∀ x ∈ session.writes, KeepsRegistry x)
    (heffect : ∀ x, effect = .write x → KeepsRegistry x) :
    (effect.run clock db session).1.registry = db.registry ∧
      ∀ d sub, HasRow db d sub → HasRow (effect.run clock db session).1 d sub := by
  cases effect with
  | commit => exact ⟨view_registry h, fun d sub hrow => hasRow_view.mpr (.inl hrow)⟩
  | write w =>
    have hw := heffect w rfl
    cases w with
    | setRegistry registry => exact hw.elim
    | insertOutbox row | updateOutbox id u | insertAttempt attempt | upsertDlq entry =>
      exact ⟨rfl, fun _ _ hrow => hrow⟩
  | read | selectForUpdate ids | close | send => exact ⟨rfl, fun _ _ hrow => hrow⟩

theorem worker_write {n : Nat} {pc pc' : WorkerPc} {x : Write}
    (h : WorkerStep db now n locked pc (.write x) pc') : KeepsRegistry x := by
  cases h with
  | claim _ | failMissing _ | delivered _ | exhausted _ _ | retry _ _ | upsertDlq => trivial
  | deliver hnext => exact .of_quiet (DeliveryInvariant.deliver_write hnext)

end Step

section

variable {ι : Type} [Fintype ι] [DecidableEq ι] {c : Config} {s s' : State ι}

/-- No delivery commits the session of its call while a subscription is still without its row. -/
def CommitsLast (s : State ι) : Action ι → Prop
  | .caller => leftBehind s.caller.pc = []
  | _ => True

instance (s : State ι) (a : Action ι) : Decidable (CommitsLast s a) :=
  match a with
  | .caller => inferInstanceAs (Decidable (leftBehind s.caller.pc = []))
  | .worker _ | .workerResponse _ _ | .workerFailure _ | .request _ | .callerResponse _
  | .callerFailure | .putSubscription _ | .tick => isTrue trivial

structure Inv (s : State ι) : Prop where
  worker : ∀ i, ∀ x ∈ (s.worker i).session.writes, KeepsRegistry x
  caller : CallerOk s.db s.drifts s.caller

omit [Fintype ι] [DecidableEq ι] in
theorem inv_init : Inv (init : State ι) := by
  refine ⟨fun _ => List.forall_mem_nil _, List.forall_mem_nil _, List.forall_mem_nil _,
    List.forall_mem_nil _, rfl, List.forall_mem_nil _, List.forall_mem_nil _, fun d hd => ?_,
    fun r hr => ?_, fun _ _ => rfl⟩
  · cases hd
  · cases hr

omit [Fintype ι] in
theorem writes_setWorker {i : ι} {w : Worker} (h : ∀ j, ∀ x ∈ (s.worker j).session.writes, KeepsRegistry x)
    (hw : ∀ x ∈ w.session.writes, KeepsRegistry x) :
    ∀ j, ∀ x ∈ ((s.setWorker i w).worker j).session.writes, KeepsRegistry x := by
  intro j
  rw [DeliveryInvariant.setWorker_worker]
  split
  · exact hw
  · exact h j

theorem inv_step {a : Action ι} (h : Inv s) (hok : CommitsLast s a) (hs : step c s a = some s') :
    Inv s' := by
  cases step_cases hs with
  | @worker i effect pc hstep =>
    have heffect : ∀ x, effect = .write x → KeepsRegistry x := by
      intro x heq
      subst heq
      exact worker_write hstep
    obtain ⟨hreg, hrows⟩ := @worker_keeps s.db s.clock _ _ (h.worker i) heffect
    exact ⟨writes_setWorker h.worker (forall_run_writes (h.worker i) heffect), h.caller.keep hreg hrows⟩
  | @workerResponse i => exact ⟨writes_setWorker h.worker (h.worker i), h.caller⟩
  | workerFailure => exact ⟨writes_setWorker h.worker (List.forall_mem_nil _), h.caller⟩
  | request _ | callerFailure => exact ⟨h.worker, h.caller.close rfl rfl⟩
  | caller hstep => exact ⟨h.worker, callerOk_step h.caller hok hstep⟩
  | callerResponse hpc =>
    have hcurrent := h.caller.current
    rw [hpc] at hcurrent
    refine ⟨h.worker, ?_⟩
    apply h.caller.next
    · rfl
    · exact fun _ _ hrow => hrow
    · rw [hpc]
      exact fun d hd => .inl hd
    · exact hcurrent
    · rfl
    · exact fun call heq => by cases heq
  | putSubscription => exact ⟨h.worker, h.caller.keep rfl fun _ _ => id⟩
  | tick => exact ⟨h.worker, h.caller⟩

/-- As long as no delivery commits before the last row is queued, a committed version has a
committed row for every subscription selected for it. -/
theorem affected_all_enqueued (c : Config) (s : State ι) (h : Reachable (step c) CommitsLast init s)
    (d : Drift) (hd : d ∈ s.drifts) (hversion : HasVersion s.db d) (sub : Subscription)
    (hsub : sub ∈ d.affected) :
    ∃ row ∈ s.db.outbox, row.subscriptionId = sub.id ∧ row.payload = d.event := by
  have hinv : Inv s := h.invariant inv_init fun _ _ _ hi hok hs => inv_step hi hok hs
  exact hinv.caller.enqueued d hd hversion sub hsub

end

/-- One subscription, whose delivery fails, and a crash after its commit. -/
theorem affected_all_enqueued_crash :
    let c := sampleConfig 50 true
    let acts : List (Action Unit) := List.flatten [driftWith [7], List.replicate 5 .caller,
      [.callerResponse (.response 500)], List.replicate 3 .caller, [.callerFailure]]
    ∃ s : State Unit, run (step c) CommitsLast init acts = some s ∧
      ∃ d ∈ s.drifts, d.affected = [sampleSubscription 7] ∧
        ∃ row ∈ s.db.outbox, row.subscriptionId = 7 ∧ row.payload = d.event := by
  intro c acts
  have hrun : (run (step c) CommitsLast init acts).map (fun s =>
      (s.drifts.map (fun d => (d.version.id, d.affected)), versionIds s.db.registry)) =
      some ([(2, [sampleSubscription 7])], [1, 2]) := by decide +kernel
  obtain ⟨s, hs, hp⟩ := Option.map_eq_some_iff.mp hrun
  simp only [Prod.mk.injEq, List.map_eq_singleton_iff] at hp
  obtain ⟨⟨d, hdrifts, hid, haffected⟩, hversions⟩ := hp
  have hd : d ∈ s.drifts := by rw [hdrifts]; exact List.mem_singleton.mpr rfl
  have hversion : HasVersion s.db d := by
    rw [HasVersion, hid, hversions]
    decide
  have hsub : sampleSubscription 7 ∈ d.affected := by
    rw [haffected]
    exact List.mem_singleton.mpr rfl
  exact ⟨s, hs, d, hd, haffected,
    affected_all_enqueued c s (reachable_run _ _ .start hs) d hd hversion _ hsub⟩

/-- Two subscriptions, and a crash after the commit of the first delivery; the same request
again finds the version there. -/
theorem second_consumer_lost :
    let acts : List (Action Unit) := List.flatten [driftWith [7, 8], List.replicate 5 .caller,
      [.callerResponse (.response 500)], List.replicate 3 .caller, [.callerFailure],
      [.request secondCall, .caller, .caller]]
    ∃ s : State Unit, run (step (sampleConfig 50 true)) always init acts = some s ∧
      ∃ d ∈ s.drifts, HasVersion s.db d ∧ ∃ sub ∈ d.affected,
        ¬∃ row ∈ s.db.outbox, row.subscriptionId = sub.id ∧ row.payload = d.event := by
  intro acts
  have hrun : (run (step (sampleConfig 50 true)) always (init : State Unit) acts).map (fun s =>
      (s.drifts.map (fun d => (d.version.id, d.affected)), versionIds s.db.registry,
        s.db.outbox.map OutboxRow.subscriptionId)) =
      some ([(2, [sampleSubscription 7, sampleSubscription 8])], [1, 2], [7]) := by decide +kernel
  obtain ⟨s, hs, hp⟩ := Option.map_eq_some_iff.mp hrun
  simp only [Prod.mk.injEq, List.map_eq_singleton_iff] at hp
  obtain ⟨⟨d, hdrifts, hid, haffected⟩, hversions, row, houtbox, hsub⟩ := hp
  refine ⟨s, hs, d, by rw [hdrifts]; exact List.mem_singleton.mpr rfl, ?_, sampleSubscription 8, ?_, ?_⟩
  · rw [HasVersion, hid, hversions]
    decide
  · rw [haffected]
    exact List.mem_cons_of_mem _ (List.mem_singleton.mpr rfl)
  · rintro ⟨row', hr, heq, -⟩
    rw [houtbox, List.mem_singleton] at hr
    rw [hr, hsub] at heq
    cases heq

end SchemaPilot.AffectedConsumers
