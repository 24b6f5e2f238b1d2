import SchemaPilot.DlqReplay

namespace SchemaPilot.ReplayRuns

open Classifier Webhook Enqueue Runs DlqReplay

/-- A delivery of an event, with the subscription and the payload as it has read them. -/
structure Job where
  eventId : Nat
  endpointId : Nat
  subscription : Subscription
  event : Payload
  payload : Json

structure State where
  subscriptions : List SubscriptionRow
  jobs : List Job
  dlq : List DlqRow
  fresh : Nat

def init : State := ⟨[], [], [], 0⟩

inductive Action where
  | create (new : Subscription) (createdAt : Nat)
  | patch (patch : Subscription)
  | delete (id : Nat)
  | drift (endpointId newVersion : Nat) (severity : Compatibility) (event : Payload)
  | poll (i : Nat)
  | fail (i : Nat) (failedAt failureReason : String) (attemptCount : Nat)

def createSubscription (s : State) (new : Subscription) (createdAt : Nat) : State :=
  { s with
    subscriptions := s.subscriptions ++ [⟨{ new with id := s.fresh }, createdAt⟩]
    fresh := s.fresh + 1 }

def patchRow (patch : Subscription) (row : SubscriptionRow) : SubscriptionRow :=
  if row.subscription.id = patch.id then
    { row with subscription := DeliverySystem.updateSubscription row.subscription patch }
  else row

/-- The deliveries of an event to the subscriptions that it affects. -/
def jobsFor (s : State) (endpointId newVersion : Nat) (severity : Compatibility) (event : Payload) :
    List Job :=
  (selectAffectedSubscriptions (s.subscriptions.map SubscriptionRow.subscription) endpointId newVersion
    severity).map fun sub =>
      { eventId := s.fresh, endpointId, subscription := sub, event, payload := event.json }

def findRow (subscriptions : List SubscriptionRow) (id : Nat) : Option SubscriptionRow :=
  subscriptions.find? (fun row => row.subscription.id = id)

/-- An entry is there for the event and the consumer. -/
def lettered (dlq : List DlqRow) (job : Job) : Bool :=
  dlq.any (fun e => e.eventId = job.eventId && e.consumerId = job.subscription.consumerId)

def newEntry (id : Nat) (job : Job) (payload : Json) (failureReason : String) (attemptCount : Nat) :
    DlqRow where
  id := id
  eventId := job.eventId
  consumerId := job.subscription.consumerId
  endpointId := job.endpointId
  targetUrl := job.subscription.targetUrl
  payload := payload
  failureReason := failureReason
  attemptCount := attemptCount

/-- What `ON CONFLICT (event_id, consumer_id) DO UPDATE` sets. -/
def updateEntry (job : Job) (failureReason : String) (attemptCount : Nat) (e : DlqRow) : DlqRow :=
  if e.eventId = job.eventId && e.consumerId = job.subscription.consumerId then
    { e with failureReason, attemptCount := max e.attemptCount attemptCount }
  else e

def upsertDlq (s : State) (job : Job) (payload : Json) (failureReason : String)
    (attemptCount : Nat) :
    List DlqRow :=
  if lettered s.dlq job then s.dlq.map (updateEntry job failureReason attemptCount)
  else s.dlq ++ [newEntry s.fresh job payload failureReason attemptCount]

/-- The entry without its id, with the payload as the delivery machine describes it. -/
def toEntry (describe : Json → EventPayload) (row : DlqRow) : DlqEntry where
  eventId := row.eventId
  consumerId := row.consumerId
  endpointId := row.endpointId
  targetUrl := row.targetUrl
  payload := describe row.payload
  failureReason := row.failureReason
  attemptCount := row.attemptCount

/-- The upsert is that of the delivery machine, however the payloads are described there. -/
theorem map_upsertDlq (describe : Json → EventPayload) (s : State) (job : Job) (payload : Json)
    (failureReason : String) (attemptCount : Nat) :
    (upsertDlq s job payload failureReason attemptCount).map (toEntry describe) =
      Webhook.upsertDlq (s.dlq.map (toEntry describe))
        (toEntry describe (newEntry s.fresh job payload failureReason attemptCount)) := by
  rw [upsertDlq, Webhook.upsertDlq, List.any_map]
  change _ = if lettered s.dlq job then _ else _
  split
  · rw [List.map_map, List.map_map]
    refine List.map_congr_left fun row _ => ?_
    rw [Function.comp_apply, updateEntry, apply_ite (toEntry describe)]
    rfl
  · rw [List.map_append, List.map_singleton]

/-- Subscriptions come, change and go; an event is queued for those it affects, a worker reads the
subscription of a delivery and the payload again, and a delivery fails for good. -/
def step (jsonb : Json → Option Json) (s : State) : Action → Option State
  | .create new createdAt => some (createSubscription s new createdAt)
  | .patch patch => some { s with subscriptions := s.subscriptions.map (patchRow patch) }
  | .delete id =>
    some { s with subscriptions := s.subscriptions.filter (fun row => row.subscription.id ≠ id) }
  | .drift endpointId newVersion severity event =>
    if (jsonb event.json).isSome then
      some { s with
        jobs := s.jobs ++ jobsFor s endpointId newVersion severity event
        fresh := s.fresh + 1 }
    else none
  | .poll i =>
    match s.jobs[i]? with
    | none => none
    | some job =>
      match findRow s.subscriptions job.subscription.id, jsonb job.event.json with
      | some row, some payload =>
        some { s with jobs := s.jobs ++ [{ job with subscription := row.subscription, payload }] }
      | _, _ => none
  | .fail i failedAt failureReason attemptCount =>
    match s.jobs[i]? with
    | none => none
    | some job =>
      (jsonb (wrap job.payload failedAt)).map fun payload =>
        { s with dlq := upsertDlq s job payload failureReason attemptCount, fresh := s.fresh + 1 }

/-- The entry that a failure makes, and the delivery that has failed. -/
def produced (s : State) : Action → List (Nat × Job)
  | .fail i _ _ _ =>
    match s.jobs[i]? with
    | none => []
    | some job => if lettered s.dlq job then [] else [(s.fresh, job)]
  | .create _ _ | .patch _ | .delete _ | .drift _ _ _ _ | .poll _ => []

/-- The replay posts the event's payload to the subscription of the delivery, at its url of now;
without that subscription it posts nothing. -/
def Right (jsonb : Json → Option Json) (subscriptions : List SubscriptionRow) (job : Job)
    (r : ReplayResult) : Prop :=
  match findRow subscriptions job.subscription.id with
  | some row =>
    ∃ posts artifact, r = .delivered row.subscription posts artifact ∧
      ∀ post ∈ posts, post.1 = row.subscription.targetUrl ∧ jsonb job.event.json = some post.2
  | none => r = .subscriptionNotFound

/-- The subscriptions of the consumer of a delivery to its endpoint. -/
def siblings (subscriptions : List SubscriptionRow) (job : Job) : List SubscriptionRow :=
  subscriptions.filter (fun row =>
    row.subscription.endpointId = job.endpointId &&
      row.subscription.consumerId = job.subscription.consumerId)

/-- The subscription of the delivery is newer than any other of its consumer to the endpoint; or it
is gone, and there is no other. -/
def OnlyNewest (subscriptions : List SubscriptionRow) (job : Job) : Prop :=
  match findRow subscriptions job.subscription.id with
  | some row =>
    ∀ other ∈ siblings subscriptions job, other.subscription.id ≠ job.subscription.id →
      other.createdAt < row.createdAt
  | none => siblings subscriptions job = []

section Invariant

/-- What no UPDATE changes of a subscription. -/
def SameOwner (s t : Subscription) : Prop :=
  s.id = t.id ∧ s.consumerId = t.consumerId ∧ s.endpointId = t.endpointId

structure JobOk (jsonb : Json → Option Json) (s : State) (job : Job) : Prop where
  endpoint : job.subscription.endpointId = job.endpointId
  old : job.subscription.id < s.fresh
  owner : ∀ row ∈ s.subscriptions, row.subscription.id = job.subscription.id →
    SameOwner row.subscription job.subscription
  payload : PayloadOf jsonb job.event job.payload
  accepted : (jsonb job.event.json).isSome

/-- An entry is made of a failed delivery. -/
structure EntryOf (jsonb : Json → Option Json) (e : DlqRow) (job : Job) : Prop where
  consumer : e.consumerId = job.subscription.consumerId
  endpoint : e.endpointId = job.endpointId
  payload : jsonb job.event.json = some (postedPayload e.payload)

structure Inv (jsonb : Json → Option Json) (p : State × List (Nat × Job)) : Prop where
  ids : (p.1.subscriptions.map (fun row => row.subscription.id)).Nodup
  old : ∀ row ∈ p.1.subscriptions, row.subscription.id < p.1.fresh
  jobs : ∀ job ∈ p.1.jobs, JobOk jsonb p.1 job
  entryIds : (p.1.dlq.map DlqRow.id).Nodup
  entryOld : ∀ e ∈ p.1.dlq, e.id < p.1.fresh
  producers : ∀ m ∈ p.2, JobOk jsonb p.1 m.2
  entries : ∀ m ∈ p.2, ∃ e ∈ p.1.dlq, e.id = m.1 ∧ EntryOf jsonb e m.2
  marked : ∀ e ∈ p.1.dlq, ∃ job, (e.id, job) ∈ p.2

theorem inv_init (jsonb : Json → Option Json) : Inv jsonb (init, []) where
  ids := List.nodup_nil
  old _ h := absurd h List.not_mem_nil
  jobs _ h := absurd h List.not_mem_nil
  entryIds := List.nodup_nil
  entryOld _ h := absurd h List.not_mem_nil
  producers _ h := absurd h List.not_mem_nil
  entries _ h := absurd h List.not_mem_nil
  marked _ h := absurd h List.not_mem_nil

variable {jsonb : Json → Option Json} {s s' : State} {trace : List (Nat × Job)} {job : Job}

/-- The rows of a later state are those of an earlier one, with the same owners, or new. -/
structure Keeps (s s' : State) : Prop where
  fresh : s.fresh ≤ s'.fresh
  rows : ∀ row' ∈ s'.subscriptions, row'.subscription.id < s.fresh →
    ∃ row ∈ s.subscriptions, SameOwner row'.subscription row.subscription

theorem SameOwner.refl (s : Subscription) : SameOwner s s := ⟨rfl, rfl, rfl⟩

theorem SameOwner.trans {s t u : Subscription} (h : SameOwner s t) (h' : SameOwner t u) :
    SameOwner s u :=
  ⟨h.1.trans h'.1, h.2.1.trans h'.2.1, h.2.2.trans h'.2.2⟩

theorem keeps_rows (hfresh : s.fresh ≤ s'.fresh) (hrows : s'.subscriptions = s.subscriptions) :
    Keeps s s' where
  fresh := hfresh
  rows row hrow _ := ⟨row, hrows ▸ hrow, .refl _⟩

theorem JobOk.mono (h : JobOk jsonb s job) (hk : Keeps s s') : JobOk jsonb s' job where
  endpoint := h.endpoint
  old := h.old.trans_le hk.fresh
  owner row' hrow' hid := by
    obtain ⟨row, hrow, hsame⟩ := hk.rows row' hrow' (hid ▸ h.old)
    exact hsame.trans (h.owner row hrow (hsame.1.symm.trans hid))
  payload := h.payload
  accepted := h.accepted

theorem sameOwner_patchRow (patch : Subscription) (row : SubscriptionRow) :
    SameOwner (patchRow patch row).subscription row.subscription := by
  rw [patchRow]
  split
  · exact ⟨rfl, rfl, rfl⟩
  · exact .refl _

theorem keeps_create (s : State) (new : Subscription) (createdAt : Nat) :
    Keeps s (createSubscription s new createdAt) where
  fresh := Nat.le_succ _
  rows row hrow hid := by
    obtain hrow | hrow := List.mem_append.mp hrow
    · exact ⟨row, hrow, .refl _⟩
    · rw [List.mem_singleton.mp hrow] at hid
      exact absurd hid (Nat.lt_irrefl _)

/-- The subscriptions change, and nothing else does. -/
theorem Inv.setRows (h : Inv jsonb (s, trace)) {subscriptions : List SubscriptionRow} {fresh : Nat}
    (hk : Keeps s { s with subscriptions, fresh })
    (hids : (subscriptions.map (fun row => row.subscription.id)).Nodup)
    (hold : ∀ row ∈ subscriptions, row.subscription.id < fresh) :
    Inv jsonb ({ s with subscriptions, fresh }, trace) where
  ids := hids
  old := hold
  jobs job hjob := (h.jobs job hjob).mono hk
  entryIds := h.entryIds
  entryOld e he := (h.entryOld e he).trans_le hk.fresh
  producers m hm := (h.producers m hm).mono hk
  entries := h.entries
  marked := h.marked

theorem inv_create (h : Inv jsonb (s, trace)) (new : Subscription) (createdAt : Nat) :
    Inv jsonb (createSubscription s new createdAt, trace) := by
  have hold : ∀ row ∈ s.subscriptions, row.subscription.id < s.fresh := h.old
  refine h.setRows (keeps_create s new createdAt) ?_ ?_
  · exact Keyed.nodup_map_concat h.ids fun row hrow => (hold row hrow).ne
  · exact forall_mem_concat (fun row hrow => (hold row hrow).trans (Nat.lt_succ_self _)) (Nat.lt_succ_self _)

theorem inv_patch (h : Inv jsonb (s, trace)) (patch : Subscription) :
    Inv jsonb ({ s with subscriptions := s.subscriptions.map (patchRow patch) }, trace) := by
  refine h.setRows ⟨le_rfl, fun row hrow _ => ?_⟩ ?_ fun row hrow => ?_
  · obtain ⟨old, hold, rfl⟩ := List.mem_map.mp hrow
    exact ⟨old, hold, sameOwner_patchRow patch old⟩
  · have hids : (s.subscriptions.map (patchRow patch)).map (fun row => row.subscription.id) =
        s.subscriptions.map (fun row => row.subscription.id) := by
      rw [List.map_map]
      exact List.map_congr_left fun row _ => (sameOwner_patchRow patch row).1
    rw [hids]
    exact h.ids
  · obtain ⟨old, hold, rfl⟩ := List.mem_map.mp hrow
    rw [(sameOwner_patchRow patch old).1]
    exact h.old old hold

theorem inv_delete (h : Inv jsonb (s, trace)) (id : Nat) :
    Inv jsonb ({ s with subscriptions := s.subscriptions.filter (fun row => row.subscription.id ≠ id) },
      trace) := by
  refine h.setRows ⟨le_rfl, fun row hrow _ => ⟨row, List.mem_of_mem_filter hrow, .refl _⟩⟩ ?_ fun row hrow => ?_
  · exact h.ids.sublist (List.filter_sublist.map _)
  · exact h.old row (List.mem_of_mem_filter hrow)

theorem Inv.addJobs (h : Inv jsonb (s, trace)) {new : List Job} {fresh : Nat}
    (hfresh : s.fresh ≤ fresh)
    (hnew : ∀ job ∈ new, JobOk jsonb s job) :
    Inv jsonb ({ s with jobs := s.jobs ++ new, fresh }, trace) := by
  have hk : Keeps s { s with jobs := s.jobs ++ new, fresh } := keeps_rows hfresh rfl
  exact {
    ids := h.ids
    old := fun row hrow => (h.old row hrow).trans_le hfresh
    jobs := List.forall_mem_append.mpr
      ⟨fun job hjob => (h.jobs job hjob).mono hk, fun job hjob => (hnew job hjob).mono hk⟩
    entryIds := h.entryIds
    entryOld := fun e he => (h.entryOld e he).trans_le hfresh
    producers := fun m hm => (h.producers m hm).mono hk
    entries := h.entries
    marked := h.marked }

theorem eq_of_id (h : (s.subscriptions.map (fun row => row.subscription.id)).Nodup)
    {row row' : SubscriptionRow} (hrow : row ∈ s.subscriptions) (hrow' : row' ∈ s.subscriptions)
    (hid : row.subscription.id = row'.subscription.id) : row = row' :=
  List.inj_on_of_nodup_map h hrow hrow' hid

/-- A delivery to a subscription that is there. -/
theorem jobOk_of_mem (h : Inv jsonb (s, trace)) {row : SubscriptionRow}
    (hrow : row ∈ s.subscriptions)
    {eventId : Nat} {event : Payload} {payload : Json} (hpayload : PayloadOf jsonb event payload)
    (haccepted : (jsonb event.json).isSome) :
    JobOk jsonb s ⟨eventId, row.subscription.endpointId, row.subscription, event, payload⟩ where
  endpoint := rfl
  old := h.old row hrow
  owner row' hrow' hid := by
    rw [eq_of_id h.ids hrow' hrow hid]
    exact .refl _
  payload := hpayload
  accepted := haccepted

theorem inv_drift (h : Inv jsonb (s, trace)) {event : Payload}
    (haccepted : (jsonb event.json).isSome)
    (endpointId newVersion : Nat) (severity : Compatibility) :
    Inv jsonb ({ s with
      jobs := s.jobs ++ jobsFor s endpointId newVersion severity event
      fresh := s.fresh + 1 }, trace) := by
  refine h.addJobs (Nat.le_succ _) fun job hjob => ?_
  obtain ⟨sub, hsub, rfl⟩ := List.mem_map.mp hjob
  obtain ⟨hmem, haffected⟩ := List.mem_filter.mp hsub
  obtain ⟨row, hrow, rfl⟩ := List.mem_map.mp hmem
  simp only [Bool.and_eq_true, decide_eq_true_eq] at haffected
  obtain ⟨⟨⟨rfl, -⟩, -⟩, -⟩ := haffected
  exact jobOk_of_mem h hrow (payloadOf_json jsonb event) haccepted

theorem findRow_eq_some {subscriptions : List SubscriptionRow} {id : Nat} {row : SubscriptionRow}
    (h : findRow subscriptions id = some row) : row ∈ subscriptions ∧ row.subscription.id = id :=
  Keyed.mem_of_find?_key h

theorem inv_poll (hjsonb : JsonbLaws jsonb) (h : Inv jsonb (s, trace)) {job : Job}
    (hjob : job ∈ s.jobs)
    {row : SubscriptionRow} {payload : Json}
    (hfind : findRow s.subscriptions job.subscription.id = some row)
    (hpayload : jsonb job.event.json = some payload) :
    Inv jsonb ({ s with jobs := s.jobs ++ [{ job with subscription := row.subscription, payload }] },
      trace) := by
  have hok : JobOk jsonb s job := h.jobs job hjob
  obtain ⟨hrow, hid⟩ := findRow_eq_some hfind
  have hendpoint : row.subscription.endpointId = job.endpointId :=
    (hok.owner row hrow hid).2.2.trans hok.endpoint
  refine h.addJobs le_rfl (List.forall_mem_singleton.mpr ?_)
  rw [← hendpoint]
  exact jobOk_of_mem h hrow (payloadOf_stored hjsonb hpayload) hok.accepted

theorem entryOf_updateEntry {e : DlqRow} {job' : Job} (h : EntryOf jsonb e job)
    (failureReason : String)
    (attemptCount : Nat) : EntryOf jsonb (updateEntry job' failureReason attemptCount e) job := by
  rw [updateEntry]
  split
  · exact ⟨h.consumer, h.endpoint, h.payload⟩
  · exact h

theorem updateEntry_id (job : Job) (failureReason : String) (attemptCount : Nat) (e : DlqRow) :
    (updateEntry job failureReason attemptCount e).id = e.id := by
  rw [updateEntry]
  split <;> rfl

theorem inv_updateEntry (h : Inv jsonb (s, trace)) (job : Job) (failureReason : String)
    (attemptCount : Nat) :
    Inv jsonb ({ s with
      dlq := s.dlq.map (updateEntry job failureReason attemptCount)
      fresh := s.fresh + 1 }, trace) := by
  have hk : Keeps s { s with
      dlq := s.dlq.map (updateEntry job failureReason attemptCount)
      fresh := s.fresh + 1 } := keeps_rows (Nat.le_succ _) rfl
  refine {
    ids := h.ids
    old := fun row hrow => (h.old row hrow).trans (Nat.lt_succ_self _)
    jobs := fun job hjob => (h.jobs job hjob).mono hk
    entryIds := ?_
    entryOld := List.forall_mem_map.mpr fun e he => ?_
    producers := fun m hm => (h.producers m hm).mono hk
    entries := fun m hm => ?_
    marked := List.forall_mem_map.mpr fun e he => ?_ }
  · rw [List.map_map, show DlqRow.id ∘ updateEntry job failureReason attemptCount = DlqRow.id from
      funext (updateEntry_id job failureReason attemptCount)]
    exact h.entryIds
  · rw [updateEntry_id]
    exact (h.entryOld e he).trans (Nat.lt_succ_self _)
  · obtain ⟨e, he, hid, hentry⟩ := h.entries m hm
    exact ⟨_, List.mem_map_of_mem he, (updateEntry_id _ _ _ e).trans hid,
      entryOf_updateEntry hentry failureReason attemptCount⟩
  · rw [updateEntry_id]
    exact h.marked e he

theorem inv_newEntry (hjsonb : JsonbLaws jsonb) (h : Inv jsonb (s, trace)) {job : Job}
    (hjob : job ∈ s.jobs)
    {failedAt : String} {payload : Json}
    (hpayload : jsonb (wrap job.payload failedAt) = some payload)
    (failureReason : String) (attemptCount : Nat) :
    Inv jsonb ({ s with
      dlq := s.dlq ++ [newEntry s.fresh job payload failureReason attemptCount]
      fresh := s.fresh + 1 }, trace ++ [(s.fresh, job)]) := by
  have hok : JobOk jsonb s job := h.jobs job hjob
  have hold : ∀ e ∈ s.dlq, e.id < s.fresh := h.entryOld
  have hk : Keeps s { s with
      dlq := s.dlq ++ [newEntry s.fresh job payload failureReason attemptCount]
      fresh := s.fresh + 1 } := keeps_rows (Nat.le_succ _) rfl
  have hentry : EntryOf jsonb (newEntry s.fresh job payload failureReason attemptCount) job :=
    ⟨rfl, rfl, jsonb_postedPayload hjsonb hok.accepted hok.payload hpayload⟩
  refine {
    ids := h.ids
    old := fun row hrow => (h.old row hrow).trans (Nat.lt_succ_self _)
    jobs := fun job hjob => (h.jobs job hjob).mono hk
    entryIds := ?_
    entryOld := forall_mem_concat (fun e he => (hold e he).trans (Nat.lt_succ_self _)) (Nat.lt_succ_self _)
    producers := forall_mem_concat (fun m hm => (h.producers m hm).mono hk) (hok.mono hk)
    entries := forall_mem_concat (fun m hm => ?_)
      ⟨_, List.mem_append_right _ (List.mem_singleton.mpr rfl), rfl, hentry⟩
    marked := forall_mem_concat (fun e he => ?_)
      ⟨job, List.mem_append_right _ (List.mem_singleton.mpr rfl)⟩ }
  · exact Keyed.nodup_map_concat h.entryIds fun e he => (hold e he).ne
  · obtain ⟨e, he, hid, hof⟩ := h.entries m hm
    exact ⟨e, List.mem_append_left _ he, hid, hof⟩
  · obtain ⟨job', hjob'⟩ := h.marked e he
    exact ⟨job', List.mem_append_left _ hjob'⟩

theorem inv_step (hjsonb : JsonbLaws jsonb) {p p' : State × List (Nat × Job)} {a : Action}
    (h : Inv jsonb p) (hstep : traced (step jsonb) produced p a = some p') : Inv jsonb p' := by
  obtain ⟨s, trace⟩ := p
  obtain ⟨s', hs, rfl⟩ := Option.map_eq_some_iff.mp hstep
  cases a with
  | create new createdAt =>
    cases hs
    rw [produced, List.append_nil]
    exact inv_create h new createdAt
  | patch patch =>
    cases hs
    rw [produced, List.append_nil]
    exact inv_patch h patch
  | delete id =>
    cases hs
    rw [produced, List.append_nil]
    exact inv_delete h id
  | drift endpointId newVersion severity event =>
    simp only [step] at hs
    split at hs
    · next haccepted =>
      cases hs
      rw [produced, List.append_nil]
      exact inv_drift h haccepted endpointId newVersion severity
    · cases hs
  | poll i =>
    simp only [step] at hs
    split at hs
    · cases hs
    · next job hjob =>
      split at hs
      · next row payload hfind hpayload =>
        cases hs
        rw [produced, List.append_nil]
        exact inv_poll hjsonb h (List.mem_of_getElem? hjob) hfind hpayload
      · cases hs
  | fail i failedAt failureReason attemptCount =>
    simp only [step] at hs
    split at hs
    · cases hs
    · next job hjob =>
      obtain ⟨payload, hpayload, rfl⟩ := Option.map_eq_some_iff.mp hs
      simp only [produced, hjob, upsertDlq]
      split
      · rw [List.append_nil]
        exact inv_updateEntry h job failureReason attemptCount
      · exact inv_newEntry hjsonb h (List.mem_of_getElem? hjob) hpayload failureReason attemptCount

theorem inv_reachable (hjsonb : JsonbLaws jsonb) {p : State × List (Nat × Job)}
    (h : Reachable (traced (step jsonb) produced) always (init, []) p) : Inv jsonb p :=
  h.invariant (inv_init jsonb) fun _ _ _ hinv _ hstep => inv_step hjsonb hinv hstep

end Invariant

section Replay

variable {jsonb : Json → Option Json} {s : State} {trace : List (Nat × Job)} {job : Job} {e : DlqRow}
  {row : SubscriptionRow}

theorem mem_siblings {subscriptions : List SubscriptionRow} : row ∈ siblings subscriptions job ↔
    row ∈ subscriptions ∧ row.subscription.endpointId = job.endpointId ∧
      row.subscription.consumerId = job.subscription.consumerId := by
  rw [siblings, List.mem_filter, Bool.and_eq_true, decide_eq_true_eq, decide_eq_true_eq]

theorem filter_matchesEntry (h : EntryOf jsonb e job) (subscriptions : List SubscriptionRow) :
    subscriptions.filter (matchesEntry e) = siblings subscriptions job := by
  refine List.filter_congr fun row _ => ?_
  rw [matchesEntry, h.endpoint, h.consumer]

/-- The results of replaying the entry of a delivery. -/
theorem exists_entry (h : Inv jsonb (s, trace)) {id : Nat} (hm : (id, job) ∈ trace) :
    ∃ e, EntryOf jsonb e job ∧ ∀ outcome r, r ∈ replayDlqEntry s.subscriptions s.dlq id outcome ↔
      (siblings s.subscriptions job = [] ∧ r = .subscriptionNotFound) ∨
        ∃ row ∈ newest (siblings s.subscriptions job), r = deliverTo e outcome row.subscription := by
  obtain ⟨e, he, rfl, hof⟩ := h.entries _ hm
  refine ⟨e, hof, fun outcome r => ?_⟩
  rw [mem_replayDlqEntry (Keyed.find?_key h.entryIds he), filter_matchesEntry hof]

/-- The subscription of a delivery, while it is there, is one of its consumer to the endpoint. -/
theorem mem_siblings_of_findRow (h : JobOk jsonb s job)
    (hfind : findRow s.subscriptions job.subscription.id = some row) :
    row ∈ siblings s.subscriptions job := by
  obtain ⟨hrow, hid⟩ := findRow_eq_some hfind
  obtain ⟨-, hconsumer, hendpoint⟩ := h.owner row hrow hid
  exact mem_siblings.mpr ⟨hrow, hendpoint.trans h.endpoint, hconsumer⟩

theorem right_deliverTo (h : EntryOf jsonb e job)
    (hfind : findRow s.subscriptions job.subscription.id = some row) (outcome : Outcome) :
    Right jsonb s.subscriptions job (deliverTo e outcome row.subscription) := by
  simp only [Right, hfind]
  refine ⟨_, _, rfl, fun post hpost => ?_⟩
  split at hpost
  · rw [List.mem_singleton.mp hpost]
    exact ⟨rfl, h.payload⟩
  · cases hpost

/-- A replay that delivers to another subscription is not right. -/
theorem eq_of_right (hids : (s.subscriptions.map (fun row => row.subscription.id)).Nodup)
    (hfind : findRow s.subscriptions job.subscription.id = some row) {other : SubscriptionRow}
    (hother : other ∈ s.subscriptions) {outcome : Outcome}
    (h : Right jsonb s.subscriptions job (deliverTo e outcome other.subscription)) :
    other = row := by
  simp only [Right, hfind] at h
  obtain ⟨posts, artifact, heq, -⟩ := h
  rw [deliverTo, ReplayResult.delivered.injEq] at heq
  exact eq_of_id hids hother (findRow_eq_some hfind).1 (congrArg Subscription.id heq.1)

theorem right_of_onlyNewest (h : Inv jsonb (s, trace)) {id : Nat} (hm : (id, job) ∈ trace)
    (honly : OnlyNewest s.subscriptions job) {outcome : Outcome} {r : ReplayResult}
    (hr : r ∈ replayDlqEntry s.subscriptions s.dlq id outcome) :
    Right jsonb s.subscriptions job r := by
  obtain ⟨e, hof, hreplay⟩ := exists_entry h hm
  have hr := (hreplay outcome r).mp hr
  cases hfind : findRow s.subscriptions job.subscription.id with
  | none =>
    simp only [OnlyNewest, hfind] at honly
    simp only [Right, hfind]
    obtain ⟨-, hr⟩ | ⟨row, hrow, -⟩ := hr
    · exact hr
    · rw [honly] at hrow
      cases hrow
  | some row =>
    have hmem : row ∈ siblings s.subscriptions job := mem_siblings_of_findRow (h.producers _ hm) hfind
    obtain ⟨hnil, -⟩ | ⟨other, hother, rfl⟩ := hr
    · rw [hnil] at hmem
      cases hmem
    · simp only [OnlyNewest, hfind] at honly
      obtain ⟨hsibling, hnewest⟩ := mem_newest.mp hother
      have hid : other.subscription.id = job.subscription.id := by
        by_contra hne
        exact Nat.not_lt.mpr (hnewest row hmem) (honly other hsibling hne)
      have heq : other = row := eq_of_id h.ids (mem_siblings.mp hsibling).1 (findRow_eq_some hfind).1
        (hid.trans (findRow_eq_some hfind).2.symm)
      rw [heq]
      exact right_deliverTo hof hfind outcome

theorem onlyNewest_of_right (h : Inv jsonb (s, trace)) {id : Nat} (hm : (id, job) ∈ trace)
    {outcome : Outcome}
    (hright : ∀ r ∈ replayDlqEntry s.subscriptions s.dlq id outcome, Right jsonb s.subscriptions job r) :
    OnlyNewest s.subscriptions job := by
  obtain ⟨e, hof, hreplay⟩ := exists_entry h hm
  have hdelivered : ∀ row ∈ newest (siblings s.subscriptions job),
      Right jsonb s.subscriptions job (deliverTo e outcome row.subscription) :=
    fun row hrow => hright _ ((hreplay outcome _).mpr (.inr ⟨row, hrow, rfl⟩))
  cases hfind : findRow s.subscriptions job.subscription.id with
  | none =>
    simp only [OnlyNewest, hfind]
    by_contra hne
    obtain ⟨row, hrow⟩ := exists_newest hne
    have hr := hdelivered row hrow
    simp only [Right, hfind] at hr
    cases hr
  | some row =>
    have heq : ∀ other ∈ newest (siblings s.subscriptions job), other = row := fun other hother =>
      eq_of_right h.ids hfind (mem_siblings.mp (mem_newest.mp hother).1).1 (hdelivered other hother)
    have hmem : row ∈ siblings s.subscriptions job := mem_siblings_of_findRow (h.producers _ hm) hfind
    obtain ⟨best, hbest⟩ := exists_newest (List.ne_nil_of_mem hmem)
    obtain rfl := heq best hbest
    obtain ⟨-, hall⟩ := mem_newest.mp hbest
    simp only [OnlyNewest, hfind]
    intro other hother hid
    refine lt_of_le_of_ne (hall other hother) fun hcreated => hid ?_
    have hnewest : other ∈ newest (siblings s.subscriptions job) :=
      mem_newest.mpr ⟨hother, fun row hrow => hcreated ▸ hall row hrow⟩
    rw [heq other hnewest]
    exact (findRow_eq_some hfind).2

end Replay

/-- Every entry has a delivery that has produced it. -/
theorem exists_producer {jsonb : Json → Option Json} (hjsonb : JsonbLaws jsonb)
    {p : State × List (Nat × Job)}
    (h : Reachable (traced (step jsonb) produced) always (init, []) p)
    {e : DlqRow} (he : e ∈ p.1.dlq) : ∃ job, (e.id, job) ∈ p.2 :=
  (inv_reachable hjsonb h).marked e he

/-- A replay posts the event again to the subscription whose delivery has failed, and to nobody
when that is gone, exactly when no other subscription of the consumer comes first. -/
theorem replay_right_iff (jsonb : Json → Option Json) (hjsonb : JsonbLaws jsonb)
    (p : State × List (Nat × Job))
    (h : Reachable (traced (step jsonb) produced) always (init, []) p)
    (id : Nat) (job : Job) (hm : (id, job) ∈ p.2) :
    (∀ outcome, ∀ r ∈ replayDlqEntry p.1.subscriptions p.1.dlq id outcome,
        Right jsonb p.1.subscriptions job r) ↔ OnlyNewest p.1.subscriptions job := by
  have hinv : Inv jsonb p := inv_reachable hjsonb h
  constructor
  · intro hright
    exact onlyNewest_of_right hinv hm (hright (.raised ""))
  · intro honly outcome r hr
    exact right_of_onlyNewest hinv hm honly hr

theorem jsonbLaws_some : JsonbLaws some where
  obj fields _ _ h := ⟨fields, (Option.some.inj h).symm, fun _ => rfl⟩
  idem _ _ _ h := h ▸ h
  wf _ _ hv h := Option.some.inj h ▸ hv

/-- An event, with its members as JSONB orders them. -/
def sampleEvent : Payload where
  fields := [("diffs", .arr []), ("event_id", .str "1"), ("endpoint_id", .str "0"),
    ("new_version", .num (.int 2)), ("classification", .str "BREAKING")]
  wf := by decide

def subscriptionTo (targetUrl : String) : Subscription where
  id := 0
  consumerId := "billing"
  endpointId := 0
  targetUrl := targetUrl
  severityThreshold := "SAFE"
  schemaVersion := none
  active := true

/-- A subscription, an event, and a delivery that fails. -/
def failedRun : List Action :=
  [.create (subscriptionTo "http://consumer/first") 1, .drift 0 2 .BREAKING sampleEvent,
    .fail 0 "2026-01-01T00:00:00+00:00" "HTTP 500" 1]

/-- The only subscription, whose url is patched after the failure. -/
theorem replay_right_iff_patched :
    ∃ p, run (traced (step some) produced) always (init, [])
        (failedRun ++ [.patch (subscriptionTo "http://consumer/moved")]) = some p ∧
      ∃ job, (2, job) ∈ p.2 ∧ job.subscription.targetUrl = "http://consumer/first" ∧
        ∀ outcome, ∀ r ∈ replayDlqEntry p.1.subscriptions p.1.dlq 2 outcome,
          Right some p.1.subscriptions job r := by
  have hrun : (run (traced (step some) produced) always (init, [])
      (failedRun ++ [.patch (subscriptionTo "http://consumer/moved")])).map
      (fun p => (p.1.subscriptions, p.2.map (fun m => (m.1, m.2.subscription)))) =
      some ([⟨subscriptionTo "http://consumer/moved", 1⟩],
        [(2, subscriptionTo "http://consumer/first")]) := by decide +kernel
  obtain ⟨p, hp, hresult⟩ := Option.map_eq_some_iff.mp hrun
  simp only [Prod.mk.injEq, List.map_eq_singleton_iff] at hresult
  obtain ⟨hsubs, ⟨id, job⟩, htrace, rfl, hjob⟩ := hresult
  have hm : (2, job) ∈ p.2 := htrace ▸ List.mem_singleton.mpr rfl
  refine ⟨p, hp, job, hm, congrArg Subscription.targetUrl hjob, ?_⟩
  refine (replay_right_iff some jsonbLaws_some p (reachable_run _ _ .start hp) 2 job hm).mpr ?_
  rw [hsubs, OnlyNewest, hjob]
  intro other hother hid
  have heq := List.mem_singleton.mp (mem_siblings.mp hother).1
  exact absurd (congrArg (fun row => row.subscription.id) heq) hid

/-- A second subscription of the consumer, created after the failure, gets the replay, though the
first one is still there. -/
theorem replay_to_other_subscription :
    ∃ p, run (traced (step some) produced) always (init, [])
        (failedRun ++ [.create (subscriptionTo "http://consumer/second") 2]) = some p ∧
      ∃ job, (2, job) ∈ p.2 ∧ job.subscription = subscriptionTo "http://consumer/first" ∧
        ⟨job.subscription, 1⟩ ∈ p.1.subscriptions ∧
        ∃ r ∈ replayDlqEntry p.1.subscriptions p.1.dlq 2 (.response 200),
          (∃ sub artifact, r = .delivered sub [("http://consumer/second", sampleEvent.json)] artifact) ∧
            ¬Right some p.1.subscriptions job r := by
  have hrun : (run (traced (step some) produced) always (init, [])
      (failedRun ++ [.create (subscriptionTo "http://consumer/second") 2])).map
      (fun p => (p.1.subscriptions, p.2.map (fun m => (m.1, m.2.subscription)),
        replayDlqEntry p.1.subscriptions p.1.dlq 2 (.response 200))) =
      some ([⟨subscriptionTo "http://consumer/first", 1⟩,
          ⟨{ subscriptionTo "http://consumer/second" with id := 3 }, 2⟩],
        [(2, subscriptionTo "http://consumer/first")],
        [.delivered { subscriptionTo "http://consumer/second" with id := 3 }
          [("http://consumer/second", sampleEvent.json)]
          ⟨2, 1, "billing", 0, "http://consumer/first", true, none⟩]) := by decide +kernel
  obtain ⟨p, hp, hresult⟩ := Option.map_eq_some_iff.mp hrun
  simp only [Prod.mk.injEq, List.map_eq_singleton_iff] at hresult
  obtain ⟨hsubs, ⟨⟨id, job⟩, htrace, rfl, hjob⟩, hreplay⟩ := hresult
  have hm : (2, job) ∈ p.2 := htrace ▸ List.mem_singleton.mpr rfl
  refine ⟨p, hp, job, hm, hjob, ?_, _, hreplay ▸ List.mem_singleton.mpr rfl, ⟨_, _, rfl⟩, ?_⟩
  · rw [hsubs, hjob]
    exact List.mem_cons_self
  · rw [hsubs, Right, hjob]
    rintro ⟨posts, artifact, heq, -⟩
    exact absurd (congrArg Subscription.id (ReplayResult.delivered.inj heq).1) (by decide)

end SchemaPilot.ReplayRuns
