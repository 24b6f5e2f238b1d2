import SchemaPilot.OutboxRows

namespace SchemaPilot.DeadLetters

open Webhook OutboxWorker Enqueue Runs DeliverySystem OutboxRows

/-- The POST that a worker is about to send: the outbox row, and the url. -/
def postedByWorker : WorkerPc → List (Nat × String)
  | .deliver item _ sub (.post _) => [(item.id, sub.targetUrl)]
  | _ => []

def postedByCall : CallPc → List (Nat × String)
  | .deliver _ outboxId sub _ (.post _) => [(outboxId, sub.targetUrl)]
  | _ => []

/-- The url that a row was last posted to. -/
def lastPosted (trace : List (Nat × String)) (row : Nat) : Option String :=
  (trace.reverse.find? (fun post => post.1 = row)).map Prod.snd

theorem mem_of_lastPosted {trace : List (Nat × String)} {row : Nat} {url : String}
    (h : lastPosted trace row = some url) : (row, url) ∈ trace := by
  obtain ⟨⟨row', url'⟩, hfind, heq⟩ := Option.map_eq_some_iff.mp h
  obtain ⟨hmem, rfl⟩ := Keyed.mem_of_find?_key hfind
  cases heq
  exact List.mem_reverse.mp hmem

/-- The dead letters have an entry for the event and the consumer of the row, with the url
that the row was last posted to. -/
def InDlqAt (db : Tables) (trace : List (Nat × String)) (row : OutboxRow) : Prop :=
  ∃ e ∈ db.dlq, e.eventId = row.payload.eventId ∧
    consumerOf db.subscriptions row.subscriptionId = some e.consumerId ∧
    ∀ url ∈ lastPosted trace row.id, e.targetUrl = url

def urlOf (subscriptions : List Subscription) (id : Nat) : Option String :=
  (subscriptions.find? (fun s => s.id = id)).map Subscription.targetUrl

/-- A subscription keeps its url when nothing patches it with another one. -/
theorem urlOf_putSubscription {subscriptions : List Subscription} {id : Nat} {url : String}
    (h : urlOf subscriptions id = some url) {new : Subscription}
    (hnew : id = new.id → ∀ s ∈ subscriptions, s.id = new.id → s.targetUrl = new.targetUrl) :
    urlOf (putSubscription subscriptions new) id = some url := by
  obtain ⟨s, hs, rfl⟩ := Option.map_eq_some_iff.mp h
  obtain ⟨hmem, rfl⟩ := Keyed.mem_of_find?_key hs
  rw [urlOf, find?_putSubscription hs, Option.map_some]
  split
  · next heq => exact congrArg some (hnew heq s hmem heq).symm
  · rfl

/-- What no UPDATE changes of an outbox row. -/
structure Stub where
  id : Nat
  subscriptionId : Nat
  eventId : Nat

def stub (row : OutboxRow) : Stub := ⟨row.id, row.subscriptionId, row.payload.eventId⟩

/-- The event and the consumer of a row, which the dead letters are keyed by. -/
def letter (subscriptions : List Subscription) (st : Stub) : Nat × Option String :=
  (st.eventId, consumerOf subscriptions st.subscriptionId)

def Key (subscriptions : List Subscription) (e : DlqEntry) (st : Stub) : Prop :=
  letter subscriptions st = (e.eventId, some e.consumerId)

def SameKey (e e' : DlqEntry) : Prop := e.eventId = e'.eventId ∧ e.consumerId = e'.consumerId

section Dlq

variable {db : Tables} {session : Session} {subscriptions : List Subscription} {e e' : DlqEntry} {st : Stub}

theorem Key.congr (h : Key subscriptions e st) (hsame : SameKey e' e) :
    Key subscriptions e' st := by
  rw [Key, hsame.1, hsame.2]
  exact h

/-- An entry keeps the url that it came with. -/
theorem mem_of_mem_upsertDlq {dlq : List DlqEntry} {new : DlqEntry} (h : e ∈ upsertDlq dlq new) :
    ∃ e', (e' ∈ dlq ∨ e' = new) ∧ SameKey e e' ∧ e.targetUrl = e'.targetUrl := by
  rw [upsertDlq] at h
  split at h
  · obtain ⟨e', he', rfl⟩ := List.mem_map.mp h
    refine ⟨e', .inl he', ?_⟩
    split
    · exact ⟨⟨rfl, rfl⟩, rfl⟩
    · exact ⟨⟨rfl, rfl⟩, rfl⟩
  · exact ⟨e, (List.mem_append.mp h).imp_right List.mem_singleton.mp, ⟨rfl, rfl⟩, rfl⟩

/-- Where the entries of a view come from. -/
theorem mem_of_mem_view_dlq (h : e ∈ (session.view db).dlq) :
    ∃ e', (e' ∈ db.dlq ∨ .upsertDlq e' ∈ session.writes) ∧ SameKey e e' ∧ e.targetUrl = e'.targetUrl := by
  obtain ⟨startedAt, writes, locks⟩ := session
  rw [Session.view] at h
  dsimp only at h ⊢
  induction writes using List.reverseRecOn generalizing e with
  | nil => exact ⟨e, .inl h, ⟨rfl, rfl⟩, rfl⟩
  | append_singleton writes w ih =>
    rw [List.foldl_concat] at h
    cases w with
    | upsertDlq new =>
      obtain ⟨e₁, hmem₁ | rfl, hsame₁, hurl₁⟩ := mem_of_mem_upsertDlq h
      · obtain ⟨e', hmem, hsame, hurl⟩ := ih hmem₁
        exact ⟨e', hmem.imp_right (List.mem_append_left _),
          ⟨hsame₁.1.trans hsame.1, hsame₁.2.trans hsame.2⟩, hurl₁.trans hurl⟩
      · exact ⟨e₁, .inr (List.mem_append_right _ (List.mem_singleton.mpr rfl)), hsame₁, hurl₁⟩
    | setRegistry registry | insertOutbox row | updateOutbox id u | insertAttempt attempt =>
      obtain ⟨e', hmem, hsame, hurl⟩ := ih h
      exact ⟨e', hmem.imp_right (List.mem_append_left _), hsame, hurl⟩

/-- No write takes an entry back. -/
theorem view_dlq_keeps (h : e ∈ db.dlq ∨ .upsertDlq e ∈ session.writes) :
    ∃ e' ∈ (session.view db).dlq, SameKey e' e := by
  obtain ⟨startedAt, writes, locks⟩ := session
  rw [Session.view]
  dsimp only at h ⊢
  induction writes using List.reverseRecOn with
  | nil => exact ⟨e, h.resolve_right List.not_mem_nil, rfl, rfl⟩
  | append_singleton writes w ih =>
    rw [List.foldl_concat]
    rw [List.mem_append, List.mem_singleton, ← or_assoc] at h
    obtain h | rfl := h
    · obtain ⟨e', he', hsame⟩ := ih h
      cases w with
      | upsertDlq new =>
        obtain ⟨e₂, he₂, hevent, hconsumer, -⟩ := upsertDlq_keeps _ new he'
        exact ⟨e₂, he₂, hevent.trans hsame.1, hconsumer.trans hsame.2⟩
      | setRegistry registry | insertOutbox row | updateOutbox id u | insertAttempt attempt =>
        exact ⟨e', he', hsame⟩
    · obtain ⟨e', he', hevent, hconsumer, -⟩ := mem_upsertDlq (writes.foldl Write.apply db).dlq e
      exact ⟨e', he', hevent, hconsumer⟩

/-- The rows of a view have the stubs of the rows there and of those inserted. -/
theorem exists_stub_view : (∃ row ∈ (session.view db).outbox, stub row = st) ↔
    (∃ row ∈ db.outbox, stub row = st) ∨ ∃ row ∈ inserted session.writes, stub row = st :=
  exists_view_iff (P := fun row => stub row = st) (fun _ _ => Iff.rfl) session db

theorem exists_stub_run (h : ∃ row ∈ db.outbox, stub row = st) {clock : Nat} (effect : Effect) :
    ∃ row ∈ (effect.run clock db session).1.outbox, stub row = st := by
  by_cases hcommit : effect = .commit
  · subst hcommit
    exact exists_stub_view.mpr (.inl h)
  · rw [run_outbox hcommit]
    exact h

theorem run_subscriptions {clock : Nat} (effect : Effect) :
    (effect.run clock db session).1.subscriptions = db.subscriptions := by
  by_cases hcommit : effect = .commit
  · subst hcommit
    exact view_subscriptions session db
  · obtain ⟨registry, hdb⟩ := @run_db session db clock effect hcommit
    rw [hdb]

/-- No step takes an entry back. -/
theorem run_dlq_keeps {clock : Nat} (effect : Effect) (he : e ∈ db.dlq) :
    ∃ e' ∈ (effect.run clock db session).1.dlq, SameKey e' e := by
  by_cases hcommit : effect = .commit
  · subst hcommit
    exact view_dlq_keeps (.inl he)
  · obtain ⟨registry, hdb⟩ := @run_db session db clock effect hcommit
    rw [hdb]
    exact ⟨e, he, rfl, rfl⟩

theorem Key.eq_letter {st' : Stub} (h : Key subscriptions e st) (h' : Key subscriptions e st') :
    letter subscriptions st = letter subscriptions st' :=
  Eq.trans h (Eq.symm h')

end Dlq

/-- What the subscription says of itself is what the table says. -/
def Current (subscriptions : List Subscription) (sub : Subscription) : Prop :=
  consumerOf subscriptions sub.id = some sub.consumerId ∧ urlOf subscriptions sub.id = some sub.targetUrl

/-- The entry is one for the row, with the url of its subscription. -/
def EntryFor (subscriptions : List Subscription) (st : Stub) (e : DlqEntry) : Prop :=
  Key subscriptions e st ∧ urlOf subscriptions st.subscriptionId = some e.targetUrl

section Subscriptions

variable {subscriptions : List Subscription} {sub new : Subscription} {id : Nat}

theorem current_of_find (h : subscriptions.find? (fun s => s.id = id) = some sub) :
    sub.id = id ∧ Current subscriptions sub := by
  obtain ⟨-, rfl⟩ := Keyed.mem_of_find?_key h
  refine ⟨rfl, ?_, ?_⟩
  · rw [consumerOf, h]
    rfl
  · rw [urlOf, h]
    rfl

theorem current_of_mem (hnodup : (subscriptions.map Subscription.id).Nodup)
    (h : sub ∈ subscriptions) :
    Current subscriptions sub :=
  (current_of_find (Keyed.find?_key hnodup h)).2

theorem Current.putSubscription (h : Current subscriptions sub)
    (hnew : sub.id = new.id → ∀ s ∈ subscriptions, s.id = new.id → s.targetUrl = new.targetUrl) :
    Current (putSubscription subscriptions new) sub :=
  ⟨consumerOf_putSubscription h.1 new, urlOf_putSubscription h.2 hnew⟩

theorem nodup_putSubscription (h : (subscriptions.map Subscription.id).Nodup) (new : Subscription) :
    ((putSubscription subscriptions new).map Subscription.id).Nodup := by
  rw [putSubscription]
  split
  · have hid : Subscription.id ∘ (fun s => if s.id = new.id then updateSubscription s new else s) =
        Subscription.id := by
      funext s
      rw [Function.comp_apply]
      split <;> rfl
    rw [List.map_map, hid]
    exact h
  · next hnone =>
    refine Keyed.nodup_map_concat h fun s hs heq => hnone ?_
    exact List.any_eq_true.mpr ⟨s, hs, decide_eq_true heq⟩

theorem entryFor_dlqEntry {st : Stub} {d : Delivery} (hevent : st.eventId = d.eventId)
    (hsub : d.subscription.id = st.subscriptionId) (h : Current subscriptions d.subscription)
    (reason : String) (attempt : Nat) : EntryFor subscriptions st (d.dlqEntry reason attempt) := by
  rw [EntryFor, Key, letter, ← hsub, hevent]
  exact ⟨congrArg (Prod.mk d.eventId) h.1, h.2⟩

theorem entryFor_exhausted {item : OutboxRow} (hsub : sub.id = item.subscriptionId)
    (h : Current subscriptions sub) : EntryFor subscriptions (stub item) (exhausted item sub) := by
  have hid : sub.id = (stub item).subscriptionId := hsub
  rw [EntryFor, Key, letter, ← hid]
  exact ⟨congrArg (Prod.mk item.payload.eventId) h.1, h.2⟩

end Subscriptions

/-- The rows of the outbox, committed or not, with the dead letters and the POSTs about them;
and the rows that may still be posted. -/
structure Book (db : Tables) (queued : List Stub) (inHand : Stub → Prop) (trace : List (Nat × String))
    (fresh : Nat) : Prop where
  ids : (queued.map Stub.id).Nodup
  letters : (queued.map (letter db.subscriptions)).Nodup
  lt : ∀ st ∈ queued, st.id < fresh ∧ st.eventId < fresh
  known : ∀ st ∈ queued, (consumerOf db.subscriptions st.subscriptionId).isSome
  committed : ∀ row ∈ db.outbox, stub row ∈ queued
  entries : ∀ e ∈ db.dlq, ∃ row ∈ db.outbox, Key db.subscriptions e (stub row)
  failed : ∀ row ∈ db.outbox, row.status = .FAILED → ∃ e ∈ db.dlq, Key db.subscriptions e (stub row)
  posts_lt : ∀ post ∈ trace, post.1 < fresh
  agree : ∀ st ∈ queued, ∀ url, (st.id, url) ∈ trace →
    ∀ e ∈ db.dlq, Key db.subscriptions e st → e.targetUrl = url
  postedTo : ∀ st ∈ queued, inHand st → ∀ url, (st.id, url) ∈ trace →
    urlOf db.subscriptions st.subscriptionId = some url
  enteredFor : ∀ st ∈ queued, inHand st → ∀ e ∈ db.dlq, Key db.subscriptions e st →
    urlOf db.subscriptions st.subscriptionId = some e.targetUrl

namespace Book

variable {db : Tables} {queued queued' : List Stub} {inHand inHand' : Stub → Prop}
  {trace : List (Nat × String)} {fresh fresh' : Nat} {st st' : Stub}

theorem eq_of_id (h : Book db queued inHand trace fresh) (hst : st ∈ queued) (hst' : st' ∈ queued)
    (hid : st.id = st'.id) : st = st' :=
  List.inj_on_of_nodup_map h.ids hst hst' hid

theorem eq_of_letter (h : Book db queued inHand trace fresh) (hst : st ∈ queued)
    (hst' : st' ∈ queued)
    (hletter : letter db.subscriptions st = letter db.subscriptions st') : st = st' :=
  List.inj_on_of_nodup_map h.letters hst hst' hletter

/-- Fewer rows, and nothing new about them. -/
theorem keep (h : Book db queued inHand trace fresh) {registry : Registry.Db}
    (hqueued : queued'.Sublist queued) (hcommitted : ∀ row ∈ db.outbox, stub row ∈ queued')
    (hhand : ∀ st ∈ queued', inHand' st → inHand st) (hfresh : fresh ≤ fresh') :
    Book { db with registry } queued' inHand' trace fresh' where
  ids := h.ids.sublist (hqueued.map _)
  letters := h.letters.sublist (hqueued.map _)
  lt st hst := by
    obtain ⟨hid, hevent⟩ := h.lt st (hqueued.subset hst)
    exact ⟨hid.trans_le hfresh, hevent.trans_le hfresh⟩
  known st hst := h.known st (hqueued.subset hst)
  committed := hcommitted
  entries := h.entries
  failed := h.failed
  posts_lt post hp := (h.posts_lt post hp).trans_le hfresh
  agree st hst := h.agree st (hqueued.subset hst)
  postedTo st hst hin := h.postedTo st (hqueued.subset hst) (hhand st hst hin)
  enteredFor st hst hin := h.enteredFor st (hqueued.subset hst) (hhand st hst hin)

/-- A POST for a row, to the url of its subscription. -/
theorem post (h : Book db queued inHand trace fresh) (hst : st ∈ queued) (hin : inHand st)
    {url : String}
    (hurl : urlOf db.subscriptions st.subscriptionId = some url) :
    Book db queued inHand (trace ++ [(st.id, url)]) fresh := by
  have hnew : ∀ st' ∈ queued, ∀ url', (st'.id, url') ∈ trace ++ [(st.id, url)] →
      (st'.id, url') ∈ trace ∨ st' = st ∧ url' = url := by
    intro st' hst' url' hmem
    refine (List.mem_append.mp hmem).imp_right fun hlast => ?_
    obtain ⟨hid, hurl⟩ := Prod.mk.inj (List.mem_singleton.mp hlast)
    exact ⟨h.eq_of_id hst' hst hid, hurl⟩
  refine { h with
    posts_lt := forall_mem_concat h.posts_lt (h.lt st hst).1
    agree := fun st' hst' url' hmem e he hkey => ?_
    postedTo := fun st' hst' hin' url' hmem => ?_ }
  · obtain hold | ⟨rfl, rfl⟩ := hnew st' hst' url' hmem
    · exact h.agree st' hst' url' hold e he hkey
    · have hentered := h.enteredFor st' hst hin e he hkey
      rw [hurl] at hentered
      exact (Option.some.inj hentered).symm
  · obtain hold | ⟨rfl, rfl⟩ := hnew st' hst' url' hmem
    · exact h.postedTo st' hst' hin' url' hold
    · exact hurl

/-- The INSERT of a row whose event has none for its consumer yet. -/
theorem insert (h : Book db queued inHand trace fresh) (hid : st.id = fresh)
    (hevent : st.eventId < fresh)
    (hknown : (consumerOf db.subscriptions st.subscriptionId).isSome)
    (hletter : letter db.subscriptions st ∉ queued.map (letter db.subscriptions))
    (hhand : ∀ st' ∈ queued, inHand' st' → inHand st') :
    Book db (queued ++ [st]) inHand' trace (fresh + 1) := by
  have hposts : ∀ url, (st.id, url) ∉ trace := by
    intro url hmem
    have hlt := h.posts_lt _ hmem
    omega
  have hentries : ∀ e ∈ db.dlq, ¬Key db.subscriptions e st := by
    intro e he hkey
    obtain ⟨row, hrow, hkey'⟩ := h.entries e he
    exact hletter (List.mem_map.mpr ⟨stub row, h.committed row hrow, hkey'.eq_letter hkey⟩)
  refine ⟨?_, ?_, ?_, ?_, fun row hrow => List.mem_append_left _ (h.committed row hrow), h.entries,
    h.failed, fun post hp => (h.posts_lt post hp).trans (Nat.lt_succ_self _), ?_, ?_, ?_⟩
  · exact Keyed.nodup_map_concat h.ids fun st' hst' => ((h.lt st' hst').1.trans_eq hid.symm).ne
  · refine Keyed.nodup_map_concat h.letters fun st' hst' heq => hletter ?_
    exact heq ▸ List.mem_map_of_mem hst'
  · refine forall_mem_concat (fun st' hst' => ?_) ⟨?_, ?_⟩
    · obtain ⟨hlt, hlt'⟩ := h.lt st' hst'
      exact ⟨hlt.trans (Nat.lt_succ_self _), hlt'.trans (Nat.lt_succ_self _)⟩
    · exact hid ▸ Nat.lt_succ_self _
    · exact hevent.trans (Nat.lt_succ_self _)
  · exact forall_mem_concat h.known hknown
  · exact forall_mem_concat h.agree fun url hmem => absurd hmem (hposts url)
  · exact forall_mem_concat (fun st' hst' hin => h.postedTo st' hst' (hhand st' hst' hin))
      fun _ url hmem => absurd hmem (hposts url)
  · exact forall_mem_concat (fun st' hst' hin => h.enteredFor st' hst' (hhand st' hst' hin))
      fun _ e he hkey => absurd hkey (hentries e he)

/-- An entry of a view is one that was there, or one for a row in hand, with the url of its
subscription. -/
theorem of_mem_view (h : Book db queued inHand trace fresh) {session : Session}
    (hcommitted : ∀ row ∈ (session.view db).outbox, stub row ∈ queued)
    (hupserts : ∀ e, .upsertDlq e ∈ session.writes → ∃ row ∈ (session.view db).outbox,
      inHand (stub row) ∧ Key db.subscriptions e (stub row) ∧
        urlOf db.subscriptions row.subscriptionId = some e.targetUrl)
    {e : DlqEntry} (he : e ∈ (session.view db).dlq) (hst : st ∈ queued)
    (hkey : Key db.subscriptions e st) :
    (∃ e' ∈ db.dlq, Key db.subscriptions e' st ∧ e.targetUrl = e'.targetUrl) ∨
      inHand st ∧ urlOf db.subscriptions st.subscriptionId = some e.targetUrl := by
  obtain ⟨e', hold | hnew, ⟨hevent, hconsumer⟩, hurl⟩ := mem_of_mem_view_dlq he
  · exact .inl ⟨e', hold, hkey.congr ⟨hevent.symm, hconsumer.symm⟩, hurl⟩
  · obtain ⟨row, hrow, hin, hkey', hurl'⟩ := hupserts e' hnew
    have hkey'' := hkey.congr ⟨hevent.symm, hconsumer.symm⟩
    obtain rfl := h.eq_of_letter hst (hcommitted row hrow) (hkey''.eq_letter hkey')
    exact .inr ⟨hin, hurl ▸ hurl'⟩

/-- The commit of a session whose failed rows have their entries. -/
theorem commit (h : Book db queued inHand trace fresh) {session : Session}
    (hcommitted : ∀ row ∈ (session.view db).outbox, stub row ∈ queued)
    (hupserts : ∀ e, .upsertDlq e ∈ session.writes → ∃ row ∈ (session.view db).outbox,
      inHand (stub row) ∧ Key db.subscriptions e (stub row) ∧
        urlOf db.subscriptions row.subscriptionId = some e.targetUrl)
    (hfailed : ∀ id u, .updateOutbox id u ∈ session.writes → u.status = .FAILED →
      ∀ st ∈ queued, st.id = id →
        ∃ e, (e ∈ db.dlq ∨ .upsertDlq e ∈ session.writes) ∧ Key db.subscriptions e st)
    (hinserted : ∀ row ∈ inserted session.writes, row.status ≠ .FAILED)
    (hhand : ∀ st ∈ queued, inHand' st → inHand st) :
    Book (session.view db) queued inHand' trace fresh := by
  have hsubs := view_subscriptions session db
  have hview := fun st (hst : st ∈ queued) e (he : e ∈ (session.view db).dlq) =>
    h.of_mem_view hcommitted hupserts he hst
  refine ⟨h.ids, hsubs ▸ h.letters, h.lt, hsubs ▸ h.known, hcommitted, fun e he => ?_,
    fun row hrow hstatus => ?_, h.posts_lt, fun st hst url hmem e he hkey => ?_, fun st hst hin => ?_,
    fun st hst hin e he hkey => ?_⟩
  · rw [hsubs]
    obtain ⟨e', hold | hnew, hsame, -⟩ := mem_of_mem_view_dlq he
    · obtain ⟨row, hrow, hkey⟩ := h.entries e' hold
      obtain ⟨row', hrow', heq⟩ := (exists_view_iff (P := fun r => stub r = stub row)
        (fun _ _ => Iff.rfl) session db).mpr (.inl ⟨row, hrow, rfl⟩)
      exact ⟨row', hrow', heq ▸ hkey.congr hsame⟩
    · obtain ⟨row, hrow, -, hkey, -⟩ := hupserts e' hnew
      exact ⟨row, hrow, hkey.congr hsame⟩
  · rw [hsubs]
    have hst := hcommitted row hrow
    have hsource : ∃ e, (e ∈ db.dlq ∨ .upsertDlq e ∈ session.writes) ∧
        Key db.subscriptions e (stub row) := by
      obtain ⟨⟨old, hold, hid, hs⟩, -⟩ | ⟨u, hu, hs⟩ | ⟨new, hnew, -, hs⟩ :=
        hasStatus_view ⟨row, hrow, rfl, hstatus⟩
      · obtain ⟨e, he, hkey⟩ := h.failed old hold hs
        exact ⟨e, .inl he, h.eq_of_id (h.committed old hold) hst hid ▸ hkey⟩
      · exact hfailed row.id u hu hs (stub row) hst rfl
      · exact absurd hs (hinserted new hnew)
    obtain ⟨e, he, hkey⟩ := hsource
    obtain ⟨e', he', hsame⟩ := view_dlq_keeps he
    exact ⟨e', he', hkey.congr hsame⟩
  · rw [hsubs] at hkey
    obtain ⟨e', he', hkey', hurl⟩ | ⟨hin, hurl⟩ := hview st hst e he hkey
    · exact hurl.trans (h.agree st hst url hmem e' he' hkey')
    · have hposted := h.postedTo st hst hin url hmem
      rw [hurl] at hposted
      exact Option.some.inj hposted
  · rw [hsubs]
    exact h.postedTo st hst (hhand st hst hin)
  · rw [hsubs] at hkey ⊢
    obtain ⟨e', he', hkey', hurl⟩ | ⟨-, hurl⟩ := hview st hst e he hkey
    · exact hurl ▸ h.enteredFor st hst (hhand st hst hin) e' he' hkey'
    · exact hurl

theorem letter_putSubscription (h : Book db queued inHand trace fresh) (new : Subscription)
    (hst : st ∈ queued) :
    letter (DeliverySystem.putSubscription db.subscriptions new) st = letter db.subscriptions st := by
  obtain ⟨consumer, hc⟩ := Option.isSome_iff_exists.mp (h.known st hst)
  rw [letter, letter, hc, consumerOf_putSubscription hc]

/-- A patch keeps the consumer of every subscription, and the url of those in use. -/
theorem putSubscription (h : Book db queued inHand trace fresh) {new : Subscription}
    (hnew : ∀ st ∈ queued, inHand st → st.subscriptionId = new.id →
      ∀ s ∈ db.subscriptions, s.id = new.id → s.targetUrl = new.targetUrl) :
    Book { db with subscriptions := putSubscription db.subscriptions new } queued inHand trace fresh := by
  have hkey : ∀ st ∈ queued, ∀ e, Key (DeliverySystem.putSubscription db.subscriptions new) e st ↔
      Key db.subscriptions e st := by
    intro st hst e
    rw [Key, Key, h.letter_putSubscription new hst]
  have hurl : ∀ st ∈ queued, inHand st → ∀ url, urlOf db.subscriptions st.subscriptionId = some url →
      urlOf (DeliverySystem.putSubscription db.subscriptions new) st.subscriptionId = some url :=
    fun st hst hin url hu => urlOf_putSubscription hu (hnew st hst hin)
  refine ⟨h.ids, ?_, h.lt, fun st hst => ?_, h.committed, fun e he => ?_, fun row hrow hstatus => ?_,
    h.posts_lt, fun st hst url hmem e he hk => ?_, fun st hst hin url hmem => ?_,
    fun st hst hin e he hk => ?_⟩
  · rw [List.map_congr_left fun st hst => h.letter_putSubscription new hst]
    exact h.letters
  · obtain ⟨consumer, hc⟩ := Option.isSome_iff_exists.mp (h.known st hst)
    exact Option.isSome_iff_exists.mpr ⟨consumer, consumerOf_putSubscription hc new⟩
  · obtain ⟨row, hrow, hk⟩ := h.entries e he
    exact ⟨row, hrow, (hkey _ (h.committed row hrow) e).mpr hk⟩
  · obtain ⟨e, he, hk⟩ := h.failed row hrow hstatus
    exact ⟨e, he, (hkey _ (h.committed row hrow) e).mpr hk⟩
  · exact h.agree st hst url hmem e he ((hkey st hst e).mp hk)
  · exact hurl st hst hin url (h.postedTo st hst hin url hmem)
  · exact hurl st hst hin _ (h.enteredFor st hst hin e he ((hkey st hst e).mp hk))

/-- What the books say of a failed row. -/
theorem inDlqAt (h : Book db queued inHand trace fresh) {row : OutboxRow} (hrow : row ∈ db.outbox)
    (hfailed : row.status = .FAILED) : InDlqAt db trace row := by
  obtain ⟨e, he, hkey⟩ := h.failed row hrow hfailed
  obtain ⟨hevent, hconsumer⟩ := Prod.mk.inj hkey
  refine ⟨e, he, hevent.symm, hconsumer, fun url hurl => ?_⟩
  exact h.agree (stub row) (h.committed row hrow) url (mem_of_lastPosted hurl) e he hkey

end Book

end SchemaPilot.DeadLetters
