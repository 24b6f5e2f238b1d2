import SchemaPilot.Runs
import SchemaPilot.Webhook

namespace SchemaPilot.RetryLoop

open Webhook Runs

/-- A `deliver_with_retry` call that nothing runs beside, and what it has done so far. -/
structure Call where
  pc : DeliverPc
  db : Tables
  session : Session
  effects : List Effect

def isPost : Effect → Bool
  | .send => true
  | _ => false

def upserted : Effect → Option DlqEntry
  | .write (.upsertDlq entry) => some entry
  | _ => none

/-- The entry is the one of an event and a consumer. -/
def isFor (eventId : Nat) (consumerId : String) (e : DlqEntry) : Bool :=
  e.eventId = eventId && e.consumerId = consumerId

/-- `GREATEST` of the count that is there and a new one. -/
def greatest (counts : List Nat) (count : Nat) : List Nat :=
  match counts with
  | [] => [count]
  | c :: counts => (c :: counts).map (max · count)

section Dlq

variable (new : DlqEntry)

/-- What `ON CONFLICT DO UPDATE` makes of an entry. -/
def updated (e : DlqEntry) : DlqEntry :=
  if isFor new.eventId new.consumerId e then
    { e with
      failureReason := new.failureReason
      attemptCount := max e.attemptCount new.attemptCount }
  else e

theorem isFor_updated (e : DlqEntry) :
    isFor new.eventId new.consumerId (updated new e) = isFor new.eventId new.consumerId e := by
  rw [updated]
  split <;> rfl

theorem isFor_self : isFor new.eventId new.consumerId new = true := by simp [isFor]

theorem upsertDlq_eq (dlq : List DlqEntry) :
    upsertDlq dlq new =
      if dlq.filter (isFor new.eventId new.consumerId) = [] then dlq ++ [new]
      else dlq.map (updated new) := by
  rw [upsertDlq]
  by_cases hany : dlq.any (isFor new.eventId new.consumerId) = true
  · have hne : dlq.filter (isFor new.eventId new.consumerId) ≠ [] := by
      obtain ⟨e, he, hfor⟩ := List.any_eq_true.mp hany
      exact List.ne_nil_of_mem (List.mem_filter.mpr ⟨he, hfor⟩)
    rw [if_neg hne]
    exact if_pos hany
  · have hnil : dlq.filter (isFor new.eventId new.consumerId) = [] :=
      List.filter_eq_nil_iff.mpr fun e he hfor => hany (List.any_eq_true.mpr ⟨e, he, hfor⟩)
    rw [if_pos hnil]
    exact if_neg hany

/-- An upsert leaves the entries of other events and consumers alone. -/
theorem others_upsertDlq (dlq : List DlqEntry) :
    (upsertDlq dlq new).filter (fun e => !isFor new.eventId new.consumerId e) =
      dlq.filter (fun e => !isFor new.eventId new.consumerId e) := by
  rw [upsertDlq_eq]
  split
  · rw [List.filter_append, List.filter_singleton]
    simp [isFor_self]
  · rw [List.filter_map]
    have hcomp : (fun e => !isFor new.eventId new.consumerId e) ∘ updated new =
        fun e => !isFor new.eventId new.consumerId e := by
      funext e
      rw [Function.comp_apply, isFor_updated]
    rw [hcomp]
    refine (List.map_congr_left fun e he => ?_).trans (List.map_id _)
    have hno := (List.mem_filter.mp he).2
    rw [Bool.not_eq_true'] at hno
    rw [updated, hno]
    rfl

theorem counts_upsertDlq (dlq : List DlqEntry) :
    ((upsertDlq dlq new).filter (isFor new.eventId new.consumerId)).map DlqEntry.attemptCount =
      greatest ((dlq.filter (isFor new.eventId new.consumerId)).map DlqEntry.attemptCount)
        new.attemptCount := by
  rw [upsertDlq_eq]
  split
  · next hnil =>
    rw [List.filter_append, hnil, List.filter_singleton, isFor_self]
    rfl
  · next hne =>
    have hcomp : isFor new.eventId new.consumerId ∘ updated new = isFor new.eventId new.consumerId :=
      funext (isFor_updated new)
    have hcounts : greatest ((dlq.filter (isFor new.eventId new.consumerId)).map DlqEntry.attemptCount)
        new.attemptCount = ((dlq.filter (isFor new.eventId new.consumerId)).map
          DlqEntry.attemptCount).map (max · new.attemptCount) := by
      obtain ⟨e, es, he⟩ := List.exists_cons_of_ne_nil hne
      rw [he]
      rfl
    rw [hcounts, List.filter_map, hcomp, List.map_map, List.map_map]
    apply List.map_congr_left
    intro e he
    rw [Function.comp_apply, Function.comp_apply, updated, if_pos (List.mem_filter.mp he).2]

end Dlq

section Loop

variable (d : Delivery) (outcomes : Nat → Outcome)

def start (db : Tables) (session : Session) : Call := ⟨d.start, db, session, []⟩

/-- A step at some time of the clock; the POST of an attempt ends with the outcome of that number. -/
def step (s : Call) (clock : Nat) : Option Call :=
  match s.pc with
  | .awaiting attempt => (s.pc.respond (outcomes attempt)).map fun pc => { s with pc }
  | pc =>
    (d.next pc).map fun (effect, pc) =>
      let (db, session) := effect.run clock s.db s.session
      { pc, db, session, effects := s.effects ++ [effect] }

/-- The number of the first 2xx outcome, or of the last attempt that is allowed. -/
def lastAttempt : Nat :=
  ((List.range' 1 d.maxAttempts).find? (fun n => (outcomes n).ok)).getD d.maxAttempts

def loggedRow (n : Nat) : DeliveryAttempt :=
  d.attemptRow (outcomes n).ok (if (outcomes n).ok then none else some (outcomes n).reason) n

def AllFailed : Prop := ∀ n, 1 ≤ n → n ≤ d.maxAttempts → (outcomes n).ok = false

/-- What a call leaves behind that has made so many attempts, of what was there before. The upsert
also sets `last_attempt_at`, so that the statement changes the table whatever it finds there. -/
structure Delivered (before : Tables) (k : Nat) (s : Call) : Prop where
  returned : s.pc = .returned (outcomes k).ok
  posts : (s.effects.filter isPost).length = k
  committed : s.session = .closed
  attempts : s.db.attempts = before.attempts ++ (List.range' 1 k).map (loggedRow d outcomes)
  onlyLast : ∀ n ∈ List.range' 1 k, (loggedRow d outcomes n).success = true → n = k
  upserts : s.effects.filterMap upserted ≠ [] ↔ AllFailed d outcomes ∧ d.persistDlq = true
  unchanged : ¬(AllFailed d outcomes ∧ d.persistDlq = true) → s.db.dlq = before.dlq
  others : s.db.dlq.filter (fun e => !isFor d.eventId d.subscription.consumerId e) =
    before.dlq.filter (fun e => !isFor d.eventId d.subscription.consumerId e)
  entry : AllFailed d outcomes ∧ d.persistDlq = true →
    (s.db.dlq.filter (isFor d.eventId d.subscription.consumerId)).map DlqEntry.attemptCount =
      greatest ((before.dlq.filter (isFor d.eventId d.subscription.consumerId)).map
        DlqEntry.attemptCount) d.maxAttempts
  frame : s.db = { before with attempts := s.db.attempts, dlq := s.db.dlq }

section LastAttempt

variable {d outcomes} (hmax : 1 ≤ d.maxAttempts)

theorem fails_before_last {n : Nat} (hpos : 1 ≤ n) (hn : n < lastAttempt d outcomes) :
    (outcomes n).ok = false := by
  rw [lastAttempt] at hn
  cases hfind : (List.range' 1 d.maxAttempts).find? (fun n => (outcomes n).ok) with
  | none =>
    rw [hfind, Option.getD_none] at hn
    exact Bool.eq_false_iff.mpr (List.find?_eq_none.mp hfind n (List.mem_range'_1.mpr ⟨hpos, by omega⟩))
  | some k =>
    rw [hfind, Option.getD_some] at hn
    have hbefore := (List.find?_range'_eq_some.mp hfind).2.2 n hpos hn
    simpa using hbefore

include hmax in
theorem lastAttempt_bounds : 1 ≤ lastAttempt d outcomes ∧ lastAttempt d outcomes ≤ d.maxAttempts := by
  rw [lastAttempt]
  cases hfind : (List.range' 1 d.maxAttempts).find? (fun n => (outcomes n).ok) with
  | none => exact ⟨hmax, le_rfl⟩
  | some k =>
    have hk := List.mem_range'_1.mp (List.mem_of_find?_eq_some hfind)
    exact ⟨hk.1, by rw [Option.getD_some]; omega⟩

include hmax in
/-- The last attempt fails exactly if all of them do, and then it is the last that is allowed. -/
theorem last_fails_iff :
    (outcomes (lastAttempt d outcomes)).ok = false ↔ AllFailed d outcomes := by
  obtain ⟨hpos, hle⟩ : 1 ≤ lastAttempt d outcomes ∧ lastAttempt d outcomes ≤ d.maxAttempts :=
    lastAttempt_bounds hmax
  refine ⟨fun h n hn hnmax => ?_, fun h => h _ hpos hle⟩
  rw [lastAttempt] at h
  cases hfind : (List.range' 1 d.maxAttempts).find? (fun n => (outcomes n).ok) with
  | none =>
    exact Bool.eq_false_iff.mpr (List.find?_eq_none.mp hfind n (List.mem_range'_1.mpr ⟨hn, by omega⟩))
  | some k =>
    rw [hfind, Option.getD_some, List.find?_some hfind] at h
    cases h

theorem lastAttempt_of_allFailed (h : AllFailed d outcomes) : lastAttempt d outcomes = d.maxAttempts := by
  have hfind : (List.range' 1 d.maxAttempts).find? (fun n => (outcomes n).ok) = none := by
    apply List.find?_eq_none.mpr
    intro n hn
    obtain ⟨hpos, hlt⟩ := List.mem_range'_1.mp hn
    rw [h n hpos (by omega)]
    exact Bool.false_ne_true
  rw [lastAttempt, hfind, Option.getD_none]

end LastAttempt

def attemptEffects (n : Nat) : List Effect := [.send, .write (.insertAttempt (loggedRow d outcomes n))]

def afterAttempt (n : Nat) : DeliverPc :=
  if (outcomes n).ok then .commit true
  else if n = d.maxAttempts then
    if d.persistDlq then .dlq n (outcomes n).reason else .commit false
  else .post (n + 1)

/-- So many attempts have been made and logged, and nothing else has been done. -/
structure Logged (db : Tables) (session : Session) (n : Nat) (s : Call) : Prop where
  db : s.db = db
  writes : s.session.writes =
    session.writes ++ ((List.range' 1 n).map (loggedRow d outcomes)).map Write.insertAttempt
  effects : s.effects = (List.range' 1 n).flatMap (attemptEffects d outcomes)

variable {d outcomes} {db : Tables} {session : Session}

theorem step_of_next {s : Call} {effect : Effect} {pc : DeliverPc}
    (h : d.next s.pc = some (effect, pc)) (clock : Nat) :
    step d outcomes s clock = some ⟨pc, (effect.run clock s.db s.session).1,
      (effect.run clock s.db s.session).2, s.effects ++ [effect]⟩ := by
  obtain ⟨at_, db, session, effects⟩ := s
  cases at_ with
  | awaiting attempt => cases h
  | post attempt | succeeded attempt | failed attempt reason | dlq attempt reason | commit ok
  | returned ok =>
    dsimp only at h
    rw [step]
    dsimp only
    rw [h]
    rfl

theorem step_of_respond {s : Call} {n : Nat} {pc : DeliverPc} (hpc : s.pc = .awaiting n)
    (h : DeliverPc.respond (outcomes n) (.awaiting n) = some pc) (clock : Nat) :
    step d outcomes s clock = some { s with pc } := by
  obtain ⟨at_, db, session, effects⟩ := s
  dsimp only at hpc
  subst hpc
  rw [step]
  dsimp only
  rw [h]
  rfl

/-- The statement after the end of a POST inserts the row about it. -/
theorem next_responded {n : Nat} {pc : DeliverPc}
    (h : DeliverPc.respond (outcomes n) (.awaiting n) = some pc) :
    d.next pc = some (.write (.insertAttempt (loggedRow d outcomes n)), afterAttempt d outcomes n) := by
  rw [DeliverPc.respond, Option.some.injEq] at h
  subst h
  rw [loggedRow, afterAttempt]
  split <;> rename_i hok
  · rw [hok]
    rfl
  · rw [Bool.eq_false_iff.mpr hok]
    rfl

/-- An attempt takes three steps: the POST, its end, and the row about it. -/
theorem leads_attempt {s : Call} {n : Nat} (h : Logged d outcomes db session n s)
    (hpc : s.pc = .post (n + 1)) :
    Leads (step d outcomes) always 3 s
      (fun t => Logged d outcomes db session (n + 1) t ∧ t.pc = afterAttempt d outcomes (n + 1)) := by
  obtain ⟨pc, db', session', effects⟩ := s
  obtain ⟨rfl, hwrites, heffects⟩ := h
  dsimp only at hpc hwrites heffects
  subst hpc
  obtain ⟨pc, hpc⟩ : ∃ pc, DeliverPc.respond (outcomes (n + 1)) (.awaiting (n + 1)) = some pc :=
    ⟨_, rfl⟩
  refine .cons (fun _ => trivial) fun _ => ⟨⟨.awaiting (n + 1), db', session', effects ++ [.send]⟩, rfl, ?_⟩
  refine .cons (fun _ => trivial) fun clock => ⟨_, step_of_respond rfl hpc clock, ?_⟩
  refine .cons (fun _ => trivial) fun clock =>
    ⟨_, step_of_next (next_responded hpc) clock, .refl ⟨⟨rfl, ?_, ?_⟩, rfl⟩⟩
  · change session'.writes ++ [.insertAttempt (loggedRow d outcomes (n + 1))] = _
    rw [hwrites, List.range'_1_concat, List.map_append, List.map_append, Nat.add_comm 1 n,
      List.append_assoc]
    rfl
  · change effects ++ [.send] ++ [Effect.write (.insertAttempt (loggedRow d outcomes (n + 1)))] = _
    rw [heffects, List.range'_1_concat, List.flatMap_append, Nat.add_comm 1 n, List.append_assoc]
    rfl

/-- Up to the last attempt, each one is followed by the next. -/
theorem leads_logged (hactive : d.subscription.active = true) (hmax : 1 ≤ d.maxAttempts) {n : Nat}
    (hn : n < lastAttempt d outcomes) :
    Leads (step d outcomes) always (3 * n) (start d db session)
      (fun t => Logged d outcomes db session n t ∧ t.pc = .post (n + 1)) := by
  induction n with
  | zero =>
    refine .refl ⟨⟨rfl, (List.append_nil _).symm, rfl⟩, ?_⟩
    change d.start = _
    rw [Delivery.start, hactive, decide_eq_true hmax]
    rfl
  | succ n ih =>
    have hfails : (outcomes (n + 1)).ok = false := fails_before_last (Nat.le_add_left 1 n) hn
    have hne : n + 1 ≠ d.maxAttempts :=
      (hn.trans_le (lastAttempt_bounds hmax).2).ne
    rw [Nat.mul_succ]
    refine (ih (Nat.lt_of_succ_lt hn)).trans fun t ht => ?_
    have hnext : afterAttempt d outcomes (n + 1) = .post (n + 1 + 1) := by
      rw [afterAttempt, hfails, if_neg Bool.false_ne_true, if_neg hne]
    exact hnext ▸ leads_attempt ht.1 ht.2

theorem foldl_insertAttempt (rows : List DeliveryAttempt) (db : Tables) :
    (rows.map Write.insertAttempt).foldl Write.apply db =
      { db with attempts := db.attempts ++ rows } := by
  induction rows generalizing db with
  | nil => simp
  | cons row rows ih =>
    rw [List.map_cons, List.foldl_cons, ih]
    simp [Write.apply]

/-- What the call sees of the tables before it commits. -/
theorem Logged.view {n : Nat} {s : Call} (h : Logged d outcomes db session n s) :
    s.session.view s.db =
      { session.view db with
        attempts := (session.view db).attempts ++ (List.range' 1 n).map (loggedRow d outcomes) } := by
  rw [Session.view, h.writes, h.db, List.foldl_append]
  exact foldl_insertAttempt _ _

theorem posts_attemptEffects (ns : List Nat) :
    ((ns.flatMap (attemptEffects d outcomes)).filter isPost).length = ns.length := by
  induction ns with
  | nil => rfl
  | cons n ns ih =>
    rw [List.flatMap_cons, List.filter_append, List.length_append, ih, List.length_cons, Nat.add_comm]
    rfl

theorem upserted_attemptEffects (ns : List Nat) :
    (ns.flatMap (attemptEffects d outcomes)).filterMap upserted = [] := by
  apply List.filterMap_eq_nil_iff.mpr
  intro effect heffect
  obtain ⟨n, -, hn⟩ := List.mem_flatMap.mp heffect
  simp only [attemptEffects, List.mem_cons, List.not_mem_nil, or_false] at hn
  obtain rfl | rfl := hn <;> rfl

section Ends

variable (hmax : 1 ≤ d.maxAttempts)

theorem onlyLast_logged {n : Nat} (hn : n ∈ List.range' 1 (lastAttempt d outcomes))
    (hok : (loggedRow d outcomes n).success = true) : n = lastAttempt d outcomes := by
  obtain ⟨hpos, hlt⟩ := List.mem_range'_1.mp hn
  by_contra hne
  have hfails := fails_before_last hpos (Nat.lt_of_le_of_ne (by omega) hne)
  exact Bool.false_ne_true (hfails.symm.trans hok)

/-- The commit without an upsert ends a call that succeeds or must leave no entry. -/
theorem delivered_of_commit {t : Call} (h : Logged d outcomes db session (lastAttempt d outcomes) t)
    (hno : ¬(AllFailed d outcomes ∧ d.persistDlq = true)) :
    Delivered d outcomes (session.view db) (lastAttempt d outcomes)
      ⟨.returned (outcomes (lastAttempt d outcomes)).ok, t.session.view t.db, .closed,
        t.effects ++ [Effect.commit]⟩ where
  returned := rfl
  posts := by
    rw [List.filter_append, List.length_append, h.effects, posts_attemptEffects, List.length_range']
    rfl
  committed := rfl
  attempts := congrArg Tables.attempts h.view
  onlyLast := fun _ => onlyLast_logged
  upserts := by
    rw [List.filterMap_append, h.effects, upserted_attemptEffects]
    exact iff_of_false (fun hne => hne rfl) hno
  unchanged := fun _ => by rw [h.view]
  others := by rw [h.view]
  entry := fun hall => absurd hall hno
  frame := by rw [h.view]

include hmax in
theorem delivered_of_dlq {t : Call} (h : Logged d outcomes db session (lastAttempt d outcomes) t)
    (hall : AllFailed d outcomes) (hpersist : d.persistDlq = true) {reason : String} :
    let entry := d.dlqEntry reason (lastAttempt d outcomes)
    Delivered d outcomes (session.view db) (lastAttempt d outcomes)
      ⟨.returned false, (Write.upsertDlq entry).apply (t.session.view t.db), .closed,
        t.effects ++ [Effect.write (.upsertDlq entry)] ++ [Effect.commit]⟩ where
  returned := congrArg DeliverPc.returned ((last_fails_iff hmax).mpr hall).symm
  posts := by
    rw [List.append_assoc, List.filter_append, List.length_append, h.effects, posts_attemptEffects,
      List.length_range']
    rfl
  committed := rfl
  attempts := congrArg Tables.attempts h.view
  onlyLast := fun _ => onlyLast_logged
  upserts := by
    rw [List.append_assoc, List.filterMap_append, h.effects, upserted_attemptEffects]
    exact iff_of_true (List.cons_ne_nil _ _) ⟨hall, hpersist⟩
  unchanged := fun hno => absurd ⟨hall, hpersist⟩ hno
  others := by
    rw [h.view]
    exact others_upsertDlq (d.dlqEntry reason _) (session.view db).dlq
  entry := fun _ => by
    rw [h.view, ← lastAttempt_of_allFailed hall]
    exact counts_upsertDlq (d.dlqEntry reason _) (session.view db).dlq
  frame := by rw [h.view]; rfl

theorem leads_commit {t : Call} {ok : Bool} (hpc : t.pc = .commit ok) :
    Leads (step d outcomes) always 1 t
      (fun u => u = ⟨.returned ok, t.session.view t.db, .closed, t.effects ++ [Effect.commit]⟩) := by
  have hnext : d.next t.pc = some (.commit, .returned ok) := by
    rw [hpc]
    rfl
  exact .cons (fun _ => trivial) fun clock => ⟨_, step_of_next hnext clock, .refl rfl⟩

theorem leads_dlq {t : Call} {n : Nat} {reason : String} (hpc : t.pc = .dlq n reason) :
    let entry := d.dlqEntry reason n
    Leads (step d outcomes) always 2 t
      (fun u => u = ⟨.returned false, (Write.upsertDlq entry).apply (t.session.view t.db), .closed,
        t.effects ++ [Effect.write (.upsertDlq entry)] ++ [Effect.commit]⟩) := by
  intro entry
  have hnext : d.next t.pc = some (.write (.upsertDlq entry), .commit false) := by
    rw [hpc]
    rfl
  refine .cons (fun _ => trivial) fun clock => ⟨_, step_of_next hnext clock, ?_⟩
  have hview : Session.view ((Effect.write (.upsertDlq entry)).run clock t.db t.session).2 t.db =
      (Write.upsertDlq entry).apply (t.session.view t.db) := view_concat _ _ _
  rw [← hview]
  exact leads_commit rfl

include hmax in
/-- An active call ends after a number of steps, whatever the clock, with nothing left to do. -/
theorem leads_delivered (hactive : d.subscription.active = true) :
    ∃ n, Leads (step d outcomes) always n (start d db session)
      (Delivered d outcomes (session.view db) (lastAttempt d outcomes)) := by
  have hpos : 1 ≤ lastAttempt d outcomes := (lastAttempt_bounds hmax).1
  obtain ⟨k, hk⟩ : ∃ k, lastAttempt d outcomes = k + 1 := ⟨_, (Nat.sub_add_cancel hpos).symm⟩
  have hattempts : Leads (step d outcomes) always (3 * k + 3) (start d db session)
      (fun t => Logged d outcomes db session (k + 1) t ∧ t.pc = afterAttempt d outcomes (k + 1)) :=
    (leads_logged hactive hmax (hk ▸ Nat.lt_succ_self k)).trans fun t ht => leads_attempt ht.1 ht.2
  rw [← hk] at hattempts
  cases hok : (outcomes (lastAttempt d outcomes)).ok with
  | true =>
    have hno : ¬(AllFailed d outcomes ∧ d.persistDlq = true) := by
      rintro ⟨hall, -⟩
      rw [(last_fails_iff hmax).mpr hall] at hok
      cases hok
    refine ⟨3 * k + 3 + 1, hattempts.trans fun t ⟨hlogged, hpc⟩ => ?_⟩
    rw [afterAttempt, if_pos hok] at hpc
    refine (leads_commit hpc).mono fun u hu => ?_
    rw [hu, ← hok]
    exact delivered_of_commit hlogged hno
  | false =>
    have hall := (last_fails_iff hmax).mp hok
    cases hpersist : d.persistDlq with
    | true =>
      refine ⟨3 * k + 3 + 2, hattempts.trans fun t ⟨hlogged, hpc⟩ => ?_⟩
      rw [afterAttempt, hok, if_neg Bool.false_ne_true, if_pos (lastAttempt_of_allFailed hall),
        if_pos hpersist] at hpc
      refine (leads_dlq hpc).mono fun u hu => ?_
      rw [hu]
      exact delivered_of_dlq hmax hlogged hall hpersist
    | false =>
      have hno : ¬(AllFailed d outcomes ∧ d.persistDlq = true) := by
        rw [hpersist]
        exact fun h => Bool.false_ne_true h.2
      refine ⟨3 * k + 3 + 1, hattempts.trans fun t ⟨hlogged, hpc⟩ => ?_⟩
      rw [afterAttempt, hok, if_neg Bool.false_ne_true, if_pos (lastAttempt_of_allFailed hall),
        hpersist, if_neg Bool.false_ne_true] at hpc
      refine (leads_commit hpc).mono fun u hu => ?_
      rw [hu, ← hok]
      exact delivered_of_commit hlogged hno

end Ends

/-- The exact log of a call: on an active subscription it makes its attempts and returns, and on
another one it takes no step. -/
theorem deliver_log (d : Delivery) (outcomes : Nat → Outcome) (db : Tables) (session : Session)
    (hmax : 1 ≤ d.maxAttempts) :
    (d.subscription.active = true →
      ∃ n, ∀ clocks : List Nat, clocks.length = n → ∃ s,
        run (step d outcomes) always (start d db session) clocks = some s ∧
          (∀ clock, step d outcomes s clock = none) ∧
          Delivered d outcomes (session.view db) (lastAttempt d outcomes) s) ∧
      (d.subscription.active = false →
        start d db session = ⟨.returned false, db, session, []⟩ ∧
          ∀ clock, step d outcomes (start d db session) clock = none) := by
  have hreturned : ∀ {s : Call} {ok : Bool}, s.pc = .returned ok → ∀ clock, step d outcomes s clock = none := by
    intro s ok hpc clock
    obtain ⟨pc, db, session, effects⟩ := s
    dsimp only at hpc
    subst hpc
    rfl
  constructor
  · intro hactive
    obtain ⟨n, hn⟩ : ∃ n, Leads (step d outcomes) always n (start d db session)
      (Delivered d outcomes (session.view db) (lastAttempt d outcomes)) := leads_delivered hmax hactive
    refine ⟨n, fun clocks hlen => ?_⟩
    obtain ⟨s, hs, hdelivered⟩ := hn clocks hlen
    exact ⟨s, hs, hreturned hdelivered.returned, hdelivered⟩
  · intro hinactive
    have hstart : start d db session = ⟨.returned false, db, session, []⟩ := by
      rw [start, Delivery.start, hinactive]
      rfl
    have hpc : (start d db session).pc = .returned false := by rw [hstart]
    exact ⟨hstart, hreturned hpc⟩

def sampleDelivery : Delivery where
  eventId := 7
  endpointId := 1
  subscription := ⟨1, "c1", 1, "http://test/webhook", "RISKY", none, true⟩
  payload := ⟨7, 1, .RISKY, 2, []⟩
  maxAttempts := 3
  persistDlq := true

def sampleOutcomes : Nat → Outcome
  | 1 => .response 503
  | 2 => .raised "ConnectError: refused"
  | _ => .response 204

theorem deliver_log_third :
    lastAttempt sampleDelivery sampleOutcomes = 3 ∧
      ∃ n, ∀ clocks : List Nat, clocks.length = n → ∃ s,
        run (step sampleDelivery sampleOutcomes) always (start sampleDelivery .empty .closed) clocks = some s ∧
          (∀ clock, step sampleDelivery sampleOutcomes s clock = none) ∧
          Delivered sampleDelivery sampleOutcomes (Session.closed.view .empty)
            (lastAttempt sampleDelivery sampleOutcomes) s :=
  ⟨by decide, (deliver_log sampleDelivery sampleOutcomes .empty .closed (by decide)).1 rfl⟩

end Loop

end SchemaPilot.RetryLoop
